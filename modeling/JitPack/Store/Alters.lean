import JitPack.Store.Gate

/-!
# The rows after a call

An insert and an update leave a row of the same shape: the fields that the statement names, over the
stored fields or the defaults (`Db.written`). `step_alters` says of a call which one row it has put
that way or deleted, with the gate the write has passed. An invariant that speaks about the values
of the rows takes one case for each constructor of `Alters`.
-/

namespace JitPack

/-- What a write of the row starts from: the stored fields, or the defaults of a new row. -/
def Db.base (now : String) (key : Key) (db : Db) : String → Value :=
  match db.rows.lookup key with
  | some row => row.fields
  | none => Db.defaultOf now key.table

/-- The fields of the row after a write of `applied`. -/
def Db.written (s : Env) (key : Key) (applied : Fields) (db : Db) : String → Value :=
  Db.updatedFields s.sqlite key.table (db.base s.sqlNow key) applied

/-- The statement that writes `applied` to the row has passed. -/
structure Put (s : Env) (key : Key) (applied : Fields) (hlc : HLC) (clocks : FieldClocks) (db : Db)
    (rows : Rows) : Prop where
  bindable : Db.bindable applied = true
  allows : db.allows s.sqlite key (db.written s key applied) = true
  rows : rows = db.rows.insert key ⟨db.written s key applied, hlc, clocks⟩

/-- The clocks that a push leaves on its row. -/
def pushedClocks (t : Table) (row : Row) (merged : MergeResult) : FieldClocks :=
  if row.present then merged.clocks else insertedClocks t merged

/-- The mutation that a revert of the entry makes of its fields. -/
def ConflictEntry.mutation (e : ConflictEntry) (fields : Fields) : Mutation :=
  ⟨"", .upsert, e.key.table.name, e.key.id, fields, []⟩

/-- The table that a column of the table refers to, and what a delete there does. -/
def Table.refers (t : Table) (f : String) : Option (Table × OnDelete) :=
  match (t.column f).bind Column.references with
  | some ⟨.table parent, a⟩ => some (parent, a)
  | _ => none

/-- The references of a table: the column, the table it refers to, and what a delete there does. -/
def Table.references (t : Table) : List (String × Table × OnDelete) :=
  t.columns.filterMap fun c =>
    match c.references with
    | some ⟨.table parent, a⟩ => some (c.name, parent, a)
    | _ => none

theorem Table.column_some {t : Table} {f : String} {c : Column} (h : t.column f = some c) :
    c ∈ t.columns ∧ c.name = f :=
  ⟨List.mem_of_find?_eq_some h, by simpa using List.find?_some h⟩

theorem Table.refers_some {t parent : Table} {f : String} {a : OnDelete}
    (h : t.refers f = some (parent, a)) :
    ∃ c, t.column f = some c ∧ c.references = some ⟨.table parent, a⟩ := by
  unfold refers at h
  split at h
  · next hc =>
    cases h
    exact Option.bind_eq_some_iff.1 hc
  · cases h

theorem Table.mem_references {t parent : Table} {f : String} {a : OnDelete}
    (h : t.refers f = some (parent, a)) : (f, parent, a) ∈ t.references := by
  obtain ⟨c, hc, href⟩ := refers_some h
  obtain ⟨hmem, rfl⟩ := column_some hc
  exact List.mem_filterMap.2 ⟨c, hmem, by rw [href]⟩

/-- The call asks the partition for a mutation of a row of the table: by a push, or by a revert. -/
inductive Call.Asks (c : Call) : Partition → Table → Mutation → Prop where
  | push {p m t} (hr : Pushes c.request p m) (valid : validate m p.tables = .ok t) : Asks c p t m
  | revert {p e fields t} (hr : Reverts c.request p e fields)
      (valid : validate (e.mutation fields) p.tables = .ok t) : Asks c p t (e.mutation fields)

/-- What a call does to the rows. -/
inductive Alters (c : Call) (db : Db) : Rows → Prop where
  | nothing : Alters c db db.rows
  | deleted {p m t m' db'} (hr : Pushes c.request p m) (valid : validate m p.tables = .ok t)
      (gate : p.gate c.env db t m = (m', none)) (hop : m'.op = .delete)
      (present : (loadRow ⟨t, m.id⟩ db).present = true)
      (delete : Db.deleteRow ⟨t, m.id⟩ db = .ok db') : Alters c db db'.rows
  | pushed {p m t m' m'' retired rows} (hr : Pushes c.request p m)
      (valid : validate m p.tables = .ok t) (how : Decided c.env p m db t m' m'' retired)
      (hop : m''.op ≠ .delete)
      (put : Put c.env ⟨t, m.id⟩ (merge (loadRow ⟨t, m.id⟩ db) m'').applied
        (merge (loadRow ⟨t, m.id⟩ db) m'').rowHLC
        (pushedClocks t (loadRow ⟨t, m.id⟩ db) (merge (loadRow ⟨t, m.id⟩ db) m'')) db rows)
      (old : t = .trips → (loadRow ⟨t, m.id⟩ db).present = true) : Alters c db rows
  /-- A new trip gets its owner along with its row. -/
  | founded {p m m' db₁ id hlc rows} (hr : Pushes c.request p m)
      (valid : validate m p.tables = .ok .trips)
      (gate : p.gate c.env db .trips m = (m', none)) (hop : m'.op ≠ .delete)
      (fresh : (loadRow ⟨.trips, m.id⟩ db).present = false)
      (put : Put c.env ⟨.trips, m.id⟩ (merge (loadRow ⟨.trips, m.id⟩ db) m').applied
        (merge (loadRow ⟨.trips, m.id⟩ db) m').rowHLC
        (pushedClocks .trips (loadRow ⟨.trips, m.id⟩ db) (merge (loadRow ⟨.trips, m.id⟩ db) m'))
        db db₁.rows)
      (absent : db₁.rows.lookup ⟨.tripMembers, id⟩ = none)
      (owner : Put c.env ⟨.tripMembers, id⟩ (ownerRow m.id p.actorID) hlc (fun _ => none) db₁ rows) :
      Alters c db rows
  | restored {p e fields t m hlc db₁ rows} (hr : Reverts c.request p e fields)
      (valid : validate (e.mutation fields) p.tables = .ok t) (noted : db.Noted db₁)
      (present : (loadRow ⟨t, e.key.id⟩ db).present = true)
      (gate : p.gate c.env db₁ t (e.mutation fields) = (m, none))
      (put : Put c.env ⟨t, e.key.id⟩ (merge (loadRow ⟨t, e.key.id⟩ db) { m with hlc }).applied
        (merge (loadRow ⟨t, e.key.id⟩ db) { m with hlc }).rowHLC
        (merge (loadRow ⟨t, e.key.id⟩ db) { m with hlc }).clocks db rows) : Alters c db rows
  | taken {tripID itemID takerID hlc rows} (hr : c.request = .takeOver tripID itemID takerID)
      (present : (loadRow ⟨.tripItems, itemID⟩ db).present = true)
      (put : Put c.env ⟨.tripItems, itemID⟩
        (merge (loadRow ⟨.tripItems, itemID⟩ db) (takeoverOf c.env itemID takerID hlc)).applied
        (merge (loadRow ⟨.tripItems, itemID⟩ db) (takeoverOf c.env itemID takerID hlc)).rowHLC
        (merge (loadRow ⟨.tripItems, itemID⟩ db) (takeoverOf c.env itemID takerID hlc)).clocks db rows) :
      Alters c db rows
  /-- A new track or a new picture, of a holder of the trip. -/
  | attached {key applied hlc clocks tripID rows} {k : Key} (ht : key.table ∈ uploadTables)
      (absent : db.rows.lookup key = none) (own : db.tripOf k.table k.id = some (.str tripID))
      (fields : ∀ f t a, key.table.refers f = some (t, a) →
        f = columnTripID ∧ applied.lookup f = some (.str tripID) ∨
        t = k.table ∧ applied.lookup f = some (.str k.id))
      (put : Put c.env key applied hlc clocks db rows) : Alters c db rows
  /-- A new file of a track, or the photo of an item: no reference is written. -/
  | stamped {key applied hlc clocks rows} (ht : key.table ∈ uploadTables)
      (present : (loadRow key db).present = true)
      (fields : ∀ f, key.table.refers f ≠ none → applied.lookup f = none)
      (put : Put c.env key applied hlc clocks db rows) : Alters c db rows

/-! ## The cases -/

section
variable {s : Env} {key : Key} {applied : Fields} {hlc : HLC} {clocks : FieldClocks} {db db' db₁ : Db}

theorem Db.base_of_lookup {now : String} {row : StoredRow} (h : db.rows.lookup key = some row) :
    db.base now key = row.fields := by
  rw [base, h]

theorem Db.base_of_absent {now : String} (h : db.rows.lookup key = none) :
    db.base now key = Db.defaultOf now key.table := by
  rw [base, h]

/-- A write reads a column back that it names, and keeps the others. -/
theorem Db.written_cases (s : Env) (key : Key) (applied : Fields) (db : Db) (f : String) :
    applied.lookup f = none ∧ db.written s key applied f = db.base s.sqlNow key f ∨
    ∃ v, applied.lookup f = some v ∧
      db.written s key applied f = Db.readBack s.sqlite key.table f v := by
  unfold written updatedFields
  cases applied.lookup f with
  | none => exact .inl ⟨rfl, rfl⟩
  | some v => exact .inr ⟨v, rfl, rfl⟩

/-- A merge writes nothing that the mutation does not name. -/
theorem lookup_of_applied {row : Row} {m : Mutation} {f : String} {v : Value}
    (h : (merge row m).applied.lookup f = some v) : m.fields.lookup f = some v := by
  by_cases hop : m.op = .delete
  · rw [merge_applied_delete hop] at h
    cases h
  · rw [(merge_upsert hop f).1] at h
    exact (Option.filter_eq_some_iff.1 h).1

/-- Constraints look at the rows and at the accounts. -/
theorem Db.allows_congr (hu : db'.users = db.users) (hr : db'.rows = db.rows) (sqlite : Sqlite)
    (key : Key) (row : String → Value) : db'.allows sqlite key row = db.allows sqlite key row := by
  have hresolves : db'.resolves key = db.resolves key := by
    funext c v
    unfold resolves
    rw [hu, hr]
  have hunique : db'.isUnique key row = db.isUnique key row := by
    funext u
    unfold isUnique
    rw [hr]
  unfold allows
  rw [hresolves, hunique]

theorem put_of_insertRow (h : Db.insertRow s.sqlite s.sqlNow key applied hlc clocks db = .ok db') :
    Put s key applied hlc clocks db db'.rows := by
  obtain ⟨habs, hbind, hallows, rfl⟩ := Db.insertRow_ok h
  have hfields : Db.insertedFields s.sqlite s.sqlNow key.table applied = db.written s key applied := by
    rw [Db.insertedFields_eq, Db.written, Db.base_of_absent habs]
  rw [hfields] at hallows ⊢
  exact ⟨hbind, hallows, rfl⟩

/-- An update inside a transaction that has only written to the logs so far. -/
theorem put_of_updateRow (hu : db₁.users = db.users) (hrows : db₁.rows = db.rows)
    (hp : (loadRow key db).present = true)
    (h : Db.updateRow s.sqlite key applied hlc clocks db₁ = .ok db') :
    Put s key applied hlc clocks db db'.rows := by
  obtain ⟨row, hrow, -⟩ := loadRow_of_present hp
  obtain ⟨hbind, hallows, rfl⟩ := Db.updateRow_ok (hrows ▸ hrow) h
  rw [Db.allows_congr hu hrows] at hallows
  have hfields : Db.updatedFields s.sqlite key.table row.fields applied = db.written s key applied := by
    rw [Db.written, Db.base_of_lookup hrow]
  rw [hfields] at hallows ⊢
  exact ⟨hbind, hallows, by rw [hrows]⟩

theorem lookup_of_not_present (h : (loadRow key db).present = false) : db.rows.lookup key = none := by
  unfold loadRow at h
  split at h
  · assumption
  · cases h

/-- The partitions that let a mutation of a trip's row through have the change hook. -/
theorem Pushes.afterChange {r : Request} {p : Partition} {m : Mutation} (h : Pushes r p m)
    (ht : p.tables .trips = true) : p.afterChange ≠ none := by
  cases h with
  | trip => cases ht
  | master => exact nofun
  | deleteRow => exact nofun
  | prune => exact nofun

variable {c : Call} {p : Partition} {m : Mutation} {res : MutationResult}

/-- The write of a merge deletes its row, or writes fields to it. -/
theorem Persisted.put {merged : MergeResult} {m : Mutation} {t : Table} {id : String}
    (hm : merged = merge (loadRow ⟨t, id⟩ db) m) (hh : m.hlc ≠ [])
    (h : Persisted s ⟨t, id⟩ merged (loadRow ⟨t, id⟩ db).present db true db') :
    merged.deleted = true ∧ (loadRow ⟨t, id⟩ db).present = true ∧ m.op = .delete ∧
      Db.deleteRow ⟨t, id⟩ db = .ok db' ∨
    merged.deleted = false ∧ m.op ≠ .delete ∧
      Put s ⟨t, id⟩ merged.applied merged.rowHLC (pushedClocks t (loadRow ⟨t, id⟩ db) merged) db
        db'.rows := by
  cases h with
  | deleted hd hp h => exact .inl ⟨hd, hp, (merge_deleted (hm ▸ hd)).1, h⟩
  | inserted hd hp h =>
    refine .inr ⟨hd, fun hop => ?_, ?_⟩
    · -- a delete of a missing row is newer than it, since every clock is
      have hold : (loadRow ⟨t, id⟩ db).hlc = [] := by
        rw [loadRow, lookup_of_not_present hp]
      have hnew : merged.deleted = true := by
        rw [hm, merge_deleted_iff, hold]
        cases hclock : m.hlc with
        | nil => exact absurd hclock hh
        | cons b bs => exact ⟨hop, List.nil_lt_cons ..⟩
      rw [hd] at hnew
      cases hnew
    · rw [pushedClocks, if_neg (by simp [hp])]
      exact put_of_insertRow h
  | updated hd hp ha h =>
    refine .inr ⟨hd, fun hop => ha ?_, ?_⟩
    · rw [hm, merge_applied_delete hop]
      rfl
    · rw [pushedClocks, if_pos hp]
      exact put_of_updateRow rfl rfl hp h

theorem Applied.alters (hr : Pushes c.request p m) (h : Applied c.env p m db res db') :
    Alters c db db'.rows := by
  rcases h.rows with hrows | ⟨t, m', m'', retired, db₁, valid, how, hper, hrows⟩
  · rw [hrows]
    exact .nothing
  have hhlc : m''.hlc = m.hlc := by
    have hgate := (gate_onlyFields hr.thins how.gate).hlc
    rcases how.write with ⟨-, rfl, -⟩ | ⟨-, rfl, -⟩
    · exact hgate
    · exact hgate
  rcases hper.put rfl (hhlc ▸ hr.hlc_ne) with ⟨hd, hp, hop, hdel⟩ | ⟨hd, hop, hput⟩
  · obtain rfl : m'' = m' := by
      rcases how.write with ⟨-, rfl, -⟩ | ⟨-, rfl, -⟩
      · rfl
      · cases hop
    rcases hrows with ⟨-, hrows⟩ | ⟨-, habs, -⟩
    · rw [hrows]
      exact .deleted hr valid how.gate hop hp hdel
    · rw [hp] at habs
      cases habs
  rcases hrows with ⟨hold, hrows⟩ | ⟨rfl, habs, db₂, db₃, hlc, id, h₂, h₃, hi⟩
  · rw [hrows]
    refine .pushed hr valid how hop hput fun ht => ?_
    subst ht
    exact hold (hr.afterChange (validate_ok valid).2) rfl hd
  · obtain rfl : m'' = m' := by
      rcases how.write with ⟨-, rfl, -⟩ | ⟨-, -, -, -, hp, -⟩
      · rfl
      · rw [habs] at hp
        cases hp
    rw [← h₂] at hput
    rw [← h₃]
    exact .founded hr valid how.gate hop habs hput (Db.insertRow_ok hi).1 (put_of_insertRow hi)

theorem Restored.alters {e : ConflictEntry} {fields : Fields} (hr : Reverts c.request p e fields)
    (h : Restored c.env p e fields db db') : Alters c db db'.rows := by
  obtain ⟨t, m, hlc, db₁, db₂, row, valid, hn, hrow, hg, hu, hrows⟩ := h.rows
  have hp : (loadRow ⟨t, e.key.id⟩ db).present = true := by
    rw [loadRow_of_lookup hrow]
  rw [hrows]
  exact .restored hr valid hn hp hg (put_of_updateRow hn.users hn.rows hp hu)

theorem Taken.alters {tripID itemID takerID : String} (hr : c.request = .takeOver tripID itemID takerID)
    (h : Taken c.env tripID itemID takerID db db') : Alters c db db'.rows := by
  cases h with
  | intro present held update =>
    have hp : (loadRow ⟨.tripItems, itemID⟩ db).present = true := by
      rw [loadRow_of_lookup present]
    have hput := put_of_updateRow rfl rfl hp update
    exact .taken hr hp hput

/-- A track refers to its trip and to its holder. -/
theorem TrackHolder.references (h : TrackHolder) :
    h.table.references = [(columnTripID, .trips, .cascade), (h.column, h.holders, .cascade)] := by
  obtain ⟨table, column, holders, known⟩ := h
  simp only [List.mem_cons, List.not_mem_nil, or_false, Prod.mk.injEq] at known
  rcases known with ⟨rfl, rfl, rfl⟩ | ⟨rfl, rfl, rfl⟩ <;> rfl

theorem TrackHolder.refers (h : TrackHolder) {col : String} {t : Table} {a : OnDelete}
    (hcol : h.table.refers col = some (t, a)) :
    col = columnTripID ∨ col = h.column ∧ t = h.holders := by
  have href := Table.mem_references hcol
  rw [h.references] at href
  simp only [List.mem_cons, List.not_mem_nil, or_false, Prod.mk.injEq] at href
  exact href.imp And.left fun href => ⟨href.1, href.2.1⟩

theorem TrackHolder.column_eq (h : TrackHolder) : h.column = "idea_id" ∨ h.column = "excursion_id" := by
  obtain ⟨table, column, holders, known⟩ := h
  simp only [List.mem_cons, List.not_mem_nil, or_false, Prod.mk.injEq] at known
  exact known.imp (fun h => h.2.1) fun h => h.2.1

/-- A new file of a track names none of its references. -/
theorem TrackFile.fileFields_refers {h : TrackHolder} {col : String} (f : TrackFile) (hash : String)
    (hcol : h.table.refers col ≠ none) : (Fields.decode (f.fileFields hash)).lookup col = none := by
  obtain ⟨⟨t, a⟩, hcol⟩ := Option.ne_none_iff_exists'.1 hcol
  rcases h.refers hcol with rfl | ⟨rfl, -⟩
  · rfl
  · rcases h.column_eq with hc | hc <;> rw [hc] <;> rfl

theorem TrackStored.alters {g : Generator} {h : TrackHolder} {tripID holderID trackID : String}
    {f : TrackFile} (hs : TrackStored c.env g h tripID holderID trackID f db db') :
    Alters c db db'.rows := by
  cases hs with
  | replaced holder present differs update noted =>
    have hp : (loadRow ⟨h.table, trackID⟩ db).present = true := by
      rw [loadRow_of_lookup present]
    rw [noted.rows, Db.log_rows]
    exact .stamped h.table_mem hp (fun _ hcol => f.fileFields_refers _ hcol)
      (put_of_updateRow rfl rfl hp update)
  | inserted holder insert noted =>
    rw [noted.rows, Db.log_rows]
    refine .attached (k := ⟨h.holders, holderID⟩) h.table_mem (Db.insertRow_ok insert).1 holder ?_
      (put_of_insertRow insert)
    intro col t a hcol
    rcases h.refers hcol with rfl | ⟨rfl, rfl⟩
    · refine .inl ⟨rfl, ?_⟩
      rcases h.column_eq with hc | hc <;> rw [TrackFile.inserted, TrackFile.rowFields, hc] <;> rfl
    · refine .inr ⟨rfl, ?_⟩
      rcases h.column_eq with hc | hc <;> rw [TrackFile.inserted, TrackFile.rowFields, hc] <;> rfl

theorem ImageAdded.alters {g : Generator} {tripID ideaID imageID hash : String}
    (h : ImageAdded c.env g tripID ideaID imageID hash db db') : Alters c db db'.rows := by
  cases h with
  | intro holder insert noted =>
    rw [noted.rows, Db.log_rows]
    refine .attached (k := ⟨.ideas, ideaID⟩) (by simp [uploadTables]) (Db.insertRow_ok insert).1
      holder ?_ (put_of_insertRow insert)
    intro col t a hcol
    have href := Table.mem_references hcol
    rw [show Table.references .ideaImages =
      [(columnTripID, .trips, .cascade), ("idea_id", .ideas, .cascade)] from rfl] at href
    simp only [List.mem_cons, List.not_mem_nil, or_false, Prod.mk.injEq] at href
    rcases href with ⟨rfl, -⟩ | ⟨rfl, rfl, -⟩
    · exact .inl ⟨rfl, rfl⟩
    · exact .inr ⟨rfl, rfl⟩

theorem ImageStamped.alters {g : Generator} {itemID : String} {hash : Option String}
    (h : ImageStamped c.env g itemID hash db db') : Alters c db db'.rows := by
  cases h with
  | intro present update noted =>
    have hp : (loadRow ⟨.items, itemID⟩ db).present = true := by
      rw [loadRow_of_lookup present]
    rw [noted.rows, Db.log_rows]
    refine .stamped (by simp [uploadTables]) hp (fun col hcol => ?_) (put_of_updateRow rfl rfl hp update)
    refine (AList.lookup_insert_ne ?_).trans rfl
    rintro rfl
    exact hcol rfl

theorem Effect.alters {σ : Server} (h : Effect c.env σ.hlc db c.request db') :
    Alters c db db'.rows := by
  generalize hr : c.request = r at h
  cases h with
  | joined => exact .nothing
  | applied hp h => exact h.alters (hr ▸ hp)
  | reverted hp h => exact h.alters (hr ▸ hp)
  | taken h => exact h.alters hr
  | trackStored h => exact h.alters
  | imageAdded h => exact h.alters
  | imageStamped _ h => exact h.alters

end

/-- What is written was asked for by a mutation that the gate has let pass as `m'`. A retired row
apart, whose mark the store sets by itself, it consists of fields of `m'`. -/
structure Asked (c : Call) (db : Db) (key : Key) (applied : Fields) (p : Partition) (m m' : Mutation) :
    Prop where
  asks : c.Asks p key.table m
  id : m.id = key.id
  gate : ∃ db₁, db.Noted db₁ ∧ p.gate c.env db₁ key.table m = (m', none)
  op : key.table ∉ lifecycleTables → m'.op ≠ .delete
  fields : ∀ f v, f ≠ "retired_at" → applied.lookup f = some v →
    m'.op ≠ .delete ∧ m'.fields.lookup f = some v

theorem Pushes.retirable {r : Request} {p : Partition} {m : Mutation} {t : Table} (h : Pushes r p m)
    (ht : p.retirable t = true) : t ∈ lifecycleTables := by
  cases h with
  | trip => cases ht
  | master => exact of_decide_eq_true ht
  | deleteRow => exact of_decide_eq_true ht
  | prune => cases ht

theorem Decided.asked {c : Call} {p : Partition} {m m' m'' : Mutation} {db : Db} {t : Table}
    {retired : Bool} (hr : Pushes c.request p m) (valid : validate m p.tables = .ok t)
    (how : Decided c.env p m db t m' m'' retired) (hop : m''.op ≠ .delete) (row : Row) :
    Asked c db ⟨t, m.id⟩ (merge row m'').applied p m m' where
  asks := .push hr valid
  id := rfl
  gate := ⟨db, .refl db, how.gate⟩
  op ht := by
    rcases how.write with ⟨-, rfl, -⟩ | ⟨-, -, hret, -⟩
    · exact hop
    · exact absurd (hr.retirable hret) ht
  fields f v hf hv := by
    have hv := lookup_of_applied hv
    rcases how.write with ⟨-, rfl, -⟩ | ⟨-, rfl, -⟩
    · exact ⟨hop, hv⟩
    · rw [show (retireInstead m' (Now.rfc3339 c.env.now)).fields.lookup f = none from
        (AList.lookup_insert_ne hf).trans rfl] at hv
      cases hv

/-- A revert asks for what it writes. -/
theorem Reverts.asked {c : Call} {p : Partition} {e : ConflictEntry} {fields : Fields} {t : Table}
    {m : Mutation} {hlc : HLC} {db db₁ : Db} (hr : Reverts c.request p e fields)
    (valid : validate (e.mutation fields) p.tables = .ok t) (noted : db.Noted db₁)
    (gate : p.gate c.env db₁ t (e.mutation fields) = (m, none)) (row : Row) :
    Asked c db ⟨t, e.key.id⟩ (merge row { m with hlc }).applied p (e.mutation fields) m := by
  have hop : m.op ≠ .delete := by
    rw [(gate_onlyFields hr.thins gate).op]
    exact nofun
  exact ⟨.revert hr valid, rfl, ⟨db₁, noted, gate⟩, fun _ => hop, fun f v _ hv =>
    ⟨hop, lookup_of_applied (m := { m with hlc }) hv⟩⟩

/-- A mutation of the master partition other than the delete of an item came by that partition. -/
theorem Call.Asks.master {c : Call} {p : Partition} {t : Table} {m : Mutation} (h : c.Asks p t m)
    (ht : t.partition = .master) (hitems : t ≠ .items) : ∃ userID, p = masterPartition userID := by
  cases h with
  | push hr valid =>
    obtain ⟨hname, htables⟩ := validate_ok valid
    generalize c.request = r at hr
    cases hr with
    | trip => exact absurd (ht.symm.trans (of_decide_eq_true htables)) nofun
    | master => exact ⟨_, rfl⟩
    | deleteRow => exact ⟨_, rfl⟩
    | prune =>
      obtain rfl : Table.items = t := Option.some.inj hname
      exact absurd rfl hitems
  | revert hr valid =>
    obtain ⟨-, htables⟩ := validate_ok valid
    generalize c.request = r at hr
    cases hr with
    | trip => exact absurd (ht.symm.trans (of_decide_eq_true htables)) nofun
    | master => exact ⟨_, rfl⟩

/-- A mutation of a trip's partition came by that partition. -/
theorem Call.Asks.trip {c : Call} {p : Partition} {t : Table} {m : Mutation} (h : c.Asks p t m)
    (ht : t.partition = .trip) : ∃ tripID userID, p = tripPartition tripID userID := by
  have hno {b : PartitionKind} (hb : t.partition = b) (hne : b ≠ .trip) : False := hne (hb.symm.trans ht)
  cases h with
  | push hr valid =>
    obtain ⟨-, htables⟩ := validate_ok valid
    generalize c.request = r at hr
    cases hr with
    | trip => exact ⟨_, _, rfl⟩
    | master => exact (hno (of_decide_eq_true htables) nofun).elim
    | deleteRow => exact (hno (of_decide_eq_true htables) nofun).elim
    | prune => exact (hno (of_decide_eq_true htables) nofun).elim
  | revert hr valid =>
    obtain ⟨-, htables⟩ := validate_ok valid
    generalize c.request = r at hr
    cases hr with
    | trip => exact ⟨_, _, rfl⟩
    | master => exact (hno (of_decide_eq_true htables) nofun).elim

/-- A push to the master partition asks for its mutation. -/
theorem Call.asks_master {c : Call} {userID : String} {m m' : Mutation} {p : Partition} {t : Table}
    (hc : c.request = .pushMaster userID m) (h : c.Asks p t m') :
    m' = m ∧ Table.ofName m.table = some t := by
  cases h with
  | push hr valid =>
    rw [hc] at hr
    cases hr
    exact ⟨rfl, (validate_ok valid).1⟩
  | revert hr =>
    rw [hc] at hr
    cases hr

/-- A push to a trip asks for its mutation, on the trip's partition. -/
theorem Call.asks_trip {c : Call} {tripID userID : String} {m m' : Mutation} {p : Partition} {t : Table}
    (hc : c.request = .push tripID userID m) (h : c.Asks p t m') :
    p = tripPartition tripID userID ∧ m' = m ∧ Table.ofName m.table = some t := by
  cases h with
  | push hr valid =>
    rw [hc] at hr
    cases hr
    exact ⟨rfl, rfl, (validate_ok valid).1⟩
  | revert hr =>
    rw [hc] at hr
    cases hr

/-- A new account asks for nothing. -/
theorem Call.asks_addUser {c : Call} {userID : String} {m : Mutation} {p : Partition} {t : Table}
    (hc : c.request = .addUser userID) : ¬ c.Asks p t m := by
  intro h
  cases h with
  | push hr =>
    rw [hc] at hr
    cases hr
  | revert hr =>
    rw [hc] at hr
    cases hr

/-- **What one step of the server does to the rows.** -/
theorem step_alters (σ : Server) (c : Call) : Alters c σ.db (server.step σ c).2.db.rows := by
  rcases step_cases σ c with h | h
  · rw [h]
    exact .nothing
  · exact h.alters

end JitPack
