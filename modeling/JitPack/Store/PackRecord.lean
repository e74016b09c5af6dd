import JitPack.Store.Gate

/-!
# The records of a packing row

A row of `trip_items` has a state and two records: who is packing it and since when, and who packed
it and when. `Recorded` says that a record is there exactly in its state. The records are written in
two steps that know nothing of each other. The stamp step writes both records to match a state that
the mutation names, and takes them out of a mutation that names none (`Says`); the merge then takes
the state and its records together or not at all (`applied_group`). So a row either keeps its state
and records or gets new ones that agree, in every run (`packRecords_reachable`).
-/

namespace JitPack

/-- The record is there exactly in its state, with both of its columns. -/
structure RecordOf (row : String → Value) (cols : RecordColumns) (state : String) : Prop where
  who : row fieldState = .str state ↔ row cols.who ≠ .null
  time : row cols.who ≠ .null ↔ row cols.time ≠ .null

/-- The two records of a packing row, with their states. -/
def packRecords : List (RecordColumns × String) :=
  [(claimColumns, statePackingNow), (packingColumns, statePacked)]

/-- The records of a packing row say what its state says. -/
def Recorded (row : String → Value) : Prop := ∀ r ∈ packRecords, RecordOf row r.1 r.2

/-- A row is never being packed and packed at once. -/
theorem Recorded.not_both {row : String → Value} (h : Recorded row) :
    ¬ (row claimColumns.who ≠ .null ∧ row packingColumns.who ≠ .null) := by
  rintro ⟨hnow, hpacked⟩
  have hclaim := (h (claimColumns, statePackingNow) (by simp [packRecords])).who.2 hnow
  have hstate := (h (packingColumns, statePacked) (by simp [packRecords])).who.2 hpacked
  rw [hclaim] at hstate
  exact absurd hstate (by decide)

/-! ## Words -/

/-- The states of a packing row. -/
def stateWords : List String := ["open", "packing_now", "partial", "packed", "skipped"]

/-- Only a text is stored as one of the states. -/
theorem eq_of_store_word {sqlite : Sqlite} {v : Value} {w : String} (hw : w ∈ stateWords)
    (h : sqlite.store .text v = .str w) : v = .str w := by
  refine Sqlite.eq_of_store_text (fun c cs hcs => ?_) h
  simp only [stateWords, List.mem_cons, List.not_mem_nil, or_false] at hw
  rcases hw with rfl | rfl | rfl | rfl | rfl <;> cases hcs <;> decide

/-- A row that the database allows has one of the states. -/
theorem allowed_state {sqlite : Sqlite} {db : Db} {id : String} {row : String → Value}
    (h : db.allows sqlite ⟨.tripItems, id⟩ row = true) : ∃ w ∈ stateWords, row fieldState = .str w :=
  have hcheck : Check.oneOf fieldState stateWords ∈ Table.checks .tripItems := by
    simp [Table.checks, stateWords, fieldState]
  (Db.allows_oneOf h hcheck).resolve_left (Db.allows_notNull h rfl rfl)

/-! ## Stamps -/

/-- The mutation names a state with a record that matches it, or no state and no record. -/
def Says (m : Mutation) (actor : String) (cols : RecordColumns) (state : String) : Prop :=
  match m.string fieldState with
  | some w =>
    m.fields.lookup cols.who = some (if w = state then .str actor else .null) ∧
    ∃ tap, m.fields.lookup cols.time = some (if w = state then .str tap else .null)
  | none => m.fields.lookup cols.who = none ∧ m.fields.lookup cols.time = none

/-- The stamp writes both records to match the state, where a mutation has none of its own. -/
theorem tripItemOwned_says (i : StampInput) {m : Mutation}
    (hm : ∀ c ∈ stateRecord, m.fields.lookup c = none) {r : RecordColumns × String}
    (hr : r ∈ packRecords) : Says (tripItemOwned.stamp i m) i.actorID r.1 r.2 := by
  have hstate : (tripItemOwned.stamp i m).string fieldState = m.string fieldState := by
    simp [tripItemOwned, Mutation.string, Mutation.get, lookup_stampRecord, purchaseColumns,
      packingColumns, claimColumns, fieldState]
  have hpurchase (known done : Bool) :
      (stampRecord i purchaseColumns known done m).string fieldState = m.string fieldState := by
    simp [Mutation.string, Mutation.get, lookup_stampRecord, purchaseColumns, fieldState]
  unfold Says
  rw [hstate]
  simp only [packRecords, List.mem_cons, List.not_mem_nil, or_false] at hr
  cases hs : m.string fieldState with
  | none =>
    have hnow := hm "packing_now_by" (by decide)
    have hat := hm "packing_now_at" (by decide)
    have hby := hm "packed_by_user_id" (by decide)
    have htime := hm "packed_at" (by decide)
    rcases hr with rfl | rfl <;> simp only [tripItemOwned, hpurchase, hs] <;>
      simp [lookup_stampRecord, purchaseColumns, packingColumns, claimColumns, hnow, hat, hby, htime]
  | some w =>
    rcases hr with rfl | rfl <;> simp only [tripItemOwned, hpurchase, hs] <;>
      simp [lookup_stampRecord, purchaseColumns, packingColumns, claimColumns] <;> split <;> simp

theorem stamped_says {r : RecordColumns × String} (hr : r ∈ packRecords) (m : Mutation) (row : Row)
    (actorID : String) (now : Now) :
    Says (stampServerOwned .tripItems m row actorID now) actorID r.1 r.2 := by
  refine tripItemOwned_says _ (fun c hc => ?_) hr
  rw [lookup_drops, if_pos]
  revert hc
  unfold stateRecord
  decide +revert

/-! ## Writes of a packing row -/

/-- The columns of the records stand with the state group. -/
theorem record_columns {r : RecordColumns × String} (hr : r ∈ packRecords) :
    r.1.who ∈ stateRecord ∧ r.1.time ∈ stateRecord := by
  simp only [packRecords, List.mem_cons, List.not_mem_nil, or_false] at hr
  rcases hr with rfl | rfl <;> decide

/-- The state group and its records are applied together or not at all. -/
theorem applied_group {row : Row} {m : Mutation} (hop : m.op ≠ .delete) {f : String}
    (hf : f ∈ stateGroup ∨ f ∈ stateRecord) :
    (merge row m).applied.lookup f =
      if !row.present || groupDecision row m then m.fields.lookup f else none := by
  have hadd : f ∉ additiveFields := by
    simp only [stateGroup, stateRecord, List.mem_cons, List.not_mem_nil, or_false] at hf
    rcases hf with (rfl | rfl) | rfl | rfl | rfl | rfl <;> decide
  have hadm (v : Value) : row.admits m f v ↔ groupDecision row m = true := by
    unfold Row.admits
    constructor
    · rintro (h | h | h)
      · exact absurd h.1 hadd
      · exact h.2
      · exact absurd hf (not_or_intro h.1 h.2.1)
    · exact fun h => .inr (.inl ⟨hf, h⟩)
  rw [(merge_upsert hop f).1]
  cases hlook : m.fields.lookup f with
  | none => simp
  | some v =>
    cases hp : row.present <;> cases hg : groupDecision row m <;> simp [Option.filter, hadm, hg]

/-- The columns that a packing row's records are about are texts. -/
theorem readBack_text {sqlite : Sqlite} {f : String} (hf : f = fieldState ∨ f ∈ stateRecord) (v : Value) :
    Db.readBack sqlite .tripItems f v = sqlite.store .text v := by
  simp only [stateRecord, List.mem_cons, List.not_mem_nil, or_false] at hf
  rcases hf with rfl | rfl | rfl | rfl | rfl <;> rfl

/-- What a merge leaves in the columns of the state and of its records. -/
theorem updatedFields_group {sqlite : Sqlite} {row : Row} {m : Mutation} {base : String → Value}
    (hop : m.op ≠ .delete) {f : String} (hf : f = fieldState ∨ f ∈ stateRecord) :
    Db.updatedFields sqlite .tripItems base (merge row m).applied f =
      ((if !row.present || groupDecision row m then m.fields.lookup f else none).map
        (sqlite.store .text)).getD (base f) := by
  have hgroup : f ∈ stateGroup ∨ f ∈ stateRecord := hf.imp_left (by rintro rfl; decide)
  rw [Db.updatedFields, applied_group hop hgroup,
    show Db.readBack sqlite .tripItems f = sqlite.store .text from funext (readBack_text hf)]

/-- A write of the state group leaves the state and its record agreeing, and names nobody but the
actor. -/
theorem RecordOf.write {sqlite : Sqlite} {m : Mutation} {actor : String} {r : RecordColumns × String}
    {row new : String → Value} {b : Bool} (hr : RecordOf row r.1 r.2) (hs : Says m actor r.1 r.2)
    (hnew : ∀ f, f = fieldState ∨ f ∈ [r.1.who, r.1.time] → new f =
      ((if b then m.fields.lookup f else none).map (sqlite.store .text)).getD (row f))
    (hword : ∃ w ∈ stateWords, new fieldState = .str w) :
    RecordOf new r.1 r.2 ∧
      (new r.1.who = .null ∨ new r.1.who = .str actor ∨ new r.1.who = row r.1.who) := by
  have hstate := hnew fieldState (.inl rfl)
  have hwho := hnew r.1.who (.inr (by simp))
  have htime := hnew r.1.time (.inr (by simp))
  cases b with
  | false =>
    simp only [Bool.false_eq_true, if_false, Option.map_none, Option.getD_none] at hstate hwho htime
    exact ⟨⟨by rw [hstate, hwho]; exact hr.who, by rw [hwho, htime]; exact hr.time⟩, .inr (.inr hwho)⟩
  | true =>
    simp only [if_true] at hstate hwho htime
    unfold Says at hs
    cases hstr : m.string fieldState with
    | none =>
      rw [hstr] at hs
      rw [hs.1] at hwho
      rw [hs.2] at htime
      have hsame : new fieldState = row fieldState := by
        cases hlook : m.fields.lookup fieldState with
        | none => rw [hstate, hlook]; rfl
        | some v =>
          obtain ⟨w, hw, hnew⟩ := hword
          rw [hlook, hnew] at hstate
          have hv := eq_of_store_word hw hstate.symm
          simp [Mutation.string, Mutation.get, hlook, hv, Value.asString] at hstr
      exact ⟨⟨by rw [hsame, hwho]; exact hr.who, by rw [hwho, htime]; exact hr.time⟩, .inr (.inr hwho)⟩
    | some w =>
      simp only [hstr] at hs
      obtain ⟨hs, tap, ht⟩ := hs
      have hlook : m.fields.lookup fieldState = some (.str w) := by
        simp only [Mutation.string, Mutation.get] at hstr
        cases hlook : m.fields.lookup fieldState with
        | none => rw [hlook] at hstr; cases hstr
        | some v => rw [hlook] at hstr; cases v <;> cases hstr; rfl
      rw [hlook] at hstate
      rw [hs] at hwho
      rw [ht] at htime
      by_cases hw : w = r.2
      · simp only [hw, if_true, Option.map_some, Option.getD_some, Sqlite.store] at hstate hwho htime
        exact ⟨⟨by simp [hstate, hwho], by simp [hwho, htime]⟩, .inr (.inl hwho)⟩
      · simp only [hw, if_false, Option.map_some, Option.getD_some, Sqlite.store] at hstate hwho htime
        exact ⟨⟨by simp [hstate, hwho, hw], by simp [hwho, htime]⟩, .inl hwho⟩

/-- Each who of the records is the actor's, or what it was. -/
def Attributed (actor : String) (row new : String → Value) : Prop :=
  ∀ r ∈ packRecords, new r.1.who = .null ∨ new r.1.who = .str actor ∨ new r.1.who = row r.1.who

/-- A merge that the database allows keeps the records of a packing row. -/
theorem Recorded.merge {sqlite : Sqlite} {db : Db} {id actor : String} {m : Mutation} {row : Row}
    {base : String → Value} (hbase : Recorded base) (hs : ∀ r ∈ packRecords, Says m actor r.1 r.2)
    (hallows : db.allows sqlite ⟨.tripItems, id⟩
      (Db.updatedFields sqlite .tripItems base (JitPack.merge row m).applied) = true) :
    Recorded (Db.updatedFields sqlite .tripItems base (JitPack.merge row m).applied) ∧
    Attributed actor base (Db.updatedFields sqlite .tripItems base (JitPack.merge row m).applied) := by
  by_cases hop : m.op = .delete
  · rw [merge_applied_delete hop]
    exact ⟨hbase, fun r hr => .inr (.inr rfl)⟩
  have hwrite := fun r hr => RecordOf.write (r := r) (b := !row.present || groupDecision row m)
    (hbase r hr) (hs r hr) (fun f hf => by
      obtain ⟨hwho, htime⟩ := record_columns hr
      refine updatedFields_group hop ?_
      simp only [List.mem_cons, List.not_mem_nil, or_false] at hf
      rcases hf with rfl | rfl | rfl
      exacts [.inl rfl, .inr hwho, .inr htime])
    (allowed_state hallows)
  exact ⟨fun r hr => (hwrite r hr).1, fun r hr => (hwrite r hr).2⟩

/-! ## Writes of the store -/

/-- Every packing row's records say what its state says. -/
def PackRecords (db : Db) : Prop :=
  ∀ id row, db.rows.lookup ⟨.tripItems, id⟩ = some row → Recorded row.fields

/-- A new row is open, and nobody packs it. -/
theorem defaultOf_record (now : String) : Db.defaultOf now .tripItems fieldState = .str "open" ∧
    ∀ f ∈ stateRecord, Db.defaultOf now .tripItems f = .null := by
  refine ⟨rfl, fun f hf => ?_⟩
  simp only [stateRecord, List.mem_cons, List.not_mem_nil, or_false] at hf
  rcases hf with rfl | rfl | rfl | rfl <;> rfl

theorem defaultOf_recorded (now : String) : Recorded (Db.defaultOf now .tripItems) := by
  intro r hr
  obtain ⟨hstate, hnull⟩ := defaultOf_record now
  obtain ⟨hwho, htime⟩ := record_columns hr
  constructor
  · rw [hstate, hnull _ hwho]
    simp only [packRecords, List.mem_cons, List.not_mem_nil, or_false] at hr
    rcases hr with rfl | rfl <;> decide
  · rw [hnull _ hwho, hnull _ htime]

/-- Whoever a record names after a write is the caller or was named before. -/
def AttributedTo (caller : Option String) (db db' : Db) : Prop :=
  ∀ id row', db'.rows.lookup ⟨.tripItems, id⟩ = some row' → ∀ r ∈ packRecords,
    row'.fields r.1.who = .null ∨ (∃ actor, caller = some actor ∧ row'.fields r.1.who = .str actor) ∨
      ∃ row, db.rows.lookup ⟨.tripItems, id⟩ = some row ∧ row'.fields r.1.who = row.fields r.1.who

/-- A write by the caller keeps the records. -/
def RecordsKept (caller : Option String) (db db' : Db) : Prop :=
  PackRecords db → PackRecords db' ∧ AttributedTo caller db db'

/-- Where the partition lets a mutation of a packing row through, it has stamped the records, and it
retires no packing row. -/
def Partition.StampsPacking (p : Partition) : Prop :=
  ∀ s db m m', p.tables .tripItems = true → p.gate s db .tripItems m = (m', none) →
    p.retirable .tripItems = false ∧ ∀ r ∈ packRecords, Says m' p.actorID r.1 r.2

theorem tripPartition_stampsPacking {tripID userID : String} :
    (tripPartition tripID userID).StampsPacking := by
  intro s db m m' ht hg
  refine ⟨rfl, fun r hr => ?_⟩
  simp only [Partition.gate, tripPartition] at hg
  split at hg
  · -- a packing row has no guard: what is let through is the stamped mutation
    cases hg
    exact stamped_says hr ..
  · cases hg

theorem masterPartition_stampsPacking {userID : String} : (masterPartition userID).StampsPacking :=
  fun _ _ _ _ ht => nomatch ht

theorem prunePartition_stampsPacking {userID : String} : (prunePartition userID).StampsPacking :=
  fun _ _ _ _ ht => nomatch ht

theorem Pushes.stampsPacking {r : Request} {p : Partition} {m : Mutation} (h : Pushes r p m) :
    p.StampsPacking := by
  cases h with
  | trip => exact tripPartition_stampsPacking
  | master => exact masterPartition_stampsPacking
  | deleteRow => exact masterPartition_stampsPacking
  | prune => exact prunePartition_stampsPacking

theorem Reverts.stampsPacking {r : Request} {p : Partition} {e : ConflictEntry} {fields : Fields}
    (h : Reverts r p e fields) : p.StampsPacking := by
  cases h with
  | trip => exact tripPartition_stampsPacking
  | master => exact masterPartition_stampsPacking

namespace RecordsKept

variable {caller : Option String} {actor : String} {s : Env} {key : Key} {db db₁ db₂ db' : Db}
variable {row : StoredRow} {applied : Fields} {hlc : HLC} {clocks : FieldClocks}
variable {p : Partition} {m : Mutation}

/-- A write after which every packing row has the state and the records it had. -/
theorem of_same (h : ∀ id row', db'.rows.lookup ⟨.tripItems, id⟩ = some row' →
    ∃ row, db.rows.lookup ⟨.tripItems, id⟩ = some row ∧
      ∀ f, f = fieldState ∨ f ∈ stateRecord → row'.fields f = row.fields f) :
    RecordsKept caller db db' := by
  intro hdb
  constructor
  · intro id row' hr' r hr
    obtain ⟨row, hrow, hsame⟩ := h id row' hr'
    obtain ⟨hwho, htime⟩ := record_columns hr
    have hold := hdb id row hrow r hr
    constructor
    · rw [hsame _ (.inl rfl), hsame _ (.inr hwho)]
      exact hold.who
    · rw [hsame _ (.inr hwho), hsame _ (.inr htime)]
      exact hold.time
  · intro id row' hr' r hr
    obtain ⟨row, hrow, hsame⟩ := h id row' hr'
    exact .inr (.inr ⟨row, hrow, hsame _ (.inr (record_columns hr).1)⟩)

theorem of_rows (h : db'.rows = db.rows) : RecordsKept caller db db' :=
  of_same fun _ row' hr' => ⟨row', h ▸ hr', fun _ _ => rfl⟩

/-- Only the packing rows matter. -/
theorem congr (h : RecordsKept caller db db')
    (hk : ∀ id, db₁.rows.lookup ⟨.tripItems, id⟩ = db.rows.lookup ⟨.tripItems, id⟩)
    (hk' : ∀ id, db₂.rows.lookup ⟨.tripItems, id⟩ = db'.rows.lookup ⟨.tripItems, id⟩) :
    RecordsKept caller db₁ db₂ := by
  unfold RecordsKept PackRecords AttributedTo at *
  simpa only [hk, hk'] using h

/-- A write of a row of another table. -/
theorem of_insert (hrows : db'.rows = db.rows.insert key row) (ht : key.table ≠ .tripItems) :
    RecordsKept caller db db' := by
  refine of_same fun id row' hr' => ⟨row', ?_, fun _ _ => rfl⟩
  rwa [hrows, AList.lookup_insert_ne (by rintro rfl; exact ht rfl)] at hr'

theorem of_deleteRow (h : Db.deleteRow key db = .ok db') : RecordsKept caller db db' := by
  refine of_same fun id row' hr' => ?_
  rw [Db.deleteRow_lookup h] at hr'
  split at hr'
  · obtain ⟨row, hrow, hleft⟩ := Option.bind_eq_some_iff.1 hr'
    obtain ⟨-, rfl⟩ := Db.leftOf_eq hleft
    refine ⟨row, hrow, fun f hf => ?_⟩
    -- no column of a packing row is ever set to NULL by a delete
    simp only [stateRecord, List.mem_cons, List.not_mem_nil, or_false] at hf
    rcases hf with rfl | rfl | rfl | rfl | rfl <;> rfl
  · exact ⟨row', hr', fun _ _ => rfl⟩

/-- A write of one packing row, over the row that was there or over the defaults. -/
theorem of_row {id n : String} {base new : String → Value}
    (hrows : db'.rows = db.rows.insert ⟨.tripItems, id⟩ ⟨new, hlc, clocks⟩)
    (hbase : (∃ old, db.rows.lookup ⟨.tripItems, id⟩ = some old ∧ base = old.fields) ∨
      base = Db.defaultOf n .tripItems)
    (hnew : Recorded base → Recorded new ∧ Attributed actor base new) :
    RecordsKept (some actor) db db' := by
  intro hdb
  have hrecorded : Recorded base := by
    rcases hbase with ⟨old, hold, rfl⟩ | rfl
    · exact hdb id old hold
    · exact defaultOf_recorded n
  obtain ⟨hrec, hatt⟩ := hnew hrecorded
  constructor
  · intro k row' hr'
    by_cases hk : k = id
    · rw [hk, hrows, AList.lookup_insert] at hr'
      cases hr'
      exact hrec
    · rw [hrows, AList.lookup_insert_ne (by simpa using hk)] at hr'
      exact hdb k row' hr'
  · intro k row' hr' r hr
    by_cases hk : k = id
    · rw [hk, hrows, AList.lookup_insert] at hr'
      cases hr'
      rcases hatt r hr with h | h | h
      · exact .inl h
      · exact .inr (.inl ⟨actor, rfl, h⟩)
      · rcases hbase with ⟨old, hold, rfl⟩ | rfl
        · exact .inr (.inr ⟨old, hk ▸ hold, h⟩)
        · exact .inl (h.trans ((defaultOf_record n).2 _ (record_columns hr).1))
    · rw [hrows, AList.lookup_insert_ne (by simpa using hk)] at hr'
      exact .inr (.inr ⟨row', hr', rfl⟩)

/-- An update by a merge, of a packing row whose mutation has its stamp, or of another row. -/
theorem of_update {base : Row} (hs : key.table = .tripItems → ∀ r ∈ packRecords, Says m actor r.1 r.2)
    (hr : db.rows.lookup key = some row)
    (h : Db.updateRow s.sqlite key (merge base m).applied hlc clocks db = .ok db') :
    RecordsKept (some actor) db db' := by
  obtain ⟨-, hallows, rfl⟩ := Db.updateRow_ok hr h
  obtain ⟨t, id⟩ := key
  by_cases ht : t = .tripItems
  · subst ht
    exact of_row (n := "") rfl (.inl ⟨row, hr, rfl⟩) fun hb => hb.merge (hs rfl) hallows
  · exact of_insert rfl ht

/-- An insert by a merge. -/
theorem of_insertRow {base : Row}
    (hs : key.table = .tripItems → ∀ r ∈ packRecords, Says m actor r.1 r.2)
    (h : Db.insertRow s.sqlite s.sqlNow key (merge base m).applied hlc clocks db = .ok db') :
    RecordsKept (some actor) db db' := by
  obtain ⟨-, -, hallows, rfl⟩ := Db.insertRow_ok h
  obtain ⟨t, id⟩ := key
  by_cases ht : t = .tripItems
  · subst ht
    rw [Db.insertedFields_eq] at hallows ⊢
    exact of_row rfl (.inr rfl) fun hb => hb.merge (hs rfl) hallows
  · exact of_insert rfl ht

theorem of_persisted {base : Row} {b : Bool}
    (hs : key.table = .tripItems → ∀ r ∈ packRecords, Says m actor r.1 r.2)
    (h : Persisted s key (merge base m) (loadRow key db).present db b db') :
    RecordsKept (some actor) db db' := by
  cases h with
  | gone => exact of_rows rfl
  | kept => exact of_rows rfl
  | deleted _ _ h => exact of_deleteRow h
  | inserted _ _ h => exact of_insertRow hs h
  | updated _ hp _ h =>
    obtain ⟨row, hrow, -⟩ := loadRow_of_present hp
    exact of_update hs hrow h

theorem of_applied {res : MutationResult} (hp : p.StampsPacking) (h : Applied s p m db res db') :
    RecordsKept (some p.actorID) db db' := by
  rcases h.rows with hrows | ⟨t, m', m'', retired, db₁, valid, how, hper, hrows⟩
  · exact of_rows hrows
  have hstamp : t = .tripItems → ∀ r ∈ packRecords, Says m'' p.actorID r.1 r.2 := by
    rintro rfl
    obtain ⟨hretire, hsays⟩ := hp s db m m' (validate_ok valid).2 how.gate
    rcases how.write with ⟨-, rfl, -⟩ | ⟨-, -, hr, -⟩
    · exact hsays
    · rw [hretire] at hr
      cases hr
  refine (of_persisted hstamp hper).congr (fun _ => rfl) fun id => ?_
  rcases hrows with ⟨-, hrows⟩ | ⟨-, -, _, _, _, memberID, h₁, h₂, hi⟩
  · rw [hrows]
  · -- the owner's row of a new trip is no packing row
    obtain ⟨-, -, -, rfl⟩ := Db.insertRow_ok hi
    rw [← h₂, ← h₁]
    exact AList.lookup_insert_ne (by simp)

theorem of_restored {e : ConflictEntry} {fields : Fields} (hp : p.StampsPacking)
    (h : Restored s p e fields db db') : RecordsKept (some p.actorID) db db' := by
  obtain ⟨t, m, hlc, db₁, db₂, row, valid, hn, hr, hg, hu, hrows⟩ := h.rows
  rw [← hn.rows] at hr
  refine (of_update (fun ht => ?_) hr hu).congr (fun _ => by rw [hn.rows]) fun _ => by rw [hrows]
  subst ht
  exact (hp s db₁ _ m (validate_ok valid).2 hg).2

/-- A takeover writes the state that is there, with a new holder. -/
theorem of_taken {tripID itemID takerID : String} (h : Taken s tripID itemID takerID db db') :
    RecordsKept (some takerID) db db' := by
  cases h with
  | @intro row name holder hlc db₁ event present held update =>
  obtain ⟨-, hallows, rfl⟩ := Db.updateRow_ok present update
  refine of_row (n := "") rfl (.inl ⟨row, present, rfl⟩) fun hbase => ?_
  have hstate : row.fields fieldState = .str statePackingNow := by
    simp only [heldClaim, present] at held
    split at held
    · cases held
    split at held
    · split at held
      · cases held
      · next h => exact not_not.1 fun hn => h (.inl hn)
    · cases held
  have hop : (takeoverOf s itemID takerID hlc).op ≠ .delete := nofun
  have hclaim : Says (takeoverOf s itemID takerID hlc) takerID claimColumns statePackingNow :=
    ⟨rfl, _, rfl⟩
  have hcol {f : String} (hf : f = fieldState ∨ f ∈ stateRecord) :
      Db.updatedFields s.sqlite .tripItems row.fields
        (merge (loadRow ⟨.tripItems, itemID⟩ db) (takeoverOf s itemID takerID hlc)).applied f = _ :=
    updatedFields_group hop hf
  have hclaimed := RecordOf.write (r := (claimColumns, statePackingNow))
    (hbase _ (by simp [packRecords])) hclaim (fun f hf => hcol (by
      simp only [List.mem_cons, List.not_mem_nil, or_false] at hf
      rcases hf with rfl | rfl | rfl <;> decide)) (allowed_state hallows)
  -- the row is being packed before and after, so the record of the packer is empty and stays so
  have hnew : Db.updatedFields s.sqlite .tripItems row.fields
      (merge (loadRow ⟨.tripItems, itemID⟩ db) (takeoverOf s itemID takerID hlc)).applied fieldState =
      .str statePackingNow := by
    rw [hcol (.inl rfl)]
    split
    · rfl
    · exact hstate
  have hkept {f : String} (hf : f ∈ stateRecord)
      (hnone : (takeoverOf s itemID takerID hlc).fields.lookup f = none) :
      Db.updatedFields s.sqlite .tripItems row.fields
        (merge (loadRow ⟨.tripItems, itemID⟩ db) (takeoverOf s itemID takerID hlc)).applied f =
        row.fields f := by
    rw [hcol (.inr hf), hnone]
    split <;> rfl
  have hwho := hkept (f := packingColumns.who) (by decide) rfl
  have htime := hkept (f := packingColumns.time) (by decide) rfl
  have hpacked := hbase (packingColumns, statePacked) (by simp [packRecords])
  refine ⟨fun r hr => ?_, fun r hr => ?_⟩ <;>
    simp only [packRecords, List.mem_cons, List.not_mem_nil, or_false] at hr <;>
    rcases hr with rfl | rfl
  · exact hclaimed.1
  · constructor
    · rw [hnew, hwho, ← hstate]
      exact hpacked.who
    · rw [hwho, htime]
      exact hpacked.time
  · exact hclaimed.2
  · exact .inr (.inr hwho)

theorem of_effect {σ : Server} {c : Call} (h : Effect c.env σ.hlc σ.db c.request db') :
    RecordsKept c.request.caller σ.db db' := by
  revert h
  generalize c.request = r
  intro h
  cases h with
  | joined => exact of_rows rfl
  | applied hr h =>
    rw [hr.caller]
    exact of_applied hr.stampsPacking h
  | reverted hr h =>
    rw [hr.caller]
    exact of_restored hr.stampsPacking h
  | taken h => exact of_taken h
  | imageAdded h =>
    cases h with
    | intro holder insert noted =>
      obtain ⟨-, -, -, rfl⟩ := Db.insertRow_ok insert
      exact of_insert noted.rows nofun
  | @trackStored holder _ _ _ _ _ _ h =>
    have ht : holder.table ≠ .tripItems := by
      rcases holder.table_eq with ht | ht <;> rw [ht] <;> nofun
    cases h with
    | inserted holder insert noted =>
      obtain ⟨-, -, -, rfl⟩ := Db.insertRow_ok insert
      exact of_insert noted.rows ht
    | replaced holder present differs update noted =>
      obtain ⟨-, -, rfl⟩ := Db.updateRow_ok present update
      exact of_insert noted.rows ht
  | imageStamped hr h =>
    cases h with
    | intro present update noted =>
      obtain ⟨-, -, rfl⟩ := Db.updateRow_ok present update
      exact of_insert noted.rows nofun

end RecordsKept

/-! ## Runs -/

/-- The step lemma. -/
theorem step_records (σ : Server) (c : Call) :
    RecordsKept c.request.caller σ.db (server.step σ c).2.db := by
  rcases step_cases σ c with h | h
  · exact .of_rows (by rw [h])
  · exact .of_effect h

/-- **The records of a packing row agree with its state, and a call names nobody but its caller in
them**, in every run from a fresh store. -/
theorem packRecords_reachable (g : Generator) (calls : List Call) :
    (∀ id row, (server.after (.fresh g) calls).db.rows.lookup ⟨.tripItems, id⟩ = some row →
      Recorded row.fields ∧
      ¬ (row.fields claimColumns.who ≠ .null ∧ row.fields packingColumns.who ≠ .null)) ∧
    ∀ pre c post, calls = pre ++ c :: post → AttributedTo c.request.caller
      (server.after (.fresh g) pre).db (server.after (.fresh g) (pre ++ [c])).db := by
  have hinv (calls : List Call) : PackRecords (server.after (.fresh g) calls).db := by
    refine Machine.after_of_step (I := fun σ : Server => PackRecords σ.db)
      (fun σ c hd => (step_records σ c hd).1) ?_ calls
    intro id row hr
    cases hr
  constructor
  · intro id row hr
    have hrec := hinv calls id row hr
    exact ⟨hrec, hrec.not_both⟩
  · intro pre c post _
    rw [server.after_append]
    exact (step_records _ c (hinv pre)).2

end JitPack
