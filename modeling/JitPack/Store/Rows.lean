import JitPack.Store.Effects

/-!
# What a call does to the rows

The inversions of the three statements on rows, and what each write of the store comes down to on the
rows: one statement, or two where a new trip gets its owner. An invariant of the rows is proved from
here on by the statements that can change a row.
-/

namespace JitPack

/-! ## Statements -/

section
variable {sqlite : Sqlite} {now : String} {key k : Key} {applied : Fields} {hlc : HLC}
variable {clocks : FieldClocks} {db db' : Db} {row : StoredRow}

namespace Db

/-- The fields of an inserted row. -/
def insertedFields (sqlite : Sqlite) (now : String) (t : Table) (applied : Fields) (f : String) :
    Value :=
  match applied.lookup f with
  | some v => readBack sqlite t f v
  | none => defaultOf now t f

/-- The fields of an updated row. -/
def updatedFields (sqlite : Sqlite) (t : Table) (row : String → Value) (applied : Fields) (f : String) :
    Value :=
  ((applied.lookup f).map (readBack sqlite t f)).getD (row f)

theorem insertedFields_eq : insertedFields sqlite now key.table applied =
    updatedFields sqlite key.table (defaultOf now key.table) applied := by
  funext f
  unfold insertedFields updatedFields
  cases applied.lookup f <;> rfl

theorem insertRow_ok (h : insertRow sqlite now key applied hlc clocks db = .ok db') :
    db.rows.lookup key = none ∧ bindable applied = true ∧
    db.allows sqlite key (insertedFields sqlite now key.table applied) = true ∧
    db' = { db with
      rows := db.rows.insert key ⟨insertedFields sqlite now key.table applied, hlc, clocks⟩ } := by
  unfold insertRow at h
  dsimp only at h
  split at h
  · cases h
  next hb =>
  split at h
  · cases h
  next hc =>
  simp only [Bool.or_eq_true, Bool.not_eq_true', not_or, Bool.not_eq_true, Bool.not_eq_false,
    Option.isSome_eq_false_iff, Option.isNone_iff_eq_none] at hb hc
  cases h
  exact ⟨hc.1, hb, hc.2, rfl⟩

theorem updateRow_ok (hr : db.rows.lookup key = some row)
    (h : updateRow sqlite key applied hlc clocks db = .ok db') :
    bindable applied = true ∧
    db.allows sqlite key (updatedFields sqlite key.table row.fields applied) = true ∧
    db' = { db with
      rows := db.rows.insert key ⟨updatedFields sqlite key.table row.fields applied, hlc, clocks⟩ } := by
  unfold updateRow at h
  split at h
  · cases h
  next hb =>
  simp only [hr] at h
  split at h
  · cases h
  next hc =>
  simp only [Bool.not_eq_true', Bool.not_eq_false] at hb hc
  cases h
  exact ⟨hb, hc, rfl⟩

/-- A delete keeps the rows that are not removed, without their references to the removed ones. -/
theorem deleteRow_lookup (h : deleteRow key db = .ok db') (k : Key) : db'.rows.lookup k =
    if (db.rows.lookup key).isSome then (db.rows.lookup k).bind (leftOf (db.removed key) k)
    else db.rows.lookup k := by
  unfold deleteRow at h
  split at h
  · next hn =>
    cases h
    rw [if_neg (by simpa using hn)]
  next hn =>
  rw [if_pos (by simpa [Option.isSome_iff_ne_none] using hn)]
  dsimp only at h
  split at h
  · cases h
  · cases h
    exact Assoc.lookup_filterMap ..

/-- What is left of a row by a delete: the row, without some of its references. -/
theorem leftOf_eq {gone : List Key} {row' : StoredRow} (h : leftOf gone k row = some row') :
    k ∉ gone ∧ row' = { row with fields := forget gone k.table row.fields } := by
  unfold leftOf at h
  split at h
  · cases h
  · next hk =>
    cases h
    exact ⟨hk, rfl⟩

theorem deleteRow_old (h : deleteRow key db = .ok db') {row' : StoredRow}
    (hr : db'.rows.lookup k = some row') : ∃ row, db.rows.lookup k = some row ∧
      row'.hlc = row.hlc ∧ row'.clocks = row.clocks := by
  rw [deleteRow_lookup h] at hr
  split at hr
  · obtain ⟨row, hrow, hleft⟩ := Option.bind_eq_some_iff.1 hr
    obtain ⟨-, rfl⟩ := leftOf_eq hleft
    exact ⟨row, hrow, rfl, rfl⟩
  · exact ⟨row', hr, rfl, rfl⟩

end Db

end

/-! ## Values that pass -/

/-- A number as text begins with a digit or a minus sign. -/
theorem toString_int_start (n : Int) :
    ∃ c cs, (toString n).toList = c :: cs ∧ (c.isDigit ∨ c = '-') := by
  have hnat (k : Nat) : ∃ c cs, k.repr.toList = c :: cs ∧ c.isDigit := by
    rw [Nat.toList_repr]
    cases hd : Nat.toDigits 10 k with
    | nil => exact absurd hd Nat.toDigits_ne_nil
    | cons c cs =>
      exact ⟨c, cs, rfl, Nat.isDigit_of_mem_toDigits (by decide) (by decide) (hd ▸ List.mem_cons_self ..)⟩
  rw [Int.toString_eq_repr, Int.repr_eq_if]
  split
  · obtain ⟨c, cs, h, hc⟩ := hnat n.toNat
    exact ⟨c, cs, h, .inl hc⟩
  · exact ⟨'-', (-n).toNat.repr.toList, by simp, .inr rfl⟩

/-- A text that is no number's is stored for itself alone. -/
theorem Sqlite.eq_of_store_text {sqlite : Sqlite} {v : Value} {w : String}
    (hw : ∀ c cs, w.toList = c :: cs → ¬ (c.isDigit ∨ c = '-')) (h : sqlite.store .text v = .str w) :
    v = .str w := by
  have hstart {t : String} (ht : ∃ c cs, t.toList = c :: cs ∧ (c.isDigit ∨ c = '-')) : t ≠ w := by
    rintro rfl
    obtain ⟨c, cs, htl, hc⟩ := ht
    exact hw c cs htl hc
  cases v with
  | null => cases h
  | composite => cases h
  | str s => exact h
  | bool b => exact absurd (Value.str.inj h) (hstart (by cases b <;> exact ⟨_, _, rfl, .inl rfl⟩))
  | int n => exact absurd (Value.str.inj h) (hstart (toString_int_start n))
  | float x => exact absurd (Value.str.inj h) (hstart (sqlite.realText_start x))

namespace Db

variable {sqlite : Sqlite} {db : Db} {key : Key} {row : String → Value} {f : String}

theorem allows_notNull {c : Column} (h : db.allows sqlite key row = true)
    (hf : key.table.column f = some c) (hn : c.notNull = true) : row f ≠ .null := by
  have hmem := List.mem_of_find?_eq_some hf
  obtain rfl : c.name = f := by simpa using List.find?_some hf
  simp only [allows, Bool.and_eq_true, List.all_eq_true] at h
  simpa [hn] using (h.1.1 c hmem).1

theorem allows_check {check : Check} (h : db.allows sqlite key row = true)
    (hc : check ∈ key.table.checks) : check sqlite row = true := by
  simp only [allows, Bool.and_eq_true, List.all_eq_true] at h
  exact h.1.2 check hc

theorem allows_oneOf {words : List String} (h : db.allows sqlite key row = true)
    (hc : Check.oneOf f words ∈ key.table.checks) : row f = .null ∨ ∃ w ∈ words, row f = .str w := by
  have hcheck := allows_check h hc
  unfold Check.oneOf at hcheck
  split at hcheck
  · next hn => exact .inl hn
  · next w hw => exact .inr ⟨w, by simpa using hcheck, hw⟩
  · cases hcheck

end Db

/-! ## Writes -/

/-- A row of `trip_members` has been added for the creator of the new trip. -/
def OwnerRow (s : Env) (tripID userID : String) (rows rows' : Rows) : Prop :=
  ∃ db db' hlc id, db.rows = rows ∧ db'.rows = rows' ∧
    Db.insertRow s.sqlite s.sqlNow ⟨.tripMembers, id⟩ (ownerRow tripID userID) hlc (fun _ => none) db =
      .ok db'

section
variable {s : Env} {p : Partition} {m : Mutation} {db db' : Db} {res : MutationResult}

theorem Owed.rows {out : WriteOutcome} (h : Owed s p out db db') :
    (p.afterChange ≠ Option.none → out.newTrip = false) ∧ db'.rows = db.rows ∨
    out.newTrip = true ∧ OwnerRow s out.key.id p.actorID db.rows db'.rows := by
  cases h with
  | none hnone => exact .inl ⟨fun h => absurd hnone h, rfl⟩
  | master _ owner =>
    cases owner with
    | other hold => exact .inl ⟨fun _ => hold, rfl⟩
    | owner hn hi =>
      refine .inr ⟨hn, _, _, _, _, ?_, ?_, hi⟩ <;> rfl

/-- An applied mutation leaves the rows alone, or does one statement on its row, which a new trip
follows with the row of its owner. -/
theorem Applied.rows (h : Applied s p m db res db') :
    db'.rows = db.rows ∨
    ∃ t m' m'' retired db₁, validate m p.tables = .ok t ∧ Decided s p m db t m' m'' retired ∧
      Persisted s ⟨t, m.id⟩ (merge (loadRow ⟨t, m.id⟩ db) m'') (loadRow ⟨t, m.id⟩ db).present db true
        db₁ ∧
      ((p.afterChange ≠ Option.none → t = .trips → (merge (loadRow ⟨t, m.id⟩ db) m'').deleted = false →
          (loadRow ⟨t, m.id⟩ db).present = true) ∧ db'.rows = db₁.rows ∨
        t = .trips ∧ (loadRow ⟨t, m.id⟩ db).present = false ∧
          OwnerRow s m.id p.actorID db₁.rows db'.rows) := by
  cases h with
  | duplicate => exact .inl rfl
  | refused fresh valid why hr =>
    refine .inl ?_
    split <;> rfl
  | landed fresh valid how land =>
    cases land with
    | refused => exact .inl rfl
    | unchanged _ _ hn => exact .inl hn.rows
    | changed hr hp ho hn =>
      refine .inr ⟨_, _, _, _, _, valid, how, hp, ?_⟩
      rw [Db.record_rows, hn.rows]
      refine ho.rows.imp ?_ ?_
      · rintro ⟨hold, hrows⟩
        refine ⟨?_, hrows⟩
        rintro hhook rfl hlive
        have hnew := hold hhook
        rw [WriteOutcome.newTrip, hlive] at hnew
        simpa using hnew
      · rintro ⟨hnew, howner⟩
        simp only [WriteOutcome.newTrip, Bool.and_eq_true, decide_eq_true_eq, Bool.not_eq_true'] at hnew
        exact ⟨hnew.1.1, hnew.1.2, howner⟩

/-- A revert does one update on its row. -/
theorem Restored.rows {e : ConflictEntry} {fields : Fields} (h : Restored s p e fields db db') :
    ∃ t m hlc db₁ db₂ row, validate ⟨"", .upsert, e.key.table.name, e.key.id, fields, []⟩ p.tables =
        .ok t ∧
      db.Noted db₁ ∧ db.rows.lookup ⟨t, e.key.id⟩ = some row ∧
      p.gate s db₁ t ⟨"", .upsert, e.key.table.name, e.key.id, fields, []⟩ = (m, none) ∧
      Db.updateRow s.sqlite ⟨t, e.key.id⟩
        (merge (loadRow ⟨t, e.key.id⟩ db) { m with hlc }).applied
        (merge (loadRow ⟨t, e.key.id⟩ db) { m with hlc }).rowHLC
        (merge (loadRow ⟨t, e.key.id⟩ db) { m with hlc }).clocks db₁ = .ok db₂ ∧
      db'.rows = db₂.rows := by
  cases h with
  | intro valid claimed present gate wins update owed noted =>
    obtain ⟨row, hrow, -⟩ := loadRow_of_present present
    refine ⟨_, _, _, _, _, row, valid, claimed, hrow, gate, update, ?_⟩
    rw [noted.rows]
    rcases owed.rows with ⟨-, hrows⟩ | ⟨hnew, -⟩
    · exact hrows
    · simp [WriteOutcome.newTrip, present] at hnew

/-! ## Uploads -/

/-- The tables whose rows a call other than a push or a revert writes, packing rows apart. -/
def uploadTables : List Table := [.items, .ideaImages, .ideaTracks, .excursionTracks]

/-- The server has written a row of an upload, with no merge. -/
inductive Uploaded (s : Env) (db db' : Db) : Prop where
  | inserted {key applied hlc clocks db₁} (ht : key.table ∈ uploadTables)
      (insert : Db.insertRow s.sqlite s.sqlNow key applied hlc clocks db = .ok db₁)
      (rows : db'.rows = db₁.rows)
  | updated {key row applied hlc clocks db₁} (ht : key.table ∈ uploadTables)
      (present : db.rows.lookup key = some row)
      (update : Db.updateRow s.sqlite key applied hlc clocks db = .ok db₁) (rows : db'.rows = db₁.rows)

theorem TrackHolder.table_mem (h : TrackHolder) : h.table ∈ uploadTables := by
  rcases h.table_eq with ht | ht <;> rw [ht] <;> decide

theorem TrackStored.uploaded {g : Generator} {h : TrackHolder} {tripID holderID trackID : String}
    {f : TrackFile} (hs : TrackStored s g h tripID holderID trackID f db db') : Uploaded s db db' := by
  cases hs with
  | replaced _ present _ update noted => exact .updated h.table_mem present update noted.rows
  | inserted _ insert noted => exact .inserted h.table_mem insert noted.rows

theorem ImageAdded.uploaded {g : Generator} {tripID ideaID imageID hash : String}
    (h : ImageAdded s g tripID ideaID imageID hash db db') : Uploaded s db db' := by
  cases h with
  | intro _ insert noted => exact .inserted (by simp [uploadTables]) insert noted.rows

theorem ImageStamped.uploaded {g : Generator} {itemID : String} {hash : Option String}
    (h : ImageStamped s g itemID hash db db') : Uploaded s db db' := by
  cases h with
  | intro present update noted => exact .updated (by simp [uploadTables]) present update noted.rows

/-- What a call does to the rows: a push, a revert, a takeover, an upload or nothing. -/
theorem Effect.cases_rows {g : Generator} {r : Request} (h : Effect s g db r db') :
    db'.rows = db.rows ∨ (∃ p m res, Pushes r p m ∧ Applied s p m db res db') ∨
    (∃ p e fields, Reverts r p e fields ∧ Restored s p e fields db db') ∨
    (∃ tripID itemID takerID, Taken s tripID itemID takerID db db') ∨ Uploaded s db db' := by
  cases h with
  | joined => exact .inl rfl
  | applied hr h => exact .inr (.inl ⟨_, _, _, hr, h⟩)
  | reverted hr h => exact .inr (.inr (.inl ⟨_, _, _, hr, h⟩))
  | taken h => exact .inr (.inr (.inr (.inl ⟨_, _, _, h⟩)))
  | trackStored h => exact .inr (.inr (.inr (.inr h.uploaded)))
  | imageAdded h => exact .inr (.inr (.inr (.inr h.uploaded)))
  | imageStamped _ h => exact .inr (.inr (.inr (.inr h.uploaded)))

end

end JitPack
