import JitPack.Store.References

/-!
# Records of who and when

A field of a row decides a record beside it: a resolved task names who resolved it and when, an entry
that is bought names its buyer. The stamp step writes the record from the value that a mutation gives
the field, and the merge treats the field and the two columns of the record by their own clocks. They
stay together because they have always been written together, so that their clocks agree
(`Synced`): a merge takes all three or none.

Two values break this, since the stamp reads them in another way than the database. A task state that
is NULL is written without its record, and a text that SQLite reads as the number 1 buys an entry
without a buyer. `records_of_readable` is about the runs without such values.
-/

namespace JitPack

/-- A field that decides a record: the columns of the record, what the stamp step reads in a value of
the field, if anything, and whether a stored value means that the thing is done. -/
structure Decision where
  table : Table
  field : String
  cols : RecordColumns
  reads : Value → Option Bool
  done : Value → Bool

/-- A task is resolved. -/
def resolution : Decision :=
  ⟨.comments, "task_state", ⟨"resolved_by_user_id", "resolved_at"⟩,
    fun v => v.asString.map fun s => s = "resolved", fun v => v = .str "resolved"⟩

/-- An entry of a shopping list is bought. -/
def purchase (t : Table) : Decision :=
  ⟨t, "bought", purchaseColumns, fun v => some (isTruthy v), fun v => v = .int 1⟩

/-- A packing row is bought, from the list that it names. -/
def purchaseFrom : Decision :=
  ⟨.tripItems, "bought_from", purchaseColumns, fun v => some (v ≠ .null), fun v => v ≠ .null⟩

def decisions : List Decision :=
  [resolution, purchase .shoppingEntries, purchase .mealIngredients, purchaseFrom]

/-- The columns of a decision. -/
def Decision.columns (d : Decision) : List String := [d.field, d.cols.who, d.cols.time]

/-- The record is there exactly if the thing is done, with both of its columns. -/
structure Follows (d : Decision) (row : String → Value) : Prop where
  who : d.done (row d.field) = true ↔ row d.cols.who ≠ .null
  time : row d.cols.who ≠ .null ↔ row d.cols.time ≠ .null

/-- The columns of the decision have been written together. -/
def Synced (d : Decision) (clocks : FieldClocks) : Prop := ∀ f ∈ d.columns, clocks f = clocks d.field

/-- Every record follows the field that decides it. -/
def RecordsFollow (db : Db) : Prop := ∀ d ∈ decisions, ∀ id row,
  db.rows.lookup ⟨d.table, id⟩ = some row → Follows d row.fields

/-- The columns of every decision have been written together. -/
def RecordsSynced (db : Db) : Prop := ∀ d ∈ decisions, ∀ id row,
  db.rows.lookup ⟨d.table, id⟩ = some row → Synced d row.clocks

/-- The value of the deciding field, and the clock of the mutation that moved it last. -/
def Db.decided (db : Db) (d : Decision) (id : String) : Option (Value × Option HLC) :=
  (db.rows.lookup ⟨d.table, id⟩).map fun row => (row.fields d.field, row.clocks d.field)

/-- Who the record names. -/
def Db.recorded (db : Db) (d : Decision) (id : String) : Option Value :=
  (db.rows.lookup ⟨d.table, id⟩).map fun row => row.fields d.cols.who

/-- A call that moves a deciding field leaves nobody but its caller in the record, and a call that
does not leaves the record alone. -/
def Credited (caller : Option String) (db db' : Db) : Prop := ∀ d ∈ decisions, ∀ id row',
  db'.rows.lookup ⟨d.table, id⟩ = some row' →
    db'.decided d id = db.decided d id ∧ db'.recorded d id = db.recorded d id ∨
    db'.decided d id ≠ db.decided d id ∧ (row'.fields d.cols.who = .null ∨
      ∃ user, caller = some user ∧ row'.fields d.cols.who = .str user)

/-- No push and no revert gives the task state of a comment that is there as NULL, or says that an
entry is bought by a text that is read as the number 1. -/
def Call.Readable (c : Call) (σ : Server) : Prop :=
  (∀ p m, c.Asks p .comments m → m.op ≠ .delete →
    (loadRow ⟨.comments, m.id⟩ σ.db).present = true → m.fields.lookup "task_state" ≠ some .null) ∧
  ∀ t ∈ [Table.shoppingEntries, .mealIngredients], ∀ p m, c.Asks p t m →
    ∀ s, m.fields.lookup "bought" = some (.str s) → c.env.sqlite.numericText s ≠ some (.int 1)

/-! ## The columns of the decisions -/

section
variable {d : Decision} {f : String}

theorem Decision.trip (hd : d ∈ decisions) : d.table.partition = .trip ∧ d.table ∉ lifecycleTables ∧
    d.table ∉ uploadTables := by
  simp only [decisions, List.mem_cons, List.not_mem_nil, or_false] at hd
  rcases hd with rfl | rfl | rfl | rfl <;> decide

theorem Decision.columns_ne (hd : d ∈ decisions) :
    d.cols.who ≠ d.cols.time ∧ d.field ∉ [d.cols.who, d.cols.time] := by
  simp only [decisions, List.mem_cons, List.not_mem_nil, or_false] at hd
  rcases hd with rfl | rfl | rfl | rfl <;> decide

/-- The columns of a decision merge by their clocks alone. -/
theorem Decision.columns_plain (hd : d ∈ decisions) :
    ∀ f ∈ d.columns, f ∉ additiveFields ∧ f ∉ stateGroup ∧ f ∉ stateRecord := by
  simp only [decisions, List.mem_cons, List.not_mem_nil, or_false] at hd
  rcases hd with rfl | rfl | rfl | rfl <;> decide

/-- The columns of a decision refer to no row. -/
theorem Decision.columns_refers (hd : d ∈ decisions) :
    ∀ f ∈ d.columns, f ∈ d.table.columnList ∧ d.table.refers f = none := by
  simp only [decisions, List.mem_cons, List.not_mem_nil, or_false] at hd
  rcases hd with rfl | rfl | rfl | rfl <;> decide

/-- The columns of a record are texts, and NULL in a new row. -/
theorem Decision.record_text (hd : d ∈ decisions) (sqlite : Sqlite) (now : String) (v : Value)
    (hf : f ∈ [d.cols.who, d.cols.time]) :
    Db.readBack sqlite d.table f v = sqlite.store .text v ∧ Db.defaultOf now d.table f = .null := by
  simp only [decisions, List.mem_cons, List.not_mem_nil, or_false] at hd hf
  rcases hd with rfl | rfl | rfl | rfl <;> rcases hf with rfl | rfl <;> exact ⟨rfl, rfl⟩

theorem Decision.default_done (hd : d ∈ decisions) (now : String) :
    d.done (Db.defaultOf now d.table d.field) = false := by
  simp only [decisions, List.mem_cons, List.not_mem_nil, or_false] at hd
  rcases hd with rfl | rfl | rfl | rfl <;> rfl

end

/-! ## Stamps -/

section
variable {d : Decision} {m m' : Mutation} {actor : String}

/-- What a mutation says about a decision comes with the record that follows, and a mutation that
says nothing names no record. -/
def Decision.Spoken (d : Decision) (m : Mutation) (actor : String) : Prop :=
  match (m.fields.lookup d.field).bind d.reads with
  | some done => m.fields.lookup d.cols.who = some (if done then .str actor else .null) ∧
    ∃ tap, m.fields.lookup d.cols.time = some (if done then .str tap else .null)
  | none => m.fields.lookup d.cols.who = none ∧ m.fields.lookup d.cols.time = none

theorem Decision.Spoken.congr (h : d.Spoken m actor)
    (hm : ∀ f ∈ d.columns, m'.fields.lookup f = m.fields.lookup f) : d.Spoken m' actor := by
  unfold Spoken at *
  rwa [hm d.field (by simp [columns]), hm d.cols.who (by simp [columns]),
    hm d.cols.time (by simp [columns])]

theorem stampRecord_spoken (i : StampInput) (known done : Bool) (hd : d ∈ decisions)
    (hnone : ∀ f ∈ [d.cols.who, d.cols.time], m.fields.lookup f = none)
    (hreads : (m.fields.lookup d.field).bind d.reads = if known then some done else none) :
    (stampRecord i d.cols known done m).fields.lookup d.field = m.fields.lookup d.field ∧
    d.Spoken (stampRecord i d.cols known done m) i.actorID := by
  obtain ⟨hne, hfield⟩ := d.columns_ne hd
  simp only [List.mem_cons, List.not_mem_nil, or_false, not_or] at hfield
  have hlook : (stampRecord i d.cols known done m).fields.lookup d.field = m.fields.lookup d.field := by
    rw [lookup_stampRecord, if_neg (fun h => hfield.2 h.2), if_neg (fun h => hfield.1 h.2)]
  refine ⟨hlook, ?_⟩
  unfold Decision.Spoken
  rw [hlook, hreads]
  cases known with
  | false => simpa [lookup_stampRecord] using hnone
  | true =>
    cases done with
    | false => simp [lookup_stampRecord, hne]
    | true => simp [lookup_stampRecord, hne]

theorem commentOwned_spoken (i : StampInput) (m : Mutation) :
    (commentOwned.stamp i (commentOwned.columns.foldl Mutation.drop m)).fields.lookup "task_state" =
      m.fields.lookup "task_state" ∧
    resolution.Spoken (commentOwned.stamp i (commentOwned.columns.foldl Mutation.drop m)) i.actorID := by
  let base := (stampedOnInsert "author_id").stamp i (commentOwned.columns.foldl Mutation.drop m)
  have hbase (f : String) (hf : f ≠ "author_id") : base.fields.lookup f =
      if f ∈ commentOwned.columns then none else m.fields.lookup f := by
    simp only [base, stampedOnInsert]
    split
    · rw [lookup_set, if_neg hf, lookup_drops]
    · rw [lookup_drops]
  have hnone (f : String) (hf : f ∈ [resolution.cols.who, resolution.cols.time]) :
      base.fields.lookup f = none := by
    simp only [resolution, List.mem_cons, List.not_mem_nil, or_false] at hf
    rcases hf with rfl | rfl <;> exact hbase _ (by decide)
  have hreads : (base.fields.lookup "task_state").bind resolution.reads =
      if (base.string "task_state").isSome then
        some (decide (base.string "task_state" = some "resolved")) else none := by
    rw [Mutation.string, Mutation.get]
    cases base.fields.lookup "task_state" with
    | none => rfl
    | some v => cases v <;> simp [resolution, Value.asString]
  obtain ⟨hlook, hspoken⟩ := stampRecord_spoken i _ _ (by simp [decisions]) hnone hreads
  exact ⟨hlook.trans (hbase _ (by decide)), hspoken⟩

theorem boughtFlagOwned_spoken (i : StampInput) (m : Mutation) {t : Table}
    (hd : purchase t ∈ decisions) :
    (boughtFlagOwned.stamp i (boughtFlagOwned.columns.foldl Mutation.drop m)).fields.lookup "bought" =
      m.fields.lookup "bought" ∧
    (purchase t).Spoken (boughtFlagOwned.stamp i (boughtFlagOwned.columns.foldl Mutation.drop m))
      i.actorID := by
  let base := boughtFlagOwned.columns.foldl Mutation.drop m
  have hbase (f : String) : base.fields.lookup f =
      if f ∈ boughtFlagOwned.columns then none else m.fields.lookup f := lookup_drops ..
  have hreads : (base.fields.lookup "bought").bind (purchase t).reads =
      if (base.fields.lookup "bought").isSome then some (isTruthy (base.get "bought")) else none := by
    rw [Mutation.get]
    cases base.fields.lookup "bought" <;> rfl
  obtain ⟨hlook, hspoken⟩ := stampRecord_spoken i _ _ hd (fun f hf => (hbase f).trans (if_pos hf)) hreads
  exact ⟨hlook.trans (hbase _), hspoken⟩

theorem tripItemOwned_spoken (i : StampInput) (m : Mutation) :
    (tripItemOwned.stamp i (tripItemOwned.columns.foldl Mutation.drop m)).fields.lookup "bought_from" =
      m.fields.lookup "bought_from" ∧
    purchaseFrom.Spoken (tripItemOwned.stamp i (tripItemOwned.columns.foldl Mutation.drop m))
      i.actorID := by
  let base := tripItemOwned.columns.foldl Mutation.drop m
  have hbase (f : String) : base.fields.lookup f =
      if f ∈ tripItemOwned.columns then none else m.fields.lookup f := lookup_drops ..
  have hnone (f : String) (hf : f ∈ [purchaseFrom.cols.who, purchaseFrom.cols.time]) :
      base.fields.lookup f = none := by
    simp only [purchaseFrom, purchaseColumns, List.mem_cons, List.not_mem_nil, or_false] at hf
    rcases hf with rfl | rfl <;> exact hbase _
  have hreads : (base.fields.lookup "bought_from").bind purchaseFrom.reads =
      if (base.fields.lookup "bought_from").isSome then
        some (decide (base.get "bought_from" ≠ .null)) else none := by
    rw [Mutation.get]
    cases base.fields.lookup "bought_from" <;> rfl
  obtain ⟨hlook, hspoken⟩ := stampRecord_spoken i _ _ (by simp [decisions]) hnone hreads
  -- the records of the state leave the purchase alone
  have hlater (f : String) (hf : f ∈ purchaseFrom.columns) :
      (tripItemOwned.stamp i base).fields.lookup f =
        (stampRecord i purchaseColumns (base.fields.lookup "bought_from").isSome
          (base.get "bought_from" ≠ .null) base).fields.lookup f := by
    simp only [purchaseFrom, Decision.columns, purchaseColumns, List.mem_cons, List.not_mem_nil,
      or_false] at hf
    rcases hf with rfl | rfl | rfl <;> simp [tripItemOwned, lookup_stampRecord, packingColumns, claimColumns]
  exact ⟨(hlater _ (by decide)).trans (hlook.trans (hbase _)), hspoken.congr hlater⟩

/-- The stamp step leaves the deciding field alone, and writes the record that follows it. -/
theorem stamped_spoken (hd : d ∈ decisions) (m : Mutation) (row : Row) (actor : String) (now : Now) :
    (stampServerOwned d.table m row actor now).fields.lookup d.field = m.fields.lookup d.field ∧
    d.Spoken (stampServerOwned d.table m row actor now) actor := by
  have hmem := hd
  simp only [decisions, List.mem_cons, List.not_mem_nil, or_false] at hmem
  rcases hmem with rfl | rfl | rfl | rfl
  · exact commentOwned_spoken ⟨actor, row, _, now⟩ m
  · exact boughtFlagOwned_spoken ⟨actor, row, _, now⟩ m hd
  · exact boughtFlagOwned_spoken ⟨actor, row, _, now⟩ m hd
  · exact tripItemOwned_spoken ⟨actor, row, _, now⟩ m

/-- No guard touches the columns of a decision. -/
theorem guardFor_keeps_decision (hd : d ∈ decisions) :
    ∀ f ∈ d.columns, (guardFor d.table).Keeps f := by
  intro f hf
  simp only [decisions, List.mem_cons, List.not_mem_nil, or_false] at hd
  rcases hd with rfl | rfl | rfl | rfl
  · refine guardFor_comments_keeps ?_
    revert f
    decide
  · refine ownOrDropped_keeps _ ?_
    revert f
    decide
  · exact ownOrRefused_keeps _ _
  · exact answer_keeps

/-- What passes the gate has kept what it says about a decision, and names the record that follows. -/
theorem gate_spoken {c : Call} {p : Partition} {s : Env} {db : Db} (hd : d ∈ decisions)
    (ha : c.Asks p d.table m) (hg : p.gate s db d.table m = (m', none)) :
    m'.fields.lookup d.field = m.fields.lookup d.field ∧ d.Spoken m' p.actorID := by
  obtain ⟨tripID, userID, rfl⟩ := ha.trip (d.trip hd).1
  obtain ⟨hlook, hspoken⟩ := stamped_spoken hd m (loadRow ⟨d.table, m.id⟩ db) userID s.now
  have hkept (f : String) (hf : f ∈ d.columns) : m'.fields.lookup f =
      (stampServerOwned d.table m (loadRow ⟨d.table, m.id⟩ db) userID s.now).fields.lookup f := by
    have hguard := guardFor_keeps_decision hd f hf db ⟨tripID, userID,
      (tripPartition tripID userID).stamped s db d.table m, loadRow ⟨d.table, m.id⟩ db⟩
    rwa [(trip_gate hg).2] at hguard
  exact ⟨(hkept _ (by simp [Decision.columns])).trans hlook, hspoken.congr hkept⟩

end

/-! ## Values -/

section
variable {d : Decision} {s : Env} {db : Db} {applied : Fields} {v : Value} {fields : String → Value}
variable {done : Bool} {key : Key}

/-- A text column holds NULL for NULL alone. -/
theorem Sqlite.store_text_eq_null {sqlite : Sqlite} (hbind : v.bindable = true) :
    sqlite.store .text v = .null ↔ v = .null := by
  cases v with
  | composite => cases hbind
  | _ => simp [store]

/-- A flag is stored as 1 for what Go takes for true, texts apart. -/
theorem isTruthy_of_stored_flag {sqlite : Sqlite} (hbind : v.bindable = true)
    (hnum : ∀ t, v = .str t → sqlite.numericText t ≠ some (.int 1))
    (hflag : sqlite.store .integer v ∈ [.null, .int 0, .int 1]) :
    isTruthy v = true ↔ sqlite.store .integer v = .int 1 := by
  cases v with
  | null => simp [isTruthy, Sqlite.store]
  | bool b => cases b <;> simp [isTruthy, Sqlite.store]
  | int n =>
    simp only [Sqlite.store, List.mem_cons, List.not_mem_nil, or_false, reduceCtorEq, false_or,
      Value.int.injEq] at hflag
    rcases hflag with rfl | rfl <;> simp [isTruthy, Sqlite.store]
  | float x =>
    rw [Sqlite.store] at hflag ⊢
    split at hflag
    · next hx =>
      rw [if_pos hx]
      have hnum : x = x.num := (Rat.den_eq_one_iff x).1 hx.1 |>.symm
      simp only [List.mem_cons, List.not_mem_nil, or_false, reduceCtorEq, false_or,
        Value.int.injEq] at hflag
      rw [Value.int.injEq, isTruthy, decide_eq_true_eq, hnum]
      rcases hflag with h | h <;> simp [h]
    · simp at hflag
  | str t =>
    have ht := hnum t rfl
    rw [Sqlite.store]
    cases htext : sqlite.numericText t with
    | none => simp [isTruthy]
    | some w =>
      rw [htext, ne_eq, Option.some.injEq] at ht
      simp [isTruthy, ht]
  | composite => cases hbind

/-- The database reads what a mutation says about a decision as the stamp step does. -/
theorem Decision.done_of_reads (hd : d ∈ decisions) (hkey : key.table = d.table)
    (hallows : db.allows s.sqlite key fields = true)
    (hf : fields d.field = Db.readBack s.sqlite d.table d.field v) (hbind : v.bindable = true)
    (hreads : d.reads v = some done)
    (hnum : d.field = "bought" → ∀ t, v = .str t → s.sqlite.numericText t ≠ some (.int 1)) :
    d.done (fields d.field) = done := by
  have hflag (t : Table) (ht : key.table = t) (hc : Check.flag "bought" ∈ t.checks)
      (hf : fields "bought" = s.sqlite.store .integer v)
      (hnum : ∀ t, v = .str t → s.sqlite.numericText t ≠ some (.int 1)) :
      decide (fields "bought" = .int 1) = isTruthy v := by
    have hcheck := Db.allows_check hallows (ht ▸ hc)
    rw [Check.flag, decide_eq_true_eq, hf] at hcheck
    rw [Bool.eq_iff_iff, decide_eq_true_eq, hf, isTruthy_of_stored_flag hbind hnum hcheck]
  simp only [decisions, List.mem_cons, List.not_mem_nil, or_false] at hd
  rcases hd with rfl | rfl | rfl | rfl
  · cases v <;> cases hreads
    rw [hf]
    exact decide_eq_decide.2 ⟨fun h => Value.str.inj h, fun h => congrArg Value.str h⟩
  · exact (hflag _ hkey (by simp [Table.checks, purchase]) hf (hnum rfl)).trans (Option.some.inj hreads)
  · exact (hflag _ hkey (by simp [Table.checks, purchase]) hf (hnum rfl)).trans (Option.some.inj hreads)
  · rw [← Option.some.inj hreads, hf]
    exact decide_eq_decide.2 (not_congr (Sqlite.store_text_eq_null hbind))

/-- What the stamp step does not read is NULL, or refused by the database. -/
theorem Decision.null_of_unread (hd : d ∈ decisions) (hkey : key.table = d.table)
    (hallows : db.allows s.sqlite key fields = true)
    (hf : fields d.field = Db.readBack s.sqlite d.table d.field v) (hbind : v.bindable = true)
    (hreads : d.reads v = none) : v = .null ∧ d.done (fields d.field) = false := by
  simp only [decisions, List.mem_cons, List.not_mem_nil, or_false] at hd
  rcases hd with rfl | rfl | rfl | rfl
  · have hstore : fields "task_state" = s.sqlite.store .text v := hf
    rcases Db.allows_oneOf hallows (show Check.oneOf "task_state" ["open", "resolved"] ∈ key.table.checks by
      rw [hkey]; simp [Table.checks, resolution]) with hnull | ⟨w, hw, hrow⟩
    · rw [show resolution.field = "task_state" from rfl, hnull]
      exact ⟨(Sqlite.store_text_eq_null hbind).1 (hstore.symm.trans hnull), rfl⟩
    · have hv : v = .str w := by
        refine Sqlite.eq_of_store_text (fun c cs hcs => ?_) (hstore.symm.trans hrow)
        simp only [List.mem_cons, List.not_mem_nil, or_false] at hw
        rcases hw with rfl | rfl <;> cases hcs <;> decide
      rw [hv] at hreads
      cases hreads
  all_goals cases hreads

theorem bindable_of_lookup {f : String} (h : Db.bindable applied = true)
    (hf : applied.lookup f = some v) : v.bindable = true := by
  rw [Db.bindable, List.all_eq_true] at h
  exact h ⟨f, v⟩ (AList.mem_lookup_iff.1 hf)

/-- A column that is named holds what was written, and any other what it held. -/
theorem Db.written_of_some {f : String} (h : applied.lookup f = some v) :
    db.written s key applied f = Db.readBack s.sqlite key.table f v := by
  rw [written, updatedFields, h]
  rfl

theorem Db.written_of_none {f : String} (h : applied.lookup f = none) :
    db.written s key applied f = db.base s.sqlNow key f := by
  rw [written, updatedFields, h]
  rfl

end

/-! ## Merges -/

section
variable {d : Decision} {s : Env} {db : Db} {m : Mutation} {actor id : String} {hlc : HLC}
variable {clocks : FieldClocks} {rows : Rows}

/-- What a write does to the columns of a decision: nothing, all three, or, in a new row, the field
alone. -/
inductive Decision.Wrote (d : Decision) (row : Row) (actor : String) (applied : Fields) : Prop where
  | nothing (none : ∀ f ∈ d.columns, applied.lookup f = none)
  | unread {v} (fresh : row.present = false) (reads : d.reads v = none)
      (field : applied.lookup d.field = some v)
      (record : ∀ f ∈ [d.cols.who, d.cols.time], applied.lookup f = none)
  | record {v done tap} (reads : d.reads v = some done) (field : applied.lookup d.field = some v)
      (who : applied.lookup d.cols.who = some (if done then .str actor else .null))
      (time : applied.lookup d.cols.time = some (if done then .str tap else .null))

/-- A mutation names nothing of a decision, or what `Wrote` says. -/
theorem Decision.Spoken.wrote {row : Row} {applied : Fields} (h : d.Spoken m actor)
    (happ : ∀ f ∈ d.columns, applied.lookup f = m.fields.lookup f)
    (hread : row.present = true → ∀ v, applied.lookup d.field = some v → d.reads v ≠ none) :
    d.Wrote row actor applied := by
  have hfield := happ d.field (by simp [columns])
  have hwho := happ d.cols.who (by simp [columns])
  have htime := happ d.cols.time (by simp [columns])
  unfold Spoken at h
  rw [← hfield, ← hwho, ← htime] at h
  cases hv : applied.lookup d.field with
  | none =>
    rw [hv] at h
    refine .nothing fun f hf => ?_
    simp only [columns, List.mem_cons, List.not_mem_nil, or_false] at hf
    rcases hf with rfl | rfl | rfl
    exacts [hv, h.1, h.2]
  | some v =>
    rw [hv, Option.bind_some] at h
    cases hr : d.reads v with
    | none =>
      rw [hr] at h
      refine .unread ?_ hr hv fun f hf => ?_
      · by_contra hp
        exact hread (by simpa using hp) v hv hr
      · simp only [List.mem_cons, List.not_mem_nil, or_false] at hf
        rcases hf with rfl | rfl
        exacts [h.1, h.2]
    | some done =>
      rw [hr] at h
      obtain ⟨hw, tap, ht⟩ := h
      exact .record hr hv hw ht

/-- The columns of a decision win or lose together. -/
theorem merge_wrote (hd : d ∈ decisions) (hop : m.op ≠ .delete) (h : d.Spoken m actor)
    (hsync : RecordsSynced db)
    (hread : (loadRow ⟨d.table, id⟩ db).present = true → m.fields.lookup d.field = some .null →
      d.reads .null ≠ none)
    (put : Put s ⟨d.table, id⟩ (merge (loadRow ⟨d.table, id⟩ db) m).applied hlc clocks db rows) :
    d.Wrote (loadRow ⟨d.table, id⟩ db) actor (merge (loadRow ⟨d.table, id⟩ db) m).applied := by
  have hread (hp : (loadRow ⟨d.table, id⟩ db).present = true) (v : Value)
      (hv : (merge (loadRow ⟨d.table, id⟩ db) m).applied.lookup d.field = some v) :
      d.reads v ≠ none := by
    intro hr
    obtain ⟨rfl, -⟩ := d.null_of_unread hd rfl put.allows (Db.written_of_some hv)
      (bindable_of_lookup put.bindable hv) hr
    exact hread hp (lookup_of_applied hv) hr
  cases hrow : db.rows.lookup ⟨d.table, id⟩ with
  | none =>
    exact h.wrote (fun f _ => merge_applied_missing hop (by simp [loadRow, hrow]) f) hread
  | some row =>
    have hp : (loadRow ⟨d.table, id⟩ db).present = true := by rw [loadRow_of_lookup hrow]
    have hadmits (f : String) (hf : f ∈ d.columns) (v : Value) :
        (loadRow ⟨d.table, id⟩ db).admits m f v ↔
          (loadRow ⟨d.table, id⟩ db).clockOf d.field < m.hlc := by
      obtain ⟨hadd, hgr, hrec⟩ := d.columns_plain hd f hf
      have hclock : (loadRow ⟨d.table, id⟩ db).clockOf f = (loadRow ⟨d.table, id⟩ db).clockOf d.field := by
        rw [loadRow_of_lookup hrow]
        exact congrArg (·.getD row.hlc) (hsync d hd id row hrow f hf)
      simp [Row.admits, hadd, hgr, hrec, hclock]
    by_cases hlt : (loadRow ⟨d.table, id⟩ db).clockOf d.field < m.hlc
    · refine h.wrote (fun f hf => ?_) hread
      rw [merge_applied_lookup hop hp]
      cases m.fields.lookup f with
      | none => rfl
      | some v => exact Option.filter_some_pos (decide_eq_true ((hadmits f hf v).2 hlt))
    · refine .nothing fun f hf => ?_
      rw [merge_applied_lookup hop hp]
      exact Option.filter_eq_none_iff.2 fun v _ => by simpa [hadmits f hf v] using hlt

end

/-! ## Rows -/

section
variable {d : Decision} {s : Env} {db db' : Db} {id : String} {applied : Fields} {v : Value}
variable {fields : String → Value} {done : Bool} {actor : String} {m m' : Mutation} {hlc : HLC}
variable {clocks : FieldClocks} {rows : Rows} {key : Key}

/-- The record follows the field in what a write starts from. -/
theorem follows_base (hd : d ∈ decisions) (hfollow : RecordsFollow db) (now : String) :
    Follows d (db.base now ⟨d.table, id⟩) := by
  cases hrow : db.rows.lookup ⟨d.table, id⟩ with
  | some row =>
    rw [Db.base_of_lookup hrow]
    exact hfollow d hd id row hrow
  | none =>
    rw [Db.base_of_absent hrow]
    have hwho := (d.record_text hd (Env.plain 0).sqlite now .null (f := d.cols.who) (by simp)).2
    have htime := (d.record_text hd (Env.plain 0).sqlite now .null (f := d.cols.time) (by simp)).2
    exact ⟨by simp [d.default_done hd now, hwho], by simp [hwho, htime]⟩

/-- The record follows the field after a write. -/
theorem Decision.Wrote.follows (hd : d ∈ decisions) (hfollow : RecordsFollow db)
    (h : d.Wrote (loadRow ⟨d.table, id⟩ db) actor applied)
    (put : Put s ⟨d.table, id⟩ applied hlc clocks db rows)
    (hnum : d.field = "bought" →
      ∀ t, applied.lookup d.field = some (.str t) → s.sqlite.numericText t ≠ some (.int 1)) :
    Follows d (db.written s ⟨d.table, id⟩ applied) := by
  have hbase : Follows d (db.base s.sqlNow ⟨d.table, id⟩) := follows_base hd hfollow _
  have hkept {f : String} (hf : applied.lookup f = none) :
      db.written s ⟨d.table, id⟩ applied f = db.base s.sqlNow ⟨d.table, id⟩ f := Db.written_of_none hf
  have htext {f : String} (hf : f ∈ [d.cols.who, d.cols.time]) (v : Value) :
      Db.readBack s.sqlite d.table f v = s.sqlite.store .text v := (d.record_text hd s.sqlite "" v hf).1
  cases h with
  | nothing none =>
    simp only [columns, List.forall_mem_cons, List.not_mem_nil, false_implies, implies_true,
      and_true] at none
    obtain ⟨hfield, hwho, htime⟩ := none
    exact ⟨by rw [hkept hfield, hkept hwho, hbase.who], by rw [hkept hwho, hkept htime, hbase.time]⟩
  | unread fresh reads field record =>
    have hnone := lookup_of_not_present fresh
    have hnull {f : String} (hf : f ∈ [d.cols.who, d.cols.time]) :
        db.written s ⟨d.table, id⟩ applied f = .null := by
      rw [hkept (record f hf), Db.base_of_absent hnone]
      exact (d.record_text hd s.sqlite _ .null hf).2
    obtain ⟨-, hdone⟩ := d.null_of_unread hd rfl put.allows (Db.written_of_some field)
      (bindable_of_lookup put.bindable field) reads
    exact ⟨by rw [hdone, hnull (by simp)]; simp, by rw [hnull (by simp), hnull (by simp)]⟩
  | @record v done tap reads field who time =>
    have hbind := bindable_of_lookup put.bindable field
    have hdone := d.done_of_reads hd rfl put.allows (Db.written_of_some field) hbind reads
      fun hf t ht => hnum hf t (ht ▸ field)
    refine ⟨?_, ?_⟩
    · rw [hdone, Db.written_of_some who, htext (by simp)]
      cases done <;> simp [Sqlite.store]
    · rw [Db.written_of_some who, Db.written_of_some time, htext (by simp), htext (by simp)]
      cases done <;> simp [Sqlite.store]

/-- The clocks of a row after a push: a column that is written takes the clock of the mutation, and
so does every column of a new row. -/
theorem pushedClocks_eq {t : Table} {f : String} (hf : f ∈ t.columnList) :
    pushedClocks t (loadRow key db) (merge (loadRow key db) m) f =
      if (loadRow key db).present = false ∨ ((merge (loadRow key db) m).applied.lookup f).isSome then
        some m.hlc else (loadRow key db).clocks f := by
  cases hp : (loadRow key db).present with
  | true =>
    rw [pushedClocks, if_pos hp, merge_clocks]
    simp
  | false =>
    have hnew : loadRow key db = ⟨false, fun _ => .null, [], fun _ => none⟩ := by
      rw [loadRow, lookup_of_not_present hp]
    have hmax : max [] m.hlc = m.hlc := max_eq_right (not_lt.1 (List.not_lt_nil _))
    rw [pushedClocks, if_neg (by simp [hp]), insertedClocks, if_pos hf, merge_clocks, merge_rowHLC, hnew,
      hmax]
    split <;> simp

/-- The columns of a decision have one clock after a merge that has written all of them or none. -/
theorem Decision.Wrote.synced (hd : d ∈ decisions) (hsync : RecordsSynced db)
    (h : d.Wrote (loadRow ⟨d.table, id⟩ db) actor (merge (loadRow ⟨d.table, id⟩ db) m).applied) :
    Synced d (pushedClocks d.table (loadRow ⟨d.table, id⟩ db) (merge (loadRow ⟨d.table, id⟩ db) m)) := by
  intro f hf
  rw [pushedClocks_eq (d.columns_refers hd f hf).1,
    pushedClocks_eq (d.columns_refers hd d.field (by simp [columns])).1]
  cases h with
  | nothing none =>
    rw [none f hf, none d.field (by simp [columns])]
    cases hrow : db.rows.lookup ⟨d.table, id⟩ with
    | none => simp [loadRow, hrow]
    | some row => simpa [loadRow_of_lookup hrow] using hsync d hd id row hrow f hf
  | unread fresh => rw [if_pos (.inl fresh), if_pos (.inl fresh)]
  | record reads field who time =>
    have hsome : ((merge (loadRow ⟨d.table, id⟩ db) m).applied.lookup f).isSome := by
      simp only [columns, List.mem_cons, List.not_mem_nil, or_false] at hf
      rcases hf with rfl | rfl | rfl
      exacts [by rw [field]; rfl, by rw [who]; rfl, by rw [time]; rfl]
    rw [if_pos (.inr hsome), if_pos (.inr (by rw [field]; rfl))]

/-- A write that moves the field leaves nobody but its caller in the record, and a write that does
not leaves the record alone. -/
theorem Decision.Wrote.credited (hd : d ∈ decisions) (hop : m.op ≠ .delete)
    (h : d.Wrote (loadRow ⟨d.table, id⟩ db) actor (merge (loadRow ⟨d.table, id⟩ db) m).applied)
    (put : Put s ⟨d.table, id⟩ (merge (loadRow ⟨d.table, id⟩ db) m).applied hlc
      (pushedClocks d.table (loadRow ⟨d.table, id⟩ db) (merge (loadRow ⟨d.table, id⟩ db) m)) db db'.rows) :
    db'.decided d id = db.decided d id ∧ db'.recorded d id = db.recorded d id ∨
    db'.decided d id ≠ db.decided d id ∧
      db.written s ⟨d.table, id⟩ (merge (loadRow ⟨d.table, id⟩ db) m).applied d.cols.who ∈
        [.null, .str actor] := by
  have hwho {f : String} (hf : f ∈ [d.cols.who, d.cols.time]) (v : Value) :=
    d.record_text hd s.sqlite s.sqlNow v hf
  have hclock : pushedClocks d.table (loadRow ⟨d.table, id⟩ db)
      (merge (loadRow ⟨d.table, id⟩ db) m) d.field = _ :=
    pushedClocks_eq (d.columns_refers hd d.field (by simp [columns])).1
  unfold Db.decided Db.recorded
  rw [put.lookup, if_pos rfl]
  cases hrow : db.rows.lookup ⟨d.table, id⟩ with
  | none =>
    refine .inr ⟨by simp, ?_⟩
    cases h with
    | nothing none =>
      rw [Db.written_of_none (none _ (by simp [columns])), Db.base_of_absent hrow, (hwho (by simp) .null).2]
      simp
    | unread fresh reads field record =>
      rw [Db.written_of_none (record _ (by simp)), Db.base_of_absent hrow, (hwho (by simp) .null).2]
      simp
    | @record v done tap reads field who time =>
      rw [Db.written_of_some who, (hwho (by simp) _).1]
      cases done <;> simp [Sqlite.store]
  | some row =>
    have hload := loadRow_of_lookup hrow
    simp only [Option.map_some]
    cases h with
    | nothing none =>
      have hsame : pushedClocks d.table (loadRow ⟨d.table, id⟩ db)
          (merge (loadRow ⟨d.table, id⟩ db) m) d.field = row.clocks d.field := by
        rw [hclock, none d.field (by simp [columns])]
        simp [hload]
      refine .inl ⟨?_, ?_⟩
      · rw [hsame, Db.written_of_none (none _ (by simp [columns])), Db.base_of_lookup hrow]
      · rw [Db.written_of_none (none _ (by simp [columns])), Db.base_of_lookup hrow]
    | unread fresh =>
      rw [hload] at fresh
      cases fresh
    | @record v done tap reads field who time =>
      refine .inr ⟨?_, ?_⟩
      · rw [field, if_pos (.inr rfl)] at hclock
        rw [hclock]
        intro hsame
        have hold : row.clocks d.field = some m.hlc := (Prod.mk.inj (Option.some.inj hsame)).2.symm
        -- a column is written only by a mutation behind its clock
        obtain ⟨hadd, hgr, hrec⟩ := d.columns_plain hd d.field (by simp [columns])
        rw [merge_applied_lookup hop (by rw [hload])] at field
        have hadmits := (Option.filter_eq_some_iff.1 field).2
        simp only [Row.admits, hadd, hgr, hrec, Row.clockOf, hload, hold, Option.getD_some, lt_irrefl,
          false_and, and_false, or_false, decide_false, Bool.false_eq_true] at hadmits
      · rw [Db.written_of_some who, (hwho (by simp) _).1]
        cases done <;> simp [Sqlite.store]

end

/-! ## Calls -/

section
variable {c : Call} {σ : Server} {db db' db₁ : Db} {s : Env} {key : Key} {applied : Fields} {hlc : HLC}
variable {clocks : FieldClocks} {p : Partition} {m m' m₁ : Mutation} {id : String}
variable {caller : Option String} {d : Decision} {rows : Rows}

/-- What a call keeps of the records. -/
structure CreditsKept (caller : Option String) (db db' : Db) : Prop where
  follow : RecordsFollow db → RecordsSynced db → RecordsFollow db'
  synced : RecordsSynced db → RecordsSynced db'
  credited : RecordsSynced db → Credited caller db db'

/-- A row whose record a call leaves alone. -/
structure SameRecord (d : Decision) (row row' : StoredRow) : Prop where
  fields : ∀ f ∈ d.columns, row'.fields f = row.fields f
  clocks : ∀ f ∈ d.columns, row'.clocks f = row.clocks f

/-- A call that writes no record keeps them. -/
theorem CreditsKept.of_same (h : ∀ d ∈ decisions, ∀ id row', db'.rows.lookup ⟨d.table, id⟩ = some row' →
    ∃ row, db.rows.lookup ⟨d.table, id⟩ = some row ∧ SameRecord d row row') :
    CreditsKept caller db db' where
  follow hfollow _ d hd id row' hrow' := by
    obtain ⟨row, hrow, hsame⟩ := h d hd id row' hrow'
    obtain ⟨hwho, htime⟩ := hfollow d hd id row hrow
    rw [← hsame.fields d.field (by simp [Decision.columns]),
      ← hsame.fields d.cols.who (by simp [Decision.columns])] at hwho
    rw [← hsame.fields d.cols.who (by simp [Decision.columns]),
      ← hsame.fields d.cols.time (by simp [Decision.columns])] at htime
    exact ⟨hwho, htime⟩
  synced hsync d hd id row' hrow' f hf := by
    obtain ⟨row, hrow, hsame⟩ := h d hd id row' hrow'
    rw [hsame.clocks f hf, hsame.clocks d.field (by simp [Decision.columns]), hsync d hd id row hrow f hf]
  credited _ d hd id row' hrow' := by
    obtain ⟨row, hrow, hsame⟩ := h d hd id row' hrow'
    refine .inl ⟨?_, ?_⟩
    · simp only [Db.decided, hrow', hrow, Option.map_some]
      rw [hsame.fields d.field (by simp [Decision.columns]), hsame.clocks d.field (by simp [Decision.columns])]
    · simp only [Db.recorded, hrow', hrow, Option.map_some]
      rw [hsame.fields d.cols.who (by simp [Decision.columns])]

/-- A write that names no column of a decision keeps the records. -/
theorem CreditsKept.of_put (put : Put s key applied hlc clocks db db'.rows)
    (h : ∀ d ∈ decisions, d.table = key.table → ∃ row, db.rows.lookup key = some row ∧
      ∀ f ∈ d.columns, applied.lookup f = none ∧ clocks f = row.clocks f) :
    CreditsKept caller db db' := by
  refine .of_same fun d hd id row' hrow' => ?_
  rw [put.lookup] at hrow'
  split at hrow'
  · next hk =>
    cases hrow'
    obtain ⟨row, hrow, hnone⟩ := h d hd (by rw [← hk])
    refine ⟨row, hk ▸ hrow, fun f hf => ?_, fun f hf => (hnone f hf).2⟩
    exact (Db.written_of_none (hnone f hf).1).trans (congrFun (Db.base_of_lookup hrow) f)
  · exact ⟨row', hrow', fun _ _ => rfl, fun _ _ => rfl⟩

/-- A delete leaves the records of the other rows as they were. -/
theorem CreditsKept.of_deleteRow (hkey : (db.rows.lookup key).isSome)
    (h : Db.deleteRow key db = .ok db₁) (hrows : db'.rows = db₁.rows) : CreditsKept caller db db' := by
  refine .of_same fun d hd id row' hrow' => ?_
  obtain ⟨row, hrow, -, rfl⟩ := Db.deleteRow_left hkey h (hrows ▸ hrow')
  exact ⟨row, hrow, fun f hf => Db.forget_of_refers _ (.inl (d.columns_refers hd f hf).2), fun _ _ => rfl⟩

/-- What was asked for writes the columns of a decision together. -/
theorem asked_wrote (hd : d ∈ decisions) (ha : c.Asks p d.table m) (hc : c.Readable σ)
    (hg : p.gate c.env db₁ d.table m = (m', none))
    (hm : m₁.fields = m'.fields ∧ m₁.op ≠ .delete ∧ m₁.op = m.op) (hsync : RecordsSynced σ.db)
    (put : Put c.env ⟨d.table, m.id⟩ (merge (loadRow ⟨d.table, m.id⟩ σ.db) m₁).applied hlc clocks σ.db
      rows) :
    d.Wrote (loadRow ⟨d.table, m.id⟩ σ.db) p.actorID
      (merge (loadRow ⟨d.table, m.id⟩ σ.db) m₁).applied ∧
    (d.field = "bought" → ∀ t, (merge (loadRow ⟨d.table, m.id⟩ σ.db) m₁).applied.lookup d.field =
      some (.str t) → c.env.sqlite.numericText t ≠ some (.int 1)) := by
  obtain ⟨hlook, hspoken⟩ := gate_spoken hd ha hg
  rw [← hm.1] at hlook
  refine ⟨merge_wrote hd hm.2.1 (hspoken.congr fun f _ => by rw [hm.1]) hsync (fun hp hnull => ?_) put,
    fun hf t ht => ?_⟩
  · rw [hlook] at hnull
    simp only [decisions, List.mem_cons, List.not_mem_nil, or_false] at hd
    rcases hd with rfl | rfl | rfl | rfl
    · exact absurd hnull (hc.1 p m ha (hm.2.2 ▸ hm.2.1) hp)
    all_goals exact fun h => by cases h
  · have hnamed := hlook.symm.trans (lookup_of_applied ht)
    simp only [decisions, List.mem_cons, List.not_mem_nil, or_false] at hd
    rcases hd with rfl | rfl | rfl | rfl
    · exact absurd hf (by decide)
    · exact hc.2 _ (by simp [purchase]) p m ha t hnamed
    · exact hc.2 _ (by simp [purchase]) p m ha t hnamed
    · exact absurd hf (by decide)

/-- What was asked for keeps the records. -/
theorem CreditsKept.asked {t : Table} (ha : c.Asks p t m) (hc : c.Readable σ)
    (hg : p.gate c.env db₁ t m = (m', none))
    (hm : t ∉ lifecycleTables → m₁.fields = m'.fields ∧ m₁.op ≠ .delete ∧ m₁.op = m.op)
    (put : Put c.env ⟨t, m.id⟩ (merge (loadRow ⟨t, m.id⟩ σ.db) m₁).applied hlc
      (pushedClocks t (loadRow ⟨t, m.id⟩ σ.db) (merge (loadRow ⟨t, m.id⟩ σ.db) m₁)) σ.db db'.rows) :
    CreditsKept (some p.actorID) σ.db db' := by
  have hwrote (d : Decision) (hd : d ∈ decisions) (ht : t = d.table) (hsync : RecordsSynced σ.db) :
      d.Wrote (loadRow ⟨d.table, m.id⟩ σ.db) p.actorID
        (merge (loadRow ⟨d.table, m.id⟩ σ.db) m₁).applied ∧
      (d.field = "bought" → ∀ t, (merge (loadRow ⟨d.table, m.id⟩ σ.db) m₁).applied.lookup d.field =
        some (.str t) → c.env.sqlite.numericText t ≠ some (.int 1)) := by
    subst ht
    exact asked_wrote hd ha hc hg (hm (d.trip hd).2.1) hsync put
  refine ⟨fun hfollow hsync d hd id row' hrow' => ?_, fun hsync d hd id row' hrow' => ?_,
    fun hsync d hd id row' hrow' => ?_⟩
  · rw [put.lookup] at hrow'
    split at hrow'
    · next hk =>
      cases hk
      cases hrow'
      obtain ⟨hw, hnum⟩ := hwrote d hd rfl hsync
      exact hw.follows hd hfollow put hnum
    · exact hfollow d hd id row' hrow'
  · rw [put.lookup] at hrow'
    split at hrow'
    · next hk =>
      cases hk
      cases hrow'
      exact (hwrote d hd rfl hsync).1.synced hd hsync
    · exact hsync d hd id row' hrow'
  · by_cases hk : (⟨d.table, id⟩ : Key) = ⟨t, m.id⟩
    · cases hk
      rw [put.lookup, if_pos rfl] at hrow'
      cases hrow'
      refine ((hwrote d hd rfl hsync).1.credited hd (hm (d.trip hd).2.1).2.1 put).imp_right ?_
      rintro ⟨hmoved, hwho⟩
      simp only [List.mem_cons, List.not_mem_nil, or_false] at hwho
      exact ⟨hmoved, hwho.imp_right fun hwho => ⟨_, rfl, hwho⟩⟩
    · refine .inl ⟨?_, ?_⟩
      · rw [Db.decided, Db.decided, put.lookup, if_neg hk]
      · rw [Db.recorded, Db.recorded, put.lookup, if_neg hk]

/-- A takeover writes no purchase. -/
theorem taken_columns {takerID : String} (hd : d ∈ decisions) (ht : d.table = .tripItems) (row : Row) :
    ∀ f ∈ d.columns, (merge row (takeoverOf s id takerID hlc)).applied.lookup f = none ∧
      (merge row (takeoverOf s id takerID hlc)).clocks f = row.clocks f := by
  intro f hf
  have hnone : (merge row (takeoverOf s id takerID hlc)).applied.lookup f = none := by
    rw [Option.eq_none_iff_forall_ne_some]
    intro v hv
    have hnamed : (takenFields s takerID).lookup f = some v := lookup_of_applied hv
    simp only [decisions, List.mem_cons, List.not_mem_nil, or_false] at hd
    rcases hd with rfl | rfl | rfl | rfl
    · cases ht
    · cases ht
    · cases ht
    · simp only [purchaseFrom, Decision.columns, purchaseColumns, List.mem_cons, List.not_mem_nil,
        or_false] at hf
      rcases hf with rfl | rfl | rfl <;> cases hnamed
  rw [merge_clocks, hnone]
  exact ⟨rfl, rfl⟩

theorem Alters.creditsKept (hc : c.Readable σ) (h : Alters c σ.db db'.rows) :
    CreditsKept c.request.caller σ.db db' := by
  generalize hrows : db'.rows = rows at h
  have hother {t : Table} (ht : t.partition = .master ∨ t ∈ uploadTables) : ∀ d ∈ decisions, d.table ≠ t := by
    rintro d hd rfl
    obtain ⟨htrip, -, hup⟩ := d.trip hd
    rcases ht with ht | ht
    · exact absurd (htrip.symm.trans ht) nofun
    · exact hup ht
  cases h with
  | nothing =>
    exact .of_same fun d hd id row' hrow' => ⟨row', hrows ▸ hrow', fun _ _ => rfl, fun _ _ => rfl⟩
  | deleted hr valid gate hop present delete =>
    obtain ⟨row, hrow, -⟩ := loadRow_of_present present
    exact .of_deleteRow (by rw [hrow]; rfl) delete hrows
  | pushed hr valid how hop put old =>
    rw [hr.caller]
    refine .asked (.push hr valid) hc how.gate (fun ht => ?_) (hrows ▸ put)
    rcases how.write with ⟨-, rfl, -⟩ | ⟨-, -, hret, -⟩
    · exact ⟨rfl, hop, (gate_onlyFields hr.thins how.gate).op⟩
    · exact absurd (hr.retirable hret) ht
  | founded hr valid gate hop fresh put absent owner =>
    refine .of_same fun d hd id row' hrow' => ⟨row', ?_, fun _ _ => rfl, fun _ _ => rfl⟩
    rwa [hrows, owner.lookup, if_neg, put.lookup, if_neg] at hrow'
    · exact fun hk => hother (.inl rfl) d hd (congrArg Key.table hk)
    · exact fun hk => hother (.inl rfl) d hd (congrArg Key.table hk)
  | restored hr valid noted present gate put =>
    rw [hr.caller]
    have hop := (gate_onlyFields hr.thins gate).op
    rw [← if_pos (t := (merge _ _).clocks) (e := insertedClocks _ _) present] at put
    refine .asked (.revert hr valid) hc gate (fun ht => ?_) (hrows ▸ put)
    exact ⟨rfl, by rw [hop]; exact nofun, hop⟩
  | taken hr present put =>
    obtain ⟨row, hrow, hload⟩ := loadRow_of_present present
    refine .of_put (hrows ▸ put) fun d hd ht => ⟨row, hrow, fun f hf => ?_⟩
    rw [hload]
    exact taken_columns hd ht _ f hf
  | attached ht absent own fields put => exact .of_put (hrows ▸ put) fun d hd h => absurd h (hother (.inr ht) d hd)
  | stamped ht present fields put => exact .of_put (hrows ▸ put) fun d hd h => absurd h (hother (.inr ht) d hd)

end

/-! ## Runs -/

/-- **A record of who and when follows the field that decides it, and names the caller who moved that
field last**, in every run in which no value is read in two ways. -/
theorem records_of_readable (g : Generator) (calls : List Call)
    (hc : server.Legal (fun σ c => c.Readable σ) (.fresh g) calls) :
    RecordsFollow (server.after (.fresh g) calls).db ∧
    ∀ d ∈ decisions, ∀ id row,
      (server.after (.fresh g) calls).db.rows.lookup ⟨d.table, id⟩ = some row →
      row.fields d.cols.who ≠ .null → ∃ pre c user,
        server.ChangedLast (fun σ => σ.db.decided d id) (.fresh g) calls pre c ∧
        c.request.caller = some user ∧ row.fields d.cols.who = .str user := by
  have hinv (is : List Call) (his : server.Legal (fun σ c => c.Readable σ) (.fresh g) is) :
      RecordsFollow (server.after (.fresh g) is).db ∧ RecordsSynced (server.after (.fresh g) is).db := by
    refine Machine.after_invariant (I := fun σ : Server => RecordsFollow σ.db ∧ RecordsSynced σ.db)
      (fun σ c hok h => ?_) ⟨?_, ?_⟩ his
    · have hk := (step_alters σ c).creditsKept hok
      exact ⟨hk.follow h.1 h.2, hk.synced h.2⟩
    · rintro d hd id row hr
      cases hr
    · rintro d hd id row hr
      cases hr
  refine ⟨(hinv calls hc).1, fun d hd id row hrow hwho => ?_⟩
  let record (σ : Server) := (σ.db.decided d id, σ.db.recorded d id)
  have hthere : record (server.after (.fresh g) calls) ≠ record (.fresh g) := by
    intro h
    have hsome := (Prod.mk.inj h).1
    rw [Db.decided, hrow] at hsome
    cases hsome
  obtain ⟨pre, c, hchange, post, hcalls, hkept⟩ := Machine.exists_changedLast hthere
  obtain ⟨hdecided, hrecorded⟩ := Prod.mk.inj (hkept [] post rfl)
  have hcredited : Credited c.request.caller (server.after (.fresh g) pre).db
      (server.after (.fresh g) (pre ++ [c])).db := by
    rw [server.after_append]
    exact ((step_alters _ c).creditsKept (hc pre c post hcalls)).credited
      (hinv pre (hcalls ▸ hc).append_left).2
  cases hrow' : (server.after (.fresh g) (pre ++ [c])).db.rows.lookup ⟨d.table, id⟩ with
  | none =>
    rw [Db.recorded, Db.recorded, hrow', hrow] at hrecorded
    cases hrecorded
  | some row' =>
    have hsame : row'.fields d.cols.who = row.fields d.cols.who := by
      simpa [Db.recorded, hrow', hrow] using hrecorded
    rcases hcredited d hd id row' hrow' with ⟨hd₁, hr₁⟩ | ⟨hmoved, hnull | ⟨user, hcaller, huser⟩⟩
    · exact absurd (Prod.ext hd₁ hr₁) hchange
    · exact absurd (hsame.symm.trans hnull) hwho
    · refine ⟨pre, c, user, ⟨hmoved, post, hcalls, fun q r hq => ?_⟩, hcaller, hsame.symm.trans huser⟩
      exact (Prod.mk.inj (hkept q r hq)).1

/-- Ann's task is resolved. -/
def annsTask : List Call := annsTrip ++ [
  .trip "T1" "ann" (.plain 2 .insert .comments "C1" [("trip_id", .str "T1"), ("body", .str "Book the hut"),
    ("is_task", .bool true), ("task_state", .str "open")]),
  .trip "T1" "ann" (.plain 3 .upsert .comments "C1" [("task_state", .str "resolved")])]

/-- The record of Ann's task names her. -/
theorem records_of_readable_task : RecordsFollow (server.after (.fresh .plain) annsTask).db ∧
    ∀ d ∈ decisions, ∀ id row,
      (server.after (.fresh .plain) annsTask).db.rows.lookup ⟨d.table, id⟩ = some row →
      row.fields d.cols.who ≠ .null → ∃ pre c user,
        server.ChangedLast (fun σ => σ.db.decided d id) (.fresh .plain) annsTask pre c ∧
        c.request.caller = some user ∧ row.fields d.cols.who = .str user := by
  refine records_of_readable _ _ ?_
  simp only [annsTask, annsTrip, List.cons_append, List.nil_append, Machine.legal_cons,
    Machine.legal_nil, and_true]
  have hcomment {σ : Server} {m : Mutation} (hm : Table.ofName m.table = some .comments)
      (hstate : m.fields.lookup "task_state" ≠ some .null) : (Call.trip "T1" "ann" m).Readable σ := by
    refine ⟨fun p m' ha _ _ => ?_, fun t ht p m' ha => ?_⟩
    · obtain ⟨-, rfl, -⟩ := Call.asks_trip rfl ha
      exact hstate
    · have htable := (Call.asks_trip rfl ha).2.2
      rw [hm] at htable
      cases htable
      exact absurd ht (by decide)
  refine ⟨⟨fun p m ha => absurd ha (Call.asks_addUser rfl), fun t ht p m ha => absurd ha (Call.asks_addUser rfl)⟩,
    ⟨fun p m ha => absurd (Call.asks_master rfl ha).2 (by decide), fun t ht p m ha => ?_⟩,
    hcomment (by decide) (by decide), hcomment (by decide) (by decide)⟩
  cases (Call.asks_master rfl ha).2
  exact absurd ht (by decide)

/-- A task that becomes a note without a state keeps the record of who has resolved it. -/
theorem null_state_keeps_resolver : ¬ ∀ (g : Generator) (calls : List Call),
    RecordsFollow (server.after (.fresh g) calls).db := by
  intro h
  let c := Call.trip "T1" "ann" (.plain 4 .upsert .comments "C1" [("is_task", .bool false), ("task_state", .null)])
  have hrun : ((server.after (.fresh .plain) (annsTask ++ [c])).db.rows.lookup ⟨.comments, "C1"⟩).map
      (fun row => (row.fields "task_state", row.fields "resolved_by_user_id")) =
      some (.null, .str "ann") := by
    decide +kernel
  obtain ⟨row, hrow, hfields⟩ := Option.map_eq_some_iff.1 hrun
  obtain ⟨hstate, hwho⟩ := Prod.mk.inj hfields
  have hfollow := (h .plain (annsTask ++ [c]) resolution (by simp [decisions]) "C1" row hrow).who
  rw [show row.fields resolution.field = .null from hstate, 
    show row.fields resolution.cols.who = .str "ann" from hwho] at hfollow
  exact absurd (hfollow.2 (by simp)) (by decide)

end JitPack
