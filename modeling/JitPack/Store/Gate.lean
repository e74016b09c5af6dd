import JitPack.Store.Rows

/-!
# What the stamp and the guards leave of a mutation

Before a mutation is merged, the stamp step rewrites the columns the server owns and the guards take
fields out. Neither touches anything but the fields (`OnlyFields`), and a guard adds none
(`Thinned`).
-/

namespace JitPack

variable {m m' m'' : Mutation}

/-- The two mutations differ in their fields at most. -/
structure OnlyFields (m m' : Mutation) : Prop where
  mutationID : m'.mutationID = m.mutationID
  op : m'.op = m.op
  table : m'.table = m.table
  id : m'.id = m.id
  hlc : m'.hlc = m.hlc

namespace OnlyFields

theorem refl (m : Mutation) : OnlyFields m m := ⟨rfl, rfl, rfl, rfl, rfl⟩

theorem trans (h : OnlyFields m m') (h' : OnlyFields m' m'') : OnlyFields m m'' :=
  ⟨h'.1.trans h.1, h'.2.trans h.2, h'.3.trans h.3, h'.4.trans h.4, h'.5.trans h.5⟩

theorem set (m : Mutation) (f : String) (v : Value) : OnlyFields m (m.set f v) :=
  ⟨rfl, rfl, rfl, rfl, rfl⟩

theorem drop (m : Mutation) (f : String) : OnlyFields m (m.drop f) := ⟨rfl, rfl, rfl, rfl, rfl⟩

theorem drops (m : Mutation) (fs : List String) : OnlyFields m (fs.foldl Mutation.drop m) := by
  induction fs generalizing m with
  | nil => exact refl m
  | cons f fs ih => exact (drop m f).trans (ih _)

end OnlyFields

/-- The second mutation is the first one without some of its fields. -/
structure Thinned (m m' : Mutation) : Prop where
  frame : OnlyFields m m'
  lookup : ∀ f v, m'.fields.lookup f = some v → m.fields.lookup f = some v

namespace Thinned

theorem refl (m : Mutation) : Thinned m m := ⟨.refl m, fun _ _ h => h⟩

theorem trans (h : Thinned m m') (h' : Thinned m' m'') : Thinned m m'' :=
  ⟨h.frame.trans h'.frame, fun f v hv => h.lookup f v (h'.lookup f v hv)⟩

theorem drop (m : Mutation) (f : String) : Thinned m (m.drop f) where
  frame := .drop m f
  lookup g v hv := by
    by_cases hg : g = f
    · subst hg
      rw [Mutation.drop, AList.lookup_erase] at hv
      cases hv
    · rwa [Mutation.drop, AList.lookup_erase_ne hg] at hv

end Thinned

/-! ## Stamps -/

section
variable (i : StampInput)

@[simp] theorem lookup_set (m : Mutation) (f g : String) (v : Value) :
    (m.set f v).fields.lookup g = if g = f then some v else m.fields.lookup g := by
  split
  · next h => rw [h, Mutation.set, AList.lookup_insert]
  · next h => rw [Mutation.set, AList.lookup_insert_ne h]

@[simp] theorem lookup_drop (m : Mutation) (f g : String) :
    (m.drop f).fields.lookup g = if g = f then none else m.fields.lookup g := by
  split
  · next h => rw [h, Mutation.drop, AList.lookup_erase]
  · next h => rw [Mutation.drop, AList.lookup_erase_ne h]

theorem lookup_stampRecord (cols : RecordColumns) (known done : Bool)
    (m : Mutation) (f : String) :
    (stampRecord i cols known done m).fields.lookup f =
      if known ∧ f = cols.time then some (if done then
        .str (tapTime (((i.sent.lookup cols.time).bind Value.asString).getD "") i.now) else .null)
      else if known ∧ f = cols.who then some (if done then .str i.actorID else .null)
      else m.fields.lookup f := by
  unfold stampRecord
  cases known <;> cases done <;> simp

theorem lookup_drops (fs : List String) (m : Mutation) (f : String) :
    (fs.foldl Mutation.drop m).fields.lookup f = if f ∈ fs then none else m.fields.lookup f := by
  induction fs generalizing m with
  | nil => simp
  | cons g fs ih =>
    rw [List.foldl_cons, ih, lookup_drop]
    by_cases hf : f ∈ fs <;> by_cases hg : f = g <;> simp [hf, hg]

theorem stampRecord_onlyFields (cols : RecordColumns) (known done : Bool) (m : Mutation) :
    OnlyFields m (stampRecord i cols known done m) := by
  unfold stampRecord
  split
  · exact .refl m
  split
  · exact (OnlyFields.set ..).trans (.set ..)
  · exact (OnlyFields.set ..).trans (.set ..)

theorem stampedOnInsert_onlyFields (c : String) (m : Mutation) :
    OnlyFields m ((stampedOnInsert c).stamp i m) := by
  simp only [stampedOnInsert]
  split
  · exact .set ..
  · exact .refl m

theorem stampedOnCreate_onlyFields (c : String) (m : Mutation) :
    OnlyFields m ((stampedOnCreate c).stamp i m) := by
  simp only [stampedOnCreate]
  split
  · exact .set ..
  · exact .refl m

theorem tripItemOwned_onlyFields (m : Mutation) : OnlyFields m (tripItemOwned.stamp i m) :=
  (stampRecord_onlyFields ..).trans ((stampRecord_onlyFields ..).trans (stampRecord_onlyFields ..))

theorem commentOwned_onlyFields (m : Mutation) : OnlyFields m (commentOwned.stamp i m) :=
  (stampedOnInsert_onlyFields ..).trans (stampRecord_onlyFields ..)

theorem boughtFlagOwned_onlyFields (m : Mutation) : OnlyFields m (boughtFlagOwned.stamp i m) :=
  stampRecord_onlyFields ..

theorem serverOwned_onlyFields (t : Table) (m : Mutation) :
    OnlyFields m (t.serverOwned.stamp i m) := by
  unfold Table.serverOwned
  split
  case h_5 => exact tripItemOwned_onlyFields i m
  case h_6 => exact commentOwned_onlyFields i m
  case h_7 => exact boughtFlagOwned_onlyFields i m
  case h_8 => exact boughtFlagOwned_onlyFields i m
  case h_14 => exact .refl m
  all_goals first
    | exact stampedOnCreate_onlyFields ..
    | exact stampedOnInsert_onlyFields ..

theorem stampServerOwned_onlyFields (t : Table) (m : Mutation) (row : Row) (actorID : String)
    (now : Now) : OnlyFields m (stampServerOwned t m row actorID now) :=
  (OnlyFields.drops ..).trans (serverOwned_onlyFields ..)

/-- A rule writes no other column than the ones the server owns. -/
theorem serverOwned_lookup (t : Table) (m : Mutation) {f : String} (hf : f ∉ t.serverOwned.columns) :
    (t.serverOwned.stamp i m).fields.lookup f = m.fields.lookup f := by
  have hinsert (c : String) (m : Mutation) (hf : f ∉ (stampedOnInsert c).columns) :
      ((stampedOnInsert c).stamp i m).fields.lookup f = m.fields.lookup f := by
    have hne : f ≠ c := by simpa [stampedOnInsert] using hf
    simp only [stampedOnInsert]
    split <;> simp [hne]
  have hcreate (c : String) (m : Mutation) (hf : f ∉ (stampedOnCreate c).columns) :
      ((stampedOnCreate c).stamp i m).fields.lookup f = m.fields.lookup f := by
    have hne : f ≠ c := by simpa [stampedOnCreate] using hf
    simp only [stampedOnCreate]
    split <;> simp [hne]
  have hrecord (cols : RecordColumns) (known done : Bool) (m : Mutation) (hwho : f ≠ cols.who)
      (htime : f ≠ cols.time) : (stampRecord i cols known done m).fields.lookup f = m.fields.lookup f := by
    rw [lookup_stampRecord, if_neg (fun h => htime h.2), if_neg (fun h => hwho h.2)]
  revert hf
  unfold Table.serverOwned
  split <;> intro hf
  case h_5 =>
    simp only [tripItemOwned, List.mem_cons, List.not_mem_nil, or_false, not_or] at hf
    obtain ⟨h₁, h₂, h₃, h₄, h₅, h₆⟩ := hf
    simp only [tripItemOwned]
    rw [hrecord _ _ _ _ h₅ h₆, hrecord _ _ _ _ h₃ h₄, hrecord _ _ _ _ h₁ h₂]
  case h_6 =>
    simp only [commentOwned, List.mem_cons, List.not_mem_nil, or_false, not_or] at hf
    obtain ⟨h₁, h₂, h₃⟩ := hf
    simp only [commentOwned]
    rw [hrecord _ _ _ _ h₂ h₃, hinsert _ _ (by simpa [stampedOnInsert] using h₁)]
  case h_7 | h_8 =>
    simp only [boughtFlagOwned, List.mem_cons, List.not_mem_nil, or_false, not_or] at hf
    exact hrecord _ _ _ _ hf.1 hf.2
  case h_14 => rfl
  all_goals first
    | exact hcreate _ _ hf
    | exact hinsert _ _ hf

/-- The stamp step leaves every other column alone. -/
theorem stampServerOwned_lookup (t : Table) (m : Mutation) (row : Row) (actorID : String) (now : Now)
    {f : String} (hf : f ∉ t.serverOwned.columns) :
    (stampServerOwned t m row actorID now).fields.lookup f = m.fields.lookup f :=
  (serverOwned_lookup _ t _ hf).trans ((lookup_drops ..).trans (if_neg hf))

end

/-! ## Guards -/

/-- The rule takes fields out of the mutation at most. -/
def GuardRule.Thins (rule : GuardRule) : Prop := ∀ db i, Thinned i.m (rule db i).1

theorem allOf_thins {rules : List GuardRule} (h : ∀ rule ∈ rules, rule.Thins) :
    (allOf rules).Thins := by
  induction rules with
  | nil => exact fun _ i => .refl i.m
  | cons rule rules ih =>
    intro db i
    have hrule := h rule (List.mem_cons_self ..) db i
    rw [allOf]
    split
    · next hr => exact hr ▸ hrule
    · next m hr =>
      rw [hr] at hrule
      exact hrule.trans (ih (fun r hr => h r (List.mem_cons_of_mem _ hr)) db { i with m })

theorem ownOrDropped_thins (column : String) (t : Table) : (ownOrDropped column t).Thins := by
  intro db i
  unfold ownOrDropped
  split
  · exact .refl i.m
  · exact .refl i.m
  · split
    · exact .drop i.m column
    · exact .refl i.m

theorem ownOrRefused_thins (column : String) (t : Table) : (ownOrRefused column t).Thins := by
  intro db i
  unfold ownOrRefused
  split <;> exact .refl i.m

theorem noteExcursion_thins (h : Thinned m m') (db : Db) (tripID actorID : String) (row : Row) :
    Thinned m (noteExcursion db ⟨tripID, actorID, m', row⟩).1 :=
  h.trans (ownOrDropped_thins _ _ db ⟨tripID, actorID, m', row⟩)

theorem Thinned.ite {c : Prop} [Decidable c] (h : Thinned m m') (h' : Thinned m m'') :
    Thinned m (if c then m' else m'') := by
  split
  · exact h
  · exact h'

theorem validNoteThread_thins : GuardRule.Thins validNoteThread := by
  intro db i
  unfold validNoteThread
  split
  · exact .refl i.m
  split
  · have hreply : Thinned i.m (if (i.row.fields "parent_id").asString.getD "" ≠ "" then
        ((i.m.drop "parent_id").drop "title").drop "excursion_id" else i.m.drop "parent_id") :=
      .ite ((Thinned.drop ..).trans ((Thinned.drop ..).trans (.drop ..))) (.drop ..)
    dsimp only
    generalize (if (i.row.fields "parent_id").asString.getD "" ≠ "" then
        ((i.m.drop "parent_id").drop "title").drop "excursion_id" else i.m.drop "parent_id") = m at hreply ⊢
    have hnote := hreply.trans (.ite (c := isNote i.row.fields = true) (.refl m) (.drop m "excursion_id"))
    generalize (if isNote i.row.fields = true then m else m.drop "excursion_id") = m₁ at hnote ⊢
    split
    · exact hreply
    split
    · exact hnote
    · exact noteExcursion_thins hnote ..
  · split
    · exact noteExcursion_thins (.ite (.refl _) (.drop ..)) ..
    · have hbase : Thinned i.m ((i.m.drop "title").drop "excursion_id") := (Thinned.drop ..).trans (.drop ..)
      dsimp only
      split
      · exact hbase
      · exact hbase

/-- A rule that refuses or lets pass changes nothing. -/
theorem answer_thins {rule : Db → GuardInput → Option RejectReason} :
    GuardRule.Thins fun db i => i.answer (rule db i) := fun _ i => .refl i.m

/-- No guard does more to a mutation than take fields out of it. -/
theorem guardFor_thins (t : Table) : (guardFor t).Thins := by
  cases t with
  | comments =>
    refine allOf_thins fun rule hr => ?_
    simp only [List.mem_cons, List.not_mem_nil, or_false] at hr
    rcases hr with rfl | rfl | rfl
    exacts [validNoteThread_thins, ownOrDropped_thins _ _, ownOrDropped_thins _ _]
  | dayEntryTravelers =>
    refine allOf_thins fun rule hr => ?_
    simp only [List.mem_cons, List.not_mem_nil, or_false] at hr
    rcases hr with rfl | rfl
    exacts [ownOrRefused_thins _ _, ownOrRefused_thins _ _]
  | shoppingEntries | excursions | dayEntries | meals => exact ownOrDropped_thins _ _
  | ideaLinks | mealIngredients => exact ownOrRefused_thins _ _
  | travelers =>
    intro db i
    change Thinned i.m (validTravelerLink db i).1
    unfold validTravelerLink
    dsimp only
    split <;> exact .refl i.m
  | templates =>
    intro db i
    change Thinned i.m (validKindSwitch db i).1
    unfold validKindSwitch
    split <;> exact .refl i.m
  | _ => exact answer_thins

/-- The rule leaves the field `f` of a mutation alone. -/
def GuardRule.Keeps (rule : GuardRule) (f : String) : Prop :=
  ∀ db i, (rule db i).1.fields.lookup f = i.m.fields.lookup f

section
variable {f : String}

theorem answer_keeps {rule : Db → GuardInput → Option RejectReason} :
    GuardRule.Keeps (fun db i => i.answer (rule db i)) f := fun _ _ => rfl

theorem allOf_keeps {rules : List GuardRule} (h : ∀ rule ∈ rules, rule.Keeps f) :
    (allOf rules).Keeps f := by
  induction rules with
  | nil => exact fun _ _ => rfl
  | cons rule rules ih =>
    intro db i
    have hrule := h rule (List.mem_cons_self ..) db i
    rw [allOf]
    split
    · next hr => rw [hr] at hrule; exact hrule
    · next m hr =>
      rw [hr] at hrule
      exact (ih (fun r hr => h r (List.mem_cons_of_mem _ hr)) db { i with m }).trans hrule

theorem ownOrDropped_keeps {column : String} (t : Table) (hf : f ≠ column) :
    (ownOrDropped column t).Keeps f := by
  intro db i
  unfold ownOrDropped
  split
  · rfl
  · rfl
  · split
    · simp [hf]
    · rfl

theorem ownOrRefused_keeps (column : String) (t : Table) : (ownOrRefused column t).Keeps f := by
  intro db i
  unfold ownOrRefused
  split <;> rfl

/-- The fields that a thread takes out of a mutation. -/
def threadFields : List String := ["parent_id", "title", "excursion_id"]

theorem validNoteThread_keeps (hf : f ∉ threadFields) : GuardRule.Keeps validNoteThread f := by
  simp only [threadFields, List.mem_cons, List.not_mem_nil, or_false, not_or] at hf
  have hexcursion (db : Db) (tripID actorID : String) (m : Mutation) (row : Row) :
      (noteExcursion db ⟨tripID, actorID, m, row⟩).1.fields.lookup f = m.fields.lookup f :=
    ownOrDropped_keeps _ hf.2.2 db ⟨tripID, actorID, m, row⟩
  intro db i
  unfold validNoteThread
  split
  · rfl
  split
  · dsimp only
    have hreply : (if (i.row.fields "parent_id").asString.getD "" ≠ "" then
        ((i.m.drop "parent_id").drop "title").drop "excursion_id" else
          i.m.drop "parent_id").fields.lookup f = i.m.fields.lookup f := by
      split <;> simp [hf]
    generalize (if (i.row.fields "parent_id").asString.getD "" ≠ "" then
        ((i.m.drop "parent_id").drop "title").drop "excursion_id" else i.m.drop "parent_id") = m at hreply ⊢
    have hnote : (if isNote i.row.fields = true then m else m.drop "excursion_id").fields.lookup f =
        i.m.fields.lookup f := by
      split <;> simp [hf, hreply]
    generalize (if isNote i.row.fields = true then m else m.drop "excursion_id") = m₁ at hnote ⊢
    split
    · exact hreply
    split
    · exact hnote
    · exact (hexcursion ..).trans hnote
  · split
    · refine (hexcursion ..).trans ?_
      split <;> simp [hf]
    · dsimp only
      split <;> simp [hf]

/-- The fields that the guard of the comments takes out of a mutation. -/
def commentFields : List String := threadFields ++ ["idea_id", "day_entry_id"]

theorem guardFor_comments_keeps (hf : f ∉ commentFields) : (guardFor .comments).Keeps f := by
  simp only [commentFields, List.mem_append, List.mem_cons, List.not_mem_nil, or_false, not_or] at hf
  refine allOf_keeps fun rule hr => ?_
  simp only [List.mem_cons, List.not_mem_nil, or_false] at hr
  rcases hr with rfl | rfl | rfl
  exacts [validNoteThread_keeps hf.1, ownOrDropped_keeps _ hf.2.1, ownOrDropped_keeps _ hf.2.2]

end

/-! ## Gates -/

section
variable {s : Env} {db : Db} {t : Table} {tripID userID : String} {reason : Option RejectReason}

/-- What the scope of a partition leaves is thinner than the stamped mutation. -/
def Partition.Thins (p : Partition) : Prop :=
  ∀ db t m row, Thinned m (p.scope db t m row).1

theorem tripPartition_thins : (tripPartition tripID userID).Thins := by
  intro db t m row
  simp only [tripPartition]
  split
  · exact guardFor_thins t db ⟨tripID, userID, m, row⟩
  · exact .refl m

theorem masterPartition_thins : (masterPartition userID).Thins :=
  fun db t m row => guardFor_thins t db ⟨"", userID, m, row⟩

theorem prunePartition_thins : (prunePartition userID).Thins := by
  intro db t m row
  have hguard := guardFor_thins t db ⟨"", userID, m, row⟩
  simp only [prunePartition]
  split <;> next hr => rw [hr] at hguard; exact hguard

theorem Pushes.thins {r : Request} {p : Partition} (h : Pushes r p m) : p.Thins := by
  cases h with
  | trip => exact tripPartition_thins
  | master => exact masterPartition_thins
  | deleteRow => exact masterPartition_thins
  | prune => exact prunePartition_thins

theorem Reverts.thins {r : Request} {p : Partition} {e : ConflictEntry} {fields : Fields}
    (h : Reverts r p e fields) : p.Thins := by
  cases h with
  | trip => exact tripPartition_thins
  | master => exact masterPartition_thins

/-- The mutation that the stamp step leaves. -/
def Partition.stamped (p : Partition) (s : Env) (db : Db) (t : Table) (m : Mutation) : Mutation :=
  stampServerOwned t m (loadRow ⟨t, m.id⟩ db) p.actorID s.now

theorem gate_thinned {p : Partition} (hp : p.Thins) (h : p.gate s db t m = (m', reason)) :
    Thinned (p.stamped s db t m) m' := by
  have hs := hp db t (p.stamped s db t m) (loadRow ⟨t, m.id⟩ db)
  rw [Partition.gate] at h
  rw [Partition.stamped] at hs ⊢
  rwa [h] at hs

/-- The gate changes nothing of a mutation but its fields. -/
theorem gate_onlyFields {p : Partition} (hp : p.Thins) (h : p.gate s db t m = (m', reason)) :
    OnlyFields m m' := (stampServerOwned_onlyFields ..).trans (gate_thinned hp h).frame

/-- A mutation that passes the gate of a trip has named no other one, and has passed its guard. -/
theorem trip_gate (hg : (tripPartition tripID userID).gate s db t m = (m', none)) :
    belongsToTrip tripID ((tripPartition tripID userID).stamped s db t m) (loadRow ⟨t, m.id⟩ db) = true ∧
    guardFor t db ⟨tripID, userID, (tripPartition tripID userID).stamped s db t m,
      loadRow ⟨t, m.id⟩ db⟩ = (m', none) := by
  change (if belongsToTrip tripID ((tripPartition tripID userID).stamped s db t m)
      (loadRow ⟨t, m.id⟩ db) then guardFor t db ⟨tripID, userID,
    (tripPartition tripID userID).stamped s db t m, loadRow ⟨t, m.id⟩ db⟩ else _) = _ at hg
  split at hg
  · next hbelongs => exact ⟨hbelongs, hg⟩
  · cases hg

/-- What is in scope: a row of the trip, or a new one that names it. -/
theorem belongsToTrip_ok {row : Row} (h : belongsToTrip tripID m row = true) :
    (row.present = true → row.fields columnTripID = .str tripID) ∧
    (∀ named, m.string columnTripID = some named → named = tripID) ∧
    (row.present = false → m.op ≠ .delete → m.string columnTripID = some tripID) := by
  simp only [belongsToTrip, Bool.and_eq_true, Bool.or_eq_true, Bool.not_eq_true', decide_eq_true_eq] at h
  refine ⟨fun hp => h.1.resolve_left (by simp [hp]), fun named hn => ?_, fun hp hop => ?_⟩
  · rw [hn] at h
    exact of_decide_eq_true h.2
  · cases hs : m.string columnTripID with
    | none =>
      rw [hs] at h
      simp [hp, hop] at h
    | some named =>
      rw [hs] at h
      exact congrArg some (of_decide_eq_true h.2)

end

end JitPack
