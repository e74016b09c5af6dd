import JitPack.Sync.Hlc

/-!
# The merge of one mutation

`Merge` of `internal/sync/merge.go`: it decides, field by field, whether a pushed mutation or the
stored row holds the value. Three rules decide. An additive flag that is set always applies; the two
fields of the state group win or lose together, with `packed` beating `packing_now` whatever the
clocks say, and the record of the state follows the group; every other field goes to the greater
clock.

`merge` is the code's loop over the fields of the mutation. Its inversion is
`merge_applied_lookup` and `merge_clocks`: a field is applied exactly if `Row.admits` says so, and
an applied field takes the clock of the mutation. Every later fact about a merge is derived from
these two.
-/

namespace JitPack

/-! ## Values -/

/-- A field value as Go's `any` carries it: decoded from JSON (`bool`, `float`, `str`), scanned from
SQLite (`int`, `float`, `str`), or set by the server. An array or an object of a JSON body is kept
as its text; nothing looks into it. -/
inductive Value where
  | null
  | bool (b : Bool)
  | int (n : Int)
  | float (x : ℚ)
  | str (s : String)
  | composite (json : String)
  deriving DecidableEq, Inhabited

/-- The double nearest to an integer: 53 significant bits, ties to even. -/
def toFloat64 (n : Int) : ℚ :=
  let e := Nat.log2 n.natAbs - 52
  let q := n.natAbs / 2 ^ e
  let r := n.natAbs % 2 ^ e
  let up := 2 ^ e < 2 * r ∨ 2 * r = 2 ^ e ∧ q % 2 = 1
  let m : ℚ := (if up then q + 1 else q) * 2 ^ e
  if n < 0 then -m else m

/-- `asNumber`: every number, and a boolean as the number SQLite stores for it. -/
def asNumber : Value → Option ℚ
  | .float x => some x
  | .int n => some (toFloat64 n)
  | .bool b => some (if b then 1 else 0)
  | _ => none

/-- `sameValue`: the same value, across the two type systems values reach the merge in. -/
def sameValue (a b : Value) : Bool :=
  match asNumber a with
  | some na => asNumber b = some na
  | none =>
    match a with
    | .str va => b = .str va
    | .null => b = .null
    | _ => false

/-- `IsTruthy`. -/
def isTruthy : Value → Bool
  | .bool b => b
  | .int n => n ≠ 0
  | .float x => x ≠ 0
  | _ => false

/-! ## Mutations and rows -/

/-- `Op`. The push handler passes any word on; only three have a meaning. -/
inductive Op where
  | insert
  | upsert
  | delete
  | other (word : String)
  deriving DecidableEq

/-- `Outcome`. -/
inductive Outcome where
  | applied
  | merged
  | rejected
  | duplicate
  deriving DecidableEq

def statePacked : String := "packed"
def statePackingNow : String := "packing_now"
def fieldState : String := "state"

/-- The fields of a mutation: a map, in the order the loops over it happen to take. -/
abbrev Fields := AList fun _ : String => Value

/-- The fields of a decoded JSON object: a name that repeats keeps its last value. -/
def Fields.decode (es : List (String × Value)) : Fields :=
  es.foldl (fun fs e => fs.insert e.1 e.2) ∅

/-- `Mutation`. -/
structure Mutation where
  mutationID : String
  op : Op
  table : String
  id : String
  fields : Fields
  hlc : HLC

/-- `Mutation.Set`. -/
def Mutation.set (m : Mutation) (field : String) (value : Value) : Mutation :=
  { m with fields := m.fields.insert field value }

/-- `FieldClocks`: for each field the clock of the write that last set it, where one is on record. -/
abbrev FieldClocks := String → Option HLC

/-- `Row`: what the server holds for one entity. A field that is not in the map reads as null. -/
structure Row where
  present : Bool
  fields : String → Value
  hlc : HLC
  clocks : FieldClocks

/-- `Conflict`. -/
structure Conflict where
  field : String
  losingValue : Value
  winningValue : Value
  deriving DecidableEq

/-- `MergeResult`. -/
structure MergeResult where
  outcome : Outcome
  applied : Fields
  conflicts : List Conflict
  deleted : Bool
  rowHLC : HLC
  clocks : FieldClocks

/-! ## The rules -/

/-- `stateGroup`: the fields that are one logical fact and share one clock. -/
def stateGroup : List String := ["packed_count", fieldState]

/-- `stateRecord`: the columns that describe the state group and follow it. -/
def stateRecord : List String := ["packing_now_by", "packing_now_at", "packed_by_user_id", "packed_at"]

/-- `additiveFields`. -/
def additiveFields : List String := ["flag_unused", "flag_missing"]

/-- `GroupedWith`: the fields that merge as one unit with `field`, sorted. -/
def groupedWith (field : String) : List String :=
  if field ∈ stateGroup then stateGroup else [field]

/-- `clockOf`. -/
def Row.clockOf (row : Row) (field : String) : HLC := (row.clocks field).getD row.hlc

/-- `groupClock`. The fold starts at Go's empty string. -/
def Row.groupClock (row : Row) : HLC := stateGroup.foldl (fun newest f => max newest (row.clockOf f)) []

/-- `groupDecision`. -/
def groupDecision (row : Row) (m : Mutation) : Bool :=
  let newer := row.groupClock < m.hlc
  match m.fields.lookup fieldState with
  | none => newer
  | some incoming =>
    let current := row.fields fieldState
    if incoming = .str statePacked ∧ current = .str statePackingNow then true
    else if incoming = .str statePackingNow ∧ current = .str statePacked then false
    else newer

def outcomeFor (applied : Bool) : Outcome := if applied then .applied else .merged

/-- `MergeResult.apply`. -/
def MergeResult.apply (r : MergeResult) (field : String) (value : Value) (hlc : HLC) : MergeResult :=
  { r with
    applied := r.applied.insert field value
    clocks := Function.update r.clocks field (some hlc) }

/-- `MergeResult.drop`: a value that differs only in how it was carried is no conflict. -/
def MergeResult.drop (r : MergeResult) (field : String) (losing winning : Value) : MergeResult :=
  if sameValue losing winning then r
  else { r with conflicts := r.conflicts ++ [⟨field, losing, winning⟩] }

/-- One turn of the loop of `Merge` over the fields of the mutation. -/
def mergeField (row : Row) (hlc : HLC) (applyGroup : Bool) (r : MergeResult) (f : String)
    (v : Value) : MergeResult :=
  if f ∈ additiveFields ∧ isTruthy v then r.apply f v hlc
  else if f ∈ stateGroup ∧ applyGroup then r.apply f v hlc
  else if f ∈ stateGroup ∧ ¬ applyGroup then r.drop f v (row.fields f)
  else if f ∈ stateRecord ∧ applyGroup then r.apply f v hlc
  else if f ∈ stateRecord then r
  else if row.clockOf f < hlc then r.apply f v hlc
  else r.drop f v (row.fields f)

/-- `Merge`. -/
def merge (row : Row) (m : Mutation) : MergeResult :=
  let res : MergeResult :=
    { outcome := .applied, applied := ∅, conflicts := [], deleted := false,
      rowHLC := max row.hlc m.hlc, clocks := row.clocks }
  if m.op = .delete then
    let deleted := row.hlc < m.hlc
    { res with deleted, outcome := outcomeFor deleted }
  else if !row.present then
    m.fields.entries.foldl (fun r e => r.apply e.1 e.2 m.hlc) res
  else
    let applyGroup := groupDecision row m
    let res := m.fields.entries.foldl (fun r e => mergeField row m.hlc applyGroup r e.1 e.2) res
    { res with outcome := outcomeFor res.conflicts.isEmpty }

/-! ## What a merge applies -/

/-- The write of `v` to the field `f` wins: by the additive rule, with the state group, or by the
clock of the field. -/
def Row.admits (row : Row) (m : Mutation) (f : String) (v : Value) : Prop :=
  f ∈ additiveFields ∧ isTruthy v = true ∨
  (f ∈ stateGroup ∨ f ∈ stateRecord) ∧ groupDecision row m = true ∨
  f ∉ stateGroup ∧ f ∉ stateRecord ∧ row.clockOf f < m.hlc

instance (row : Row) (m : Mutation) (f : String) (v : Value) : Decidable (row.admits m f v) := by
  unfold Row.admits; infer_instance

section
variable {row : Row} {m : Mutation} {r : MergeResult} {f : String} {v : Value} {hlc : HLC}

/-- Dropping a field records at most a conflict. -/
theorem MergeResult.drop_eq (r : MergeResult) (f : String) (v w : Value) :
    ∃ conflicts, r.drop f v w = { r with conflicts } := by
  unfold drop
  split
  · exact ⟨r.conflicts, rfl⟩
  · exact ⟨_, rfl⟩

/-- A turn of the loop applies its field if the row admits it. -/
theorem mergeField_of_admits (h : row.admits m f v) (r : MergeResult) :
    mergeField row m.hlc (groupDecision row m) r f v = r.apply f v m.hlc := by
  unfold mergeField
  by_cases hadd : f ∈ additiveFields ∧ isTruthy v = true
  · rw [if_pos hadd]
  rw [if_neg hadd]
  rcases h with h | ⟨hgr | hrec, hg⟩ | ⟨hgr, hrec, hlt⟩
  · exact absurd h hadd
  · rw [if_pos ⟨hgr, hg⟩]
  · by_cases hgr : f ∈ stateGroup
    · rw [if_pos ⟨hgr, hg⟩]
    · rw [if_neg (fun h => hgr h.1), if_neg (fun h => hgr h.1), if_pos ⟨hrec, hg⟩]
  · rw [if_neg (fun h => hgr h.1), if_neg (fun h => hgr h.1), if_neg (fun h => hrec h.1),
      if_neg hrec, if_pos hlt]

/-- A turn of the loop at most logs a conflict if the row does not admit its field. -/
theorem mergeField_of_not_admits (h : ¬ row.admits m f v) (r : MergeResult) :
    ∃ conflicts,
      mergeField row m.hlc (groupDecision row m) r f v = { r with conflicts } := by
  have hadd : ¬ (f ∈ additiveFields ∧ isTruthy v = true) := fun h' => h (.inl h')
  unfold mergeField
  rw [if_neg hadd]
  by_cases hgr : f ∈ stateGroup
  · have hg : groupDecision row m ≠ true := fun hg => h (.inr (.inl ⟨.inl hgr, hg⟩))
    rw [if_neg (fun h => hg h.2), if_pos ⟨hgr, hg⟩]
    exact r.drop_eq ..
  rw [if_neg (fun h => hgr h.1), if_neg (fun h => hgr h.1)]
  by_cases hrec : f ∈ stateRecord
  · have hg : groupDecision row m ≠ true := fun hg => h (.inr (.inl ⟨.inr hrec, hg⟩))
    rw [if_neg (fun h => hg h.2), if_pos hrec]
    exact ⟨r.conflicts, rfl⟩
  · rw [if_neg (fun h => hrec h.1), if_neg hrec,
      if_neg fun hlt => h (.inr (.inr ⟨hgr, hrec, hlt⟩))]
    exact r.drop_eq ..

section
variable {P : String → Value → Bool} {step : MergeResult → String → Value → MergeResult}
variable {es : List (Sigma fun _ : String => Value)}

/-- The loops of `merge` over the fields of the mutation: each turn applies its field exactly if `P`
holds of it, so after the loop a field is applied exactly if the mutation has it and `P` holds. -/
theorem foldl_fields (hpos : ∀ r f v, P f v = true → step r f v = r.apply f v hlc)
    (hneg : ∀ r f v, P f v = false → ∃ conflicts, step r f v = { r with conflicts })
    (hnd : es.NodupKeys) (f : String) (r : MergeResult) :
    (es.foldl (fun r e => step r e.1 e.2) r).applied.lookup f =
      ((es.dlookup f).filter (P f)).or (r.applied.lookup f) ∧
    (es.foldl (fun r e => step r e.1 e.2) r).clocks f =
      (if ((es.dlookup f).filter (P f)).isSome then some hlc else r.clocks f) ∧
    (es.foldl (fun r e => step r e.1 e.2) r).rowHLC = r.rowHLC := by
  induction es generalizing r with
  | nil => simp
  | cons e es ih =>
    obtain ⟨g, w⟩ := e
    rw [List.nodupKeys_cons] at hnd
    obtain ⟨h1, h2, h3⟩ := ih hnd.2 (step r g w)
    rw [List.foldl_cons, h1, h2, h3]
    by_cases hf : f = g
    · subst hf
      rw [List.dlookup_eq_none.2 hnd.1, List.dlookup_cons_eq]
      cases hP : P f w with
      | true => simp [hpos r f w hP, hP, MergeResult.apply, Option.filter]
      | false =>
        obtain ⟨cs, hs⟩ := hneg r f w hP
        simp [hs, hP, Option.filter]
    · rw [List.dlookup_cons_ne _ _ hf]
      cases hP : P g w with
      | true => simp [hpos r g w hP, MergeResult.apply, AList.lookup_insert_ne hf, hf]
      | false =>
        obtain ⟨cs, hs⟩ := hneg r g w hP
        simp [hs]

end

/-- What `merge` does with the fields of a mutation that is no delete: all of them are written on a
missing row, and the ones the row admits on a stored row. -/
theorem merge_upsert (hop : m.op ≠ .delete) (f : String) :
    (merge row m).applied.lookup f =
      (m.fields.lookup f).filter (fun v => !row.present || row.admits m f v) ∧
    (merge row m).clocks f = (if ((merge row m).applied.lookup f).isSome then some m.hlc
      else row.clocks f) ∧
    (merge row m).rowHLC = max row.hlc m.hlc := by
  cases hrow : row.present with
  | false =>
    have hall : ∀ (r : MergeResult) (f : String) (v : Value), true = true →
        r.apply f v m.hlc = r.apply f v m.hlc := fun _ _ _ _ => rfl
    have := foldl_fields (P := fun _ _ => true) hall (fun _ _ _ h => nomatch h)
      m.fields.nodupKeys f
    simp only [merge, hop, hrow, Bool.not_false, Bool.true_or, if_false, if_true]
    obtain ⟨h1, h2, h3⟩ := this _
    rw [h1, h2, h3]
    simp [AList.lookup]
  | true =>
    have := foldl_fields (P := fun f v => row.admits m f v)
      (fun r f v h => mergeField_of_admits (of_decide_eq_true h) r)
      (fun r f v h => mergeField_of_not_admits (of_decide_eq_false h) r) m.fields.nodupKeys f
    simp only [merge, hop, hrow, Bool.not_true, Bool.false_or, if_false, Bool.false_eq_true]
    obtain ⟨h1, h2, h3⟩ := this _
    rw [h1, h2, h3]
    simp [AList.lookup]

/-- A mutation of a stored row applies the fields the row admits. -/
theorem merge_applied_lookup (hop : m.op ≠ .delete) (hrow : row.present = true) (f : String) :
    (merge row m).applied.lookup f = (m.fields.lookup f).filter (fun v => row.admits m f v) := by
  simp [(merge_upsert hop f).1, hrow]

/-- A mutation of a missing row applies all its fields. -/
theorem merge_applied_missing (hop : m.op ≠ .delete) (hrow : row.present = false) (f : String) :
    (merge row m).applied.lookup f = m.fields.lookup f := by
  rw [(merge_upsert hop f).1, hrow]
  cases m.fields.lookup f <;> rfl

theorem merge_applied_delete (hop : m.op = .delete) : (merge row m).applied = ∅ := by
  simp [merge, hop]

/-- An applied field takes the clock of the mutation, and every other field keeps its own. -/
theorem merge_clocks (row : Row) (m : Mutation) (f : String) : (merge row m).clocks f =
    if ((merge row m).applied.lookup f).isSome then some m.hlc else row.clocks f := by
  by_cases hop : m.op = .delete
  · rw [merge_applied_delete hop]
    simp [merge, hop]
  · exact (merge_upsert hop f).2.1

/-- The clock of the row is the greatest it has seen. -/
@[simp] theorem merge_rowHLC (row : Row) (m : Mutation) :
    (merge row m).rowHLC = max row.hlc m.hlc := by
  by_cases hop : m.op = .delete
  · simp [merge, hop]
  · exact (merge_upsert hop fieldState).2.2

/-- A merge deletes the row if the mutation is a delete that is newer than the row. -/
theorem merge_deleted_iff : (merge row m).deleted = true ↔ m.op = .delete ∧ row.hlc < m.hlc := by
  by_cases hop : m.op = .delete
  · simp [merge, hop]
  have hfold (es : List (Sigma fun _ : String => Value)) (r : MergeResult)
      (step : MergeResult → String → Value → MergeResult)
      (hs : ∀ r f v, (step r f v).deleted = r.deleted) :
      (es.foldl (fun r e => step r e.1 e.2) r).deleted = r.deleted := by
    induction es generalizing r with
    | nil => rfl
    | cons e es ih => rw [List.foldl_cons, ih, hs]
  have hfield (r : MergeResult) (f : String) (v : Value) :
      (mergeField row m.hlc (groupDecision row m) r f v).deleted = r.deleted := by
    by_cases ha : row.admits m f v
    · rw [mergeField_of_admits ha]
      rfl
    · obtain ⟨cs, hcs⟩ := mergeField_of_not_admits ha r
      rw [hcs]
  have hdel : (merge row m).deleted = false := by
    rw [merge, if_neg hop]
    split
    · rw [hfold _ _ (fun r f v => r.apply f v m.hlc) fun _ _ _ => rfl]
    · dsimp only
      rw [hfold _ _ _ hfield]
  simp [hdel, hop]

theorem merge_deleted (h : (merge row m).deleted = true) : m.op = .delete ∧ row.hlc < m.hlc :=
  merge_deleted_iff.1 h

end

end JitPack
