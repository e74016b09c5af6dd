import JitPack.Sync.Converge

/-!
# How clocks move in a merge

The row clock never decreases, and a field clock decreases in exactly one situation: a mutation
older than the field is applied by a rule that does not ask the field's clock (`Row.Overridden`).
These are an additive flag that is set, the state group when `packed` meets `packing_now`, and the
record of the state, which follows the group. An applied field is always stamped with the clock of
the mutation, so there the clock of the field becomes the older one (`clockOf_lt_iff`).

Over a run of merges, a field that none of these rules touches is never taken over by a write that
is not newer than a clock the field carried (`clocks_monotone_unless_overridden`).
-/

namespace JitPack

/-- The mutation writes the field by a rule that does not ask the field's clock. -/
def Row.Overridden (row : Row) (m : Mutation) (f : String) : Prop :=
  m.op ≠ .delete ∧ ∃ v, m.fields.lookup f = some v ∧
    (f ∈ additiveFields ∧ isTruthy v = true ∨
     f ∈ stateGroup ∧ m.fields.lookup fieldState = some (.str statePacked) ∧
       row.fields fieldState = .str statePackingNow ∨
     f ∈ stateRecord ∧ groupDecision row m = true)

section
variable {row : Row} {m : Mutation} {f : String} {v : Value}

theorem clockOf_le_groupClock (hf : f ∈ stateGroup) : row.clockOf f ≤ row.groupClock := by
  simp only [stateGroup, List.mem_cons, List.not_mem_nil, or_false] at hf
  simp only [Row.groupClock, stateGroup, List.foldl_cons, List.foldl_nil]
  rcases hf with rfl | rfl
  · exact (le_max_right _ _).trans (le_max_left _ _)
  · exact le_max_right _ _

/-- The group applies because the mutation is newer, or because `packed` meets `packing_now`. -/
theorem groupDecision_cases (h : groupDecision row m = true) :
    row.groupClock < m.hlc ∨
      m.fields.lookup fieldState = some (.str statePacked) ∧
        row.fields fieldState = .str statePackingNow := by
  unfold groupDecision at h
  cases hs : m.fields.lookup fieldState with
  | none => simp only [hs, decide_eq_true_eq] at h; exact .inl h
  | some incoming =>
    simp only [hs] at h
    split at h
    case isTrue hpk => exact .inr ⟨by rw [hpk.1], hpk.2⟩
    case isFalse =>
      split at h
      · cases h
      · exact .inl (of_decide_eq_true h)

/-- A field that is applied without such a rule is older than the mutation. -/
theorem lt_of_applied (hrow : row.present = true) (hno : ¬ row.Overridden m f)
    (happ : (merge row m).applied.lookup f = some v) : row.clockOf f < m.hlc := by
  have hop : m.op ≠ .delete := by
    intro hop
    rw [merge_applied_delete hop] at happ
    cases happ
  rw [merge_applied_lookup hop hrow, Option.filter_eq_some_iff, decide_eq_true_eq] at happ
  obtain ⟨hv, hadm⟩ := happ
  rcases hadm with hadd | ⟨hf, hg⟩ | ⟨-, -, hlt⟩
  · exact absurd ⟨hop, v, hv, .inl hadd⟩ hno
  · rcases hf with hf | hf
    · rcases groupDecision_cases hg with hlt | hpk
      · exact (clockOf_le_groupClock hf).trans_lt hlt
      · exact absurd ⟨hop, v, hv, .inr (.inl ⟨hf, hpk⟩)⟩ hno
    · exact absurd ⟨hop, v, hv, .inr (.inr ⟨hf, hg⟩)⟩ hno
  · exact hlt

/-- Such a rule applies the field. -/
theorem applied_of_overridden (hrow : row.present = true) (h : row.Overridden m f) :
    ∃ v, (merge row m).applied.lookup f = some v := by
  obtain ⟨hop, v, hv, hrule⟩ := h
  refine ⟨v, ?_⟩
  rw [merge_applied_lookup hop hrow, hv, Option.filter_eq_some_iff]
  refine ⟨rfl, decide_eq_true ?_⟩
  rcases hrule with hadd | ⟨hf, hpk⟩ | ⟨hf, hg⟩
  · exact .inl hadd
  · refine .inr (.inl ⟨.inl hf, ?_⟩)
    simp [groupDecision, hpk.1, hpk.2]
  · exact .inr (.inl ⟨.inr hf, hg⟩)

end

section
variable (readBack : String → Value → Value) {row : Row} {m : Mutation} {f : String}

theorem clockOf_merged_of_applied {v : Value} (happ : (merge row m).applied.lookup f = some v) :
    (row.merged readBack m).clockOf f = m.hlc := by
  simp [Row.clockOf, Row.merged, merge_clocks, happ]

theorem clockOf_le_merged_of_not_applied (happ : (merge row m).applied.lookup f = none) :
    row.clockOf f ≤ (row.merged readBack m).clockOf f := by
  simp only [Row.clockOf, Row.merged, merge_clocks, happ, merge_rowHLC]
  cases row.clocks f with
  | none => exact le_max_left _ _
  | some c => exact le_rfl

/-- **A field clock goes back exactly when a rule that does not ask it lets an older mutation win**,
and then it becomes the clock of that mutation. -/
theorem clockOf_lt_iff (hrow : row.present = true) :
    ((row.merged readBack m).clockOf f < row.clockOf f ↔
      row.Overridden m f ∧ m.hlc < row.clockOf f) ∧
    (row.Overridden m f → (row.merged readBack m).clockOf f = m.hlc) := by
  have hover (h : row.Overridden m f) : (row.merged readBack m).clockOf f = m.hlc := by
    obtain ⟨v, happ⟩ := applied_of_overridden hrow h
    exact clockOf_merged_of_applied readBack happ
  refine ⟨⟨fun hlt => ?_, fun ⟨h, hlt⟩ => by rwa [hover h]⟩, hover⟩
  cases happ : (merge row m).applied.lookup f with
  | none => exact absurd hlt (clockOf_le_merged_of_not_applied readBack happ).not_gt
  | some v =>
    rw [clockOf_merged_of_applied readBack happ] at hlt
    refine ⟨?_, hlt⟩
    by_contra hno
    exact lt_asymm hlt (lt_of_applied hrow hno happ)

/-- `persist` leaves the merged row, or the row as it was when nothing applied. -/
theorem persisted_cases (row : Row) (m : Mutation) :
    row.persisted readBack m = row.merged readBack m ∨
      row.persisted readBack m = row ∧ ∀ f, (merge row m).applied.lookup f = none := by
  unfold Row.persisted
  split
  case isTrue h =>
    refine .inr ⟨rfl, fun f => ?_⟩
    rw [AList.lookup, List.isEmpty_iff.1 h]
    rfl
  case isFalse => exact .inl rfl

/-- A run of either merge keeps a field clock that no such rule touches. -/
theorem clockOf_le_foldl {S : Row → Mutation → Row}
    (hS : S = Row.merged readBack ∨ S = Row.persisted readBack) {ms : List Mutation}
    (hrow : row.present = true)
    (hno : ∀ pre w post, ms = pre ++ w :: post → ¬ (pre.foldl S row).Overridden w f) :
    (ms.foldl S row).present = true ∧ row.clockOf f ≤ (ms.foldl S row).clockOf f := by
  induction ms generalizing row with
  | nil => exact ⟨hrow, le_rfl⟩
  | cons m ms ih =>
    have hm : ¬ row.Overridden m f := hno [] m ms rfl
    have hmerged : row.clockOf f ≤ (row.merged readBack m).clockOf f :=
      not_lt.1 fun hlt => hm ((clockOf_lt_iff readBack hrow).1.1 hlt).1
    have hstep : (S row m).present = true ∧ row.clockOf f ≤ (S row m).clockOf f := by
      rcases hS with rfl | rfl
      · exact ⟨hrow, hmerged⟩
      · rcases persisted_cases readBack row m with h | ⟨h, -⟩ <;> rw [h]
        · exact ⟨hrow, hmerged⟩
        · exact ⟨hrow, le_rfl⟩
    obtain ⟨hp, hle⟩ := ih hstep.1 fun pre w post heq => hno (m :: pre) w post (by rw [heq]; rfl)
    exact ⟨hp, hstep.2.trans hle⟩

/-- **Clocks do not go back, except where a rule sets the clock aside.** A merge never lowers the row
clock, and it lowers a field clock exactly when it applies an older mutation by a rule that does not
ask the field's clock. Over any run of merges in which no such rule touches a field, a write that is
not newer than a clock the field carried never replaces its value. -/
theorem clocks_monotone_unless_overridden :
    (∀ (row : Row) (m : Mutation), row.hlc ≤ (merge row m).rowHLC) ∧
    (∀ (row : Row) (m : Mutation) (f : String), row.present = true →
      ((row.merged readBack m).clockOf f < row.clockOf f ↔
        row.Overridden m f ∧ m.hlc < row.clockOf f) ∧
      (row.Overridden m f → (row.merged readBack m).clockOf f = m.hlc)) ∧
    ∀ S, S = Row.merged readBack ∨ S = Row.persisted readBack →
      ∀ (row : Row) (ms : List Mutation) (w : Mutation) (f : String) (c : HLC),
        row.present = true → c ≤ row.clockOf f → w.hlc ≤ c →
        (∀ pre w' post, ms ++ [w] = pre ++ w' :: post → ¬ (pre.foldl S row).Overridden w' f) →
        (merge (ms.foldl S row) w).applied.lookup f = none := by
  refine ⟨fun row m => by simp, fun row m f hrow => clockOf_lt_iff readBack hrow, ?_⟩
  intro S hS row ms w f c hrow hc hw hno
  obtain ⟨hp, hle⟩ := clockOf_le_foldl readBack hS hrow
    fun pre w' post (heq : ms = pre ++ w' :: post) =>
      hno pre w' (post ++ [w]) (by rw [heq, List.append_assoc]; rfl)
  cases happ : (merge (ms.foldl S row) w).applied.lookup f with
  | none => rfl
  | some v =>
    have hlt := lt_of_applied hp (hno ms w [] rfl) happ
    exact absurd (hc.trans hle) (not_le.2 (hlt.trans_le hw))

end

/-- A flag that is set at an older clock takes the flag's clock back. -/
theorem additive_flag_lowers_clock : ¬ ∀ (row : Row) (m : Mutation) (f : String),
    row.present = true → m.op = .upsert →
    row.clockOf f ≤ (row.merged (fun _ v => v) m).clockOf f ∧
      row.hlc ≤ (row.merged (fun _ v => v) m).hlc := by
  intro h
  let row : Row := ⟨true, fun _ => .int 1, ascii "1760000000009-0000-a1b2c3d4",
    fun _ => some (ascii "1760000000009-0000-a1b2c3d4")⟩
  let m : Mutation := ⟨"m1", .upsert, "trip_items", "i", .decode [("flag_unused", .bool true)],
    ascii "1760000000003-0000-00000001"⟩
  have := (h row m "flag_unused" rfl rfl).1
  revert this
  decide +kernel

end JitPack
