import JitPack.Lib.LastWriter
import JitPack.Sync.Merge

/-!
# Order independence of the merge

Upserts of plain fields may arrive in any order: `merge_order_independent`. A field of a row is a
last-writer-wins cell (`Row.cell`), and a mutation that carries plain fields only writes the cells
of the fields it names (`cell_merged`), so two mutations with different clocks commute
(`merged_comm`). The row clock needs an argument of its own, since `persist` writes nothing at all
when no field of a mutation applies: which mutations are written depends on the order, but the
greatest clock among them does not (`persisted_comm`).
-/

namespace JitPack

open LastWriter

/-- A field without a rule of its own: no additive flag, no part of the state group or its record. -/
def Plain (f : String) : Prop := f ∉ additiveFields ∧ f ∉ stateGroup ∧ f ∉ stateRecord

instance : DecidablePred Plain := fun f => by unfold Plain; infer_instance

section
variable (readBack : String → Value → Value)

/-- The row that a merge of `m` describes. `readBack f v` is what the column `f` gives back for the
value `v` stored in it. -/
def Row.merged (row : Row) (m : Mutation) : Row :=
  let res := merge row m
  { row with
    fields := fun f => ((res.applied.lookup f).map (readBack f)).getD (row.fields f)
    hlc := res.rowHLC
    clocks := res.clocks }

/-- The row that `persist` leaves of a stored row: a mutation that applies no field writes nothing,
the row clock included. -/
def Row.persisted (row : Row) (m : Mutation) : Row :=
  if (merge row m).applied.entries.isEmpty then row else row.merged readBack m

end

/-- The field of a row as a cell. -/
def Row.cell (row : Row) (f : String) : Cell HLC Value := ⟨row.clockOf f, row.fields f⟩

@[simp] theorem Row.cell_clock (row : Row) (f : String) : (row.cell f).clock = row.clockOf f := rfl

/-- A stored row with a clock for each of the columns `cols`. -/
structure Row.Clocked (cols : List String) (row : Row) : Prop where
  present : row.present = true
  clocks : ∀ f ∈ cols, (row.clocks f).isSome

/-- A mutation that writes plain fields among the columns `cols`. -/
structure Mutation.PlainIn (cols : List String) (m : Mutation) : Prop where
  op : m.op ≠ .delete
  fields : ∀ f ∈ m.fields, f ∈ cols ∧ Plain f

/-- Some field of the mutation is newer than the row's. -/
def Row.Beaten (row : Row) (m : Mutation) : Prop := ∃ f ∈ m.fields, row.clockOf f < m.hlc

section
variable (readBack : String → Value → Value) {cols : List String} {row : Row} {m m' : Mutation}
variable {f : String} {v : Value}

theorem admits_iff_of_plain (hf : Plain f) : row.admits m f v ↔ row.clockOf f < m.hlc := by
  simp [Row.admits, hf.1, hf.2.1, hf.2.2]

/-- What a plain mutation applies. -/
theorem applied_lookup (hrow : row.Clocked cols) (hm : m.PlainIn cols) (f : String) :
    (merge row m).applied.lookup f =
      (m.fields.lookup f).filter (fun _ => row.clockOf f < m.hlc) := by
  rw [merge_applied_lookup hm.op hrow.present]
  cases h : m.fields.lookup f with
  | none => rfl
  | some v =>
    have hf : Plain f := (hm.fields f (AList.lookup_isSome.1 (by rw [h]; rfl))).2
    simp [Option.filter, admits_iff_of_plain hf]

theorem applied_isEmpty_iff (hrow : row.Clocked cols) (hm : m.PlainIn cols) :
    (merge row m).applied.entries.isEmpty = true ↔ ¬ row.Beaten m := by
  rw [List.isEmpty_iff]
  constructor
  · rintro hemp ⟨f, hf, hlt⟩
    obtain ⟨v, hv⟩ := Option.isSome_iff_exists.1 (AList.lookup_isSome.2 hf)
    have := applied_lookup hrow hm f
    rw [hv, AList.lookup, hemp] at this
    simp [Option.filter, hlt] at this
  · intro hnb
    rw [List.eq_nil_iff_forall_not_mem]
    rintro ⟨f, v⟩ he
    have hv : (merge row m).applied.lookup f = some v := AList.mem_lookup_iff.2 he
    rw [applied_lookup hrow hm, Option.filter_eq_some_iff] at hv
    exact hnb ⟨f, AList.lookup_isSome.1 (by rw [hv.1]; rfl), of_decide_eq_true hv.2⟩

/-- A plain mutation writes the cells of the fields it names. -/
theorem cell_merged (hrow : row.Clocked cols) (hm : m.PlainIn cols) (hf : f ∈ cols) :
    (row.merged readBack m).cell f =
      match m.fields.lookup f with
      | none => row.cell f
      | some v => (row.cell f).put (m.hlc, readBack f v) := by
  have happ := applied_lookup hrow hm f
  obtain ⟨c, hc⟩ := Option.isSome_iff_exists.1 (hrow.clocks f hf)
  cases h : m.fields.lookup f with
  | none => simp [Row.cell, Row.merged, Row.clockOf, merge_clocks, happ, h, hc]
  | some v =>
    by_cases hlt : row.clockOf f < m.hlc
    · have happ : (merge row m).applied.lookup f = some v := by simp [happ, h, Option.filter, hlt]
      have hput : (row.cell f).put (m.hlc, readBack f v) = ⟨m.hlc, readBack f v⟩ :=
        Cell.put_of_lt hlt
      dsimp only
      rw [hput]
      simp [Row.cell, Row.merged, Row.clockOf, merge_clocks, happ]
    · have happ : (merge row m).applied.lookup f = none := by simp [happ, h, Option.filter, hlt]
      have hput : (row.cell f).put (m.hlc, readBack f v) = row.cell f :=
        Cell.put_of_le (not_lt.1 hlt)
      dsimp only
      rw [hput]
      simp [Row.cell, Row.merged, Row.clockOf, merge_clocks, happ, hc]

/-- Outside the columns nothing changes, and a clock stays on record where there was one. -/
theorem merged_spec (hrow : row.Clocked cols) (hm : m.PlainIn cols) :
    (row.merged readBack m).present = true ∧
    (∀ f, ((row.merged readBack m).clocks f).isSome = (row.clocks f).isSome) ∧
    (∀ f ∉ cols, (row.merged readBack m).fields f = row.fields f ∧
      (row.merged readBack m).clocks f = row.clocks f) ∧
    (row.merged readBack m).hlc = max row.hlc m.hlc := by
  have hout : ∀ f ∉ cols, (merge row m).applied.lookup f = none := by
    intro f hf
    have : m.fields.lookup f = none := AList.lookup_eq_none.2 fun h => hf (hm.fields f h).1
    rw [applied_lookup hrow hm, this]
    rfl
  refine ⟨hrow.present, fun f => ?_, fun f hf => ?_, by simp [Row.merged]⟩
  · by_cases hf : f ∈ cols
    · simp only [Row.merged, merge_clocks]
      split <;> simp [hrow.clocks f hf]
    · simp [Row.merged, merge_clocks, hout f hf]
  · simp [Row.merged, merge_clocks, hout f hf]

theorem clocked_merged (hrow : row.Clocked cols) (hm : m.PlainIn cols) :
    (row.merged readBack m).Clocked cols := by
  obtain ⟨hp, hc, -⟩ := merged_spec readBack hrow hm
  exact ⟨hp, fun f hf => by rw [hc]; exact hrow.clocks f hf⟩

/-- A clock on record is the clock of the cell. -/
theorem clocks_eq_cell (hrow : row.Clocked cols) (hf : f ∈ cols) :
    row.clocks f = some (row.cell f).clock := by
  obtain ⟨c, hc⟩ := Option.isSome_iff_exists.1 (hrow.clocks f hf)
  simp [Row.cell, Row.clockOf, hc]

/-- Two rows are the same if their cells are, and what lies outside the columns is. -/
theorem row_ext {row' : Row} (hrow : row.Clocked cols) (hrow' : row'.Clocked cols)
    (hcell : ∀ f ∈ cols, row.cell f = row'.cell f)
    (hout : ∀ f ∉ cols, row.fields f = row'.fields f ∧ row.clocks f = row'.clocks f)
    (hhlc : row.hlc = row'.hlc) : row = row' := by
  have hfields : row.fields = row'.fields := by
    funext f
    by_cases hf : f ∈ cols
    · exact congrArg Cell.value (hcell f hf)
    · exact (hout f hf).1
  have hclocks : row.clocks = row'.clocks := by
    funext f
    by_cases hf : f ∈ cols
    · rw [clocks_eq_cell hrow hf, clocks_eq_cell hrow' hf, hcell f hf]
    · exact (hout f hf).2
  obtain ⟨p, fs, h, cs⟩ := row
  obtain ⟨p', fs', h', cs'⟩ := row'
  have hp : p = p' := hrow.present.trans hrow'.present.symm
  simp_all

/-- **Merges of plain mutations with different clocks commute.** -/
theorem merged_comm (hrow : row.Clocked cols) (hm : m.PlainIn cols) (hm' : m'.PlainIn cols)
    (hne : m.hlc ≠ m'.hlc) :
    (row.merged readBack m).merged readBack m' = (row.merged readBack m').merged readBack m := by
  have hc := clocked_merged readBack hrow hm
  have hc' := clocked_merged readBack hrow hm'
  refine row_ext (clocked_merged readBack hc hm') (clocked_merged readBack hc' hm) (fun f hf => ?_) (fun f hf => ?_) ?_
  · rw [cell_merged readBack hc hm' hf, cell_merged readBack hrow hm hf, cell_merged readBack hc' hm hf,
      cell_merged readBack hrow hm' hf]
    cases m.fields.lookup f <;> cases m'.fields.lookup f <;> try rfl
    exact Cell.put_comm hne
  · obtain ⟨-, -, h1, -⟩ := merged_spec readBack hc hm'
    obtain ⟨-, -, h2, -⟩ := merged_spec readBack hrow hm
    obtain ⟨-, -, h3, -⟩ := merged_spec readBack hc' hm
    obtain ⟨-, -, h4, -⟩ := merged_spec readBack hrow hm'
    rw [(h1 f hf).1, (h1 f hf).2, (h2 f hf).1, (h2 f hf).2, (h3 f hf).1, (h3 f hf).2,
      (h4 f hf).1, (h4 f hf).2]
    exact ⟨rfl, rfl⟩
  · rw [(merged_spec readBack hc hm').2.2.2, (merged_spec readBack hrow hm).2.2.2, (merged_spec readBack hc' hm).2.2.2,
      (merged_spec readBack hrow hm').2.2.2, max_right_comm]

/-! ## The row as it is persisted -/

theorem persisted_of_beaten (hrow : row.Clocked cols) (hm : m.PlainIn cols) (h : row.Beaten m) :
    row.persisted readBack m = row.merged readBack m := by
  rw [Row.persisted, if_neg (by rw [applied_isEmpty_iff hrow hm]; exact not_not.2 h)]

theorem persisted_of_not_beaten (hrow : row.Clocked cols) (hm : m.PlainIn cols)
    (h : ¬ row.Beaten m) : row.persisted readBack m = row := by
  rw [Row.persisted, if_pos ((applied_isEmpty_iff hrow hm).2 h)]

theorem clocked_persisted (hrow : row.Clocked cols) (hm : m.PlainIn cols) :
    (row.persisted readBack m).Clocked cols := by
  by_cases h : row.Beaten m
  · rw [persisted_of_beaten readBack hrow hm h]; exact clocked_merged readBack hrow hm
  · rw [persisted_of_not_beaten readBack hrow hm h]; exact hrow

/-- The clock of a cell after a merge is not below what it was, and not above the mutation's if the
mutation is the newer of the two. -/
theorem clockOf_merged (hrow : row.Clocked cols) (hm : m.PlainIn cols) (hf : f ∈ cols) :
    (row.merged readBack m).clockOf f =
      if f ∈ m.fields then max (row.clockOf f) m.hlc else row.clockOf f := by
  have h := congrArg Cell.clock (cell_merged readBack hrow hm hf)
  cases hl : m.fields.lookup f with
  | none =>
    rw [if_neg (AList.lookup_eq_none.1 hl)]
    simpa [hl] using h
  | some v =>
    rw [if_pos (AList.lookup_isSome.1 (by rw [hl]; rfl))]
    simpa [hl] using h

/-- An older mutation does not decide whether a newer one applies. -/
theorem beaten_merged_of_lt (hrow : row.Clocked cols) (hm : m.PlainIn cols) (hm' : m'.PlainIn cols)
    (hlt : m.hlc < m'.hlc) : (row.merged readBack m).Beaten m' ↔ row.Beaten m' := by
  unfold Row.Beaten
  refine exists_congr fun f => and_congr_right fun hf => ?_
  rw [clockOf_merged readBack hrow hm (hm'.fields f hf).1]
  split
  · rw [max_lt_iff]
    exact and_iff_left hlt
  · rfl

/-- What beats the row after a merge beat it before. -/
theorem beaten_of_beaten_merged (hrow : row.Clocked cols) (hm : m.PlainIn cols)
    (hm' : m'.PlainIn cols) (h : (row.merged readBack m).Beaten m') : row.Beaten m' := by
  obtain ⟨f, hf, hlt⟩ := h
  rw [clockOf_merged readBack hrow hm (hm'.fields f hf).1] at hlt
  refine ⟨f, hf, lt_of_le_of_lt ?_ hlt⟩
  split
  · exact le_max_left _ _
  · exact le_rfl

/-- A merge that applies nothing to a row at least as new changes nothing. -/
theorem merged_of_not_beaten (hrow : row.Clocked cols) (hm : m.PlainIn cols) (h : ¬ row.Beaten m)
    (hle : m.hlc ≤ row.hlc) : row.merged readBack m = row := by
  have happ : ∀ f, (merge row m).applied.lookup f = none := by
    have := List.isEmpty_iff.1 ((applied_isEmpty_iff hrow hm).2 h)
    intro f
    rw [AList.lookup, this]
    rfl
  have hclocks : (merge row m).clocks = row.clocks := by
    funext f
    rw [merge_clocks, happ]
    rfl
  have hfields : (fun f => (((merge row m).applied.lookup f).map (readBack f)).getD (row.fields f)) =
      row.fields := by
    funext f
    rw [happ]
    rfl
  rw [Row.merged, hclocks, hfields, merge_rowHLC, max_eq_left hle]

/-- **Persisted merges of plain mutations with different clocks commute.** -/
theorem persisted_comm_of_lt (hrow : row.Clocked cols) (hm : m.PlainIn cols)
    (hm' : m'.PlainIn cols) (hlt : m.hlc < m'.hlc) :
    (row.persisted readBack m).persisted readBack m' =
      (row.persisted readBack m').persisted readBack m := by
  have hc := clocked_merged readBack hrow hm
  have hc' := clocked_merged readBack hrow hm'
  by_cases hb' : row.Beaten m'
  · rw [persisted_of_beaten readBack hrow hm' hb']
    by_cases hb : row.Beaten m
    · rw [persisted_of_beaten readBack hrow hm hb,
        persisted_of_beaten readBack hc hm' ((beaten_merged_of_lt readBack hrow hm hm' hlt).2 hb'),
        merged_comm readBack hrow hm hm' hlt.ne]
      by_cases hbb : (row.merged readBack m').Beaten m
      · rw [persisted_of_beaten readBack hc' hm hbb]
      · -- the older mutation applies nothing after the newer one, which carried the row past it
        rw [persisted_of_not_beaten readBack hc' hm hbb]
        refine merged_of_not_beaten readBack hc' hm hbb ?_
        rw [(merged_spec readBack hrow hm').2.2.2]
        exact hlt.le.trans (le_max_right _ _)
    · have hbb : ¬ (row.merged readBack m').Beaten m := fun h =>
        hb (beaten_of_beaten_merged readBack hrow hm' hm h)
      rw [persisted_of_not_beaten readBack hrow hm hb, persisted_of_beaten readBack hrow hm' hb',
        persisted_of_not_beaten readBack hc' hm hbb]
  · rw [persisted_of_not_beaten readBack hrow hm' hb']
    by_cases hb : row.Beaten m
    · have hbb : ¬ (row.merged readBack m).Beaten m' := fun h =>
        hb' ((beaten_merged_of_lt readBack hrow hm hm' hlt).1 h)
      rw [persisted_of_beaten readBack hrow hm hb, persisted_of_not_beaten readBack hc hm' hbb]
    · rw [persisted_of_not_beaten readBack hrow hm hb, persisted_of_not_beaten readBack hrow hm' hb']

theorem persisted_comm (hrow : row.Clocked cols) (hm : m.PlainIn cols) (hm' : m'.PlainIn cols)
    (hne : m.hlc ≠ m'.hlc) : (row.persisted readBack m).persisted readBack m' =
      (row.persisted readBack m').persisted readBack m := by
  rcases lt_or_gt_of_ne hne with h | h
  · exact persisted_comm_of_lt readBack hrow hm hm' h
  · exact (persisted_comm_of_lt readBack hrow hm' hm h).symm

/-- A persisted mutation writes the same cells: where it writes nothing, no cell would have taken
its values. -/
theorem cell_persisted (hrow : row.Clocked cols) (hm : m.PlainIn cols) (hf : f ∈ cols) :
    (row.persisted readBack m).cell f =
      match m.fields.lookup f with
      | none => row.cell f
      | some v => (row.cell f).put (m.hlc, readBack f v) := by
  by_cases h : row.Beaten m
  · rw [persisted_of_beaten readBack hrow hm h, cell_merged readBack hrow hm hf]
  · rw [persisted_of_not_beaten readBack hrow hm h]
    cases hl : m.fields.lookup f with
    | none => rfl
    | some v =>
      refine (Cell.put_of_le (not_lt.1 fun hlt => h ⟨f, ?_, hlt⟩)).symm
      exact AList.lookup_isSome.1 (by rw [hl]; rfl)

/-! ## Runs of mutations -/

/-- The writes that a list of mutations makes to the field `f`. -/
def writes (f : String) (ms : List Mutation) : List (HLC × Value) :=
  ms.filterMap fun m => (m.fields.lookup f).map fun v => (m.hlc, readBack f v)

/-- A run of either merge leaves in a cell what the writes to it leave. -/
theorem cell_foldl {S : Row → Mutation → Row} {ms : List Mutation}
    (hclk : ∀ row m, row.Clocked cols → m.PlainIn cols → (S row m).Clocked cols)
    (hcell : ∀ row m, row.Clocked cols → m.PlainIn cols → (S row m).cell f =
      match m.fields.lookup f with
      | none => row.cell f
      | some v => (row.cell f).put (m.hlc, readBack f v))
    (hms : ∀ m ∈ ms, m.PlainIn cols) (hrow : row.Clocked cols) :
    (ms.foldl S row).Clocked cols ∧
      (ms.foldl S row).cell f = (writes readBack f ms).foldl Cell.put (row.cell f) := by
  induction ms generalizing row with
  | nil => exact ⟨hrow, rfl⟩
  | cons m ms ih =>
    have hm := hms m (.head _)
    obtain ⟨h1, h2⟩ := ih (fun m h => hms m (.tail _ h)) (hclk row m hrow hm)
    refine ⟨h1, ?_⟩
    rw [List.foldl_cons, h2, hcell row m hrow hm]
    cases hl : m.fields.lookup f <;> simp [writes, hl]

theorem pairwise_writes {ms : List Mutation} (hdist : (ms.map (·.hlc)).Nodup) :
    (writes readBack f ms).Pairwise fun w w' => w.1 ≠ w'.1 := by
  rw [List.Nodup, List.pairwise_map] at hdist
  refine List.Pairwise.filterMap _ (fun m m' hne w hw w' hw' => ?_) hdist
  simp only [Option.map_eq_some_iff] at hw hw'
  obtain ⟨v, -, rfl⟩ := hw
  obtain ⟨v', -, rfl⟩ := hw'
  exact hne

/-- **The merge does not depend on the order of arrival.** Plain mutations with distinct clocks leave
the same row in any two orders, whether the row is folded as `Merge` reports it or as `persist`
writes it. The two agree on the fields and their clocks, and a field holds the value of the newest
mutation that names it, or the stored one if that is at least as new. -/
theorem merge_order_independent (hrow : row.Clocked cols) {ms ms' : List Mutation}
    (hms : ∀ m ∈ ms, m.PlainIn cols) (hdist : (ms.map (·.hlc)).Nodup) (hperm : ms.Perm ms') :
    ms.foldl (Row.merged readBack) row = ms'.foldl (Row.merged readBack) row ∧
    ms.foldl (Row.persisted readBack) row = ms'.foldl (Row.persisted readBack) row ∧
    ∀ f ∈ cols,
      (ms.foldl (Row.persisted readBack) row).cell f = (ms.foldl (Row.merged readBack) row).cell f ∧
      (∀ w ∈ ms, ∀ v, w.fields.lookup f = some v →
        (∀ w' ∈ ms, f ∈ w'.fields → w'.hlc ≤ w.hlc) →
        (ms.foldl (Row.merged readBack) row).cell f =
          if row.clockOf f < w.hlc then ⟨w.hlc, readBack f v⟩ else row.cell f) ∧
      ((∀ w ∈ ms, f ∉ w.fields) → (ms.foldl (Row.merged readBack) row).cell f = row.cell f) := by
  have hcomm {S : Row → Mutation → Row}
      (hS : ∀ {row m m'}, row.Clocked cols → m.PlainIn cols → m'.PlainIn cols → m.hlc ≠ m'.hlc →
        S (S row m) m' = S (S row m') m) :
      ∀ row, row.Clocked cols → ∀ m ∈ ms, ∀ m' ∈ ms, S (S row m) m' = S (S row m') m := by
    intro row hrow m hm m' hm'
    by_cases heq : m.hlc = m'.hlc
    · rw [List.inj_on_of_nodup_map hdist hm hm' heq]
    · exact hS hrow (hms m hm) (hms m' hm') heq
  refine ⟨?_, ?_, fun f hf => ?_⟩
  · exact foldl_perm_of_invariant hperm
      (fun row hrow m hm => clocked_merged readBack hrow (hms m hm))
      (hcomm (merged_comm readBack)) hrow
  · exact foldl_perm_of_invariant hperm
      (fun row hrow m hm => clocked_persisted readBack hrow (hms m hm))
      (hcomm (persisted_comm readBack)) hrow
  · have hmerged := (cell_foldl readBack (fun _ _ => clocked_merged readBack)
      (fun _ _ hr hm => cell_merged readBack hr hm hf) hms hrow).2
    have hpersisted := (cell_foldl readBack (fun _ _ => clocked_persisted readBack)
      (fun _ _ hr hm => cell_persisted readBack hr hm hf) hms hrow).2
    refine ⟨hpersisted.trans hmerged.symm, fun w hw v hv hmax => ?_, fun hno => ?_⟩
    · have hmem : (w.hlc, readBack f v) ∈ writes readBack f ms :=
        List.mem_filterMap.2 ⟨w, hw, by rw [hv]; rfl⟩
      rw [hmerged, Cell.foldl_put_of_max (pairwise_writes readBack hdist) hmem]
      · exact ite_congr rfl (fun _ => rfl) (fun _ => rfl)
      · intro w' hw'
        obtain ⟨m', hm', heq⟩ := List.mem_filterMap.1 hw'
        obtain ⟨v', hv', rfl⟩ := Option.map_eq_some_iff.1 heq
        exact hmax m' hm' (AList.lookup_isSome.1 (by rw [hv']; rfl))
    · have hnil : writes readBack f ms = [] := by
        refine List.filterMap_eq_nil_iff.2 fun m hm => ?_
        rw [AList.lookup_eq_none.2 (hno m hm)]
        rfl
      rw [hmerged, hnil]
      rfl

end

/-- Two renamings of a trip and a change of its dates, out of order. -/
theorem merge_order_independent_renamed :
    let h (n : Nat) : HLC := HLC.format ⟨n, 0, ascii "a1b2c3d4"⟩
    let row : Row := ⟨true, fun _ => .null, h 3, fun _ => some (h 3)⟩
    let m₁ : Mutation := ⟨"m1", .upsert, "trips", "t", .decode [("title", .str "Rome")], h 4⟩
    let m₂ : Mutation := ⟨"m2", .upsert, "trips", "t",
      .decode [("title", .str "Roma"), ("starts_on", .str "2026-05-01")], h 5⟩
    ([m₂, m₁].foldl (Row.merged fun _ v => v) row).cell "title" = ⟨h 5, .str "Roma"⟩ := by
  intro h row m₁ m₂
  have hrow : row.Clocked ["title", "starts_on"] := ⟨rfl, fun _ _ => rfl⟩
  have hms : ∀ m ∈ [m₁, m₂], m.PlainIn ["title", "starts_on"] := by
    intro m hm
    simp only [List.mem_cons, List.not_mem_nil, or_false] at hm
    rcases hm with rfl | rfl
    · exact ⟨by decide, show ∀ f ∈ m₁.fields.keys, _ by decide⟩
    · exact ⟨by decide, show ∀ f ∈ m₂.fields.keys, _ by decide⟩
  have hind := merge_order_independent (fun _ v => v) hrow hms (by decide +kernel) (List.Perm.swap m₂ m₁ [])
  rw [← hind.1]
  refine ((hind.2.2 "title" (by decide)).2.1 m₂ (by simp) (.str "Roma") (by decide) ?_).trans ?_
  · intro w' hw' _
    simp only [List.mem_cons, List.not_mem_nil, or_false] at hw'
    rcases hw' with rfl | rfl <;> decide +kernel
  · exact if_pos (by decide +kernel)

/-- On a tie between the stored clock and the newest mutation the stored value stays. -/
theorem stored_value_wins_tie : ¬ ∀ (cols : List String) (row : Row) (ms : List Mutation),
    row.Clocked cols → (∀ m ∈ ms, m.PlainIn cols) → (ms.map (·.hlc)).Nodup →
    ∀ f ∈ cols, ∀ w ∈ ms, ∀ v, w.fields.lookup f = some v →
      (∀ w' ∈ ms, f ∈ w'.fields → w'.hlc ≤ w.hlc) →
      (ms.foldl (Row.merged fun _ v => v) row).fields f =
        if w.hlc < row.clockOf f then row.fields f else v := by
  intro h
  let m : Mutation := ⟨"m1", .upsert, "trips", "t", .decode [("title", .str "Rome")],
    ascii "0000000000003-0000-a1b2c3d4"⟩
  let row : Row := ⟨true, fun _ => .null, m.hlc, fun _ => some m.hlc⟩
  have hm : m.PlainIn ["title"] := ⟨by decide, show ∀ f ∈ m.fields.keys, _ by decide⟩
  have := h ["title"] row [m] ⟨rfl, fun _ _ => rfl⟩ (by simpa using hm) (by simp) "title" (by simp)
    m (by simp) (.str "Rome") (by decide) (by simp)
  revert this
  decide +kernel

end JitPack
