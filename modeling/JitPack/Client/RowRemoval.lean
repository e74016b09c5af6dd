import JitPack.Lib.Worklist
import JitPack.Client.Dependencies
import JitPack.Client.Refresh

/-!
# Removing rows together

A row that is removed takes along the rows that are on the list for its sake: those whose item depends on the item of
the removed row, where nothing that stays needs them. Of several rows that go together this is asked one by one, as if
the others were gone.

What the rows leave unneeded together is the greatest set that nothing outside it needs (`Unneeded`). A row that is
needed by two others may go with both and is then left behind, where neither alone accounts for it; so the plan
names the greatest set exactly if each of its rows has one target of its own (`OneTarget`, `planRemovals_iff`).
-/

namespace JitPack

namespace Removal

/-! ## The plan -/

/-- `RemovableRow`. The id of an item is not empty. -/
structure RemovableRow where
  id : String
  sourceItemId : Option ItemId
  state : ItemState
  packedCount : ℤ
  named : ∀ item ∈ sourceItemId, item.text ≠ ""
  deriving DecidableEq

/-- `RowRemoval`. -/
structure RowRemoval where
  packed : ℤ
  notes : ℕ
  companions : List RemovableRow
  deriving DecidableEq

/-- The items that depend on an item by one edge. -/
def dependentsBy (dependencies : List ItemDependency) (item : ItemId) : List ItemId :=
  (dependencies.filter (·.dependsOnItemId = item)).map (·.itemId)

theorem dependentsBy_subset (dependencies : List ItemDependency) (item : ItemId) :
    dependentsBy dependencies item ⊆ dependencies.map (·.itemId) :=
  List.map_subset _ (List.filter_subset_self _)

/-- `dependentsOf`. -/
def dependentsOf (itemId : ItemId) (dependencies : List ItemDependency) : List ItemId :=
  Worklist.search (dependentsBy dependencies) (dependencies.map (·.itemId)) (dependentsBy_subset dependencies) itemId

/-- What the anchor needs, if it is one. -/
def neededBy (main : RemovableRow) (dependents : List ItemId) (dependencies : List ItemDependency)
    (anchor : RemovableRow) : List ItemId :=
  match anchor.sourceItemId with
  | none => []
  | some item =>
    if anchor.id = main.id ∨ anchor.state = .skipped ∨ item ∈ dependents then [] else dependentsOf item dependencies

/-- `coSkipTargets`. -/
def coSkipTargets (main : RemovableRow) (rows : List RemovableRow) (dependencies : List ItemDependency) :
    List RemovableRow :=
  match main.sourceItemId with
  | none => []
  | some mainItem =>
    if mainItem.text = "" then []
    else
      let dependents := dependentsOf mainItem dependencies
      let stillNeeded := rows.flatMap (neededBy main dependents dependencies)
      rows.filter fun row => row.id ≠ main.id ∧
        (∃ item ∈ row.sourceItemId, item ∈ dependents ∧ item ∉ stillNeeded) ∧ row.state ≠ .skipped

/-- `planRemoval`. -/
def planRemoval (target : RemovableRow) (rows : List RemovableRow) (dependencies : List ItemDependency) (notes : ℕ) :
    RowRemoval where
  packed := target.packedCount
  notes := notes
  companions := coSkipTargets target rows dependencies

/-- A companion that is not known yet. -/
def pushCompanion (companions : List RemovableRow) (companion : RemovableRow) : List RemovableRow :=
  if companions.any (·.id = companion.id) then companions else companions ++ [companion]

/-- The rows as one target is asked about. -/
def restFor (removed : List String) (target : RemovableRow) (rows : List RemovableRow) : List RemovableRow :=
  rows.filter fun row => row.id = target.id ∨ row.id ∉ removed

/-- `planRemovals`. -/
def planRemovals (targets rows : List RemovableRow) (dependencies : List ItemDependency)
    (notesOf : RemovableRow → ℕ) : RowRemoval :=
  targets.foldl (fun removal target =>
    let plan := planRemoval target (restFor (targets.map (·.id)) target rows) dependencies (notesOf target)
    { packed := removal.packed + plan.packed
      notes := removal.notes + plan.notes
      companions := plan.companions.foldl pushCompanion removal.companions }) ⟨0, 0, []⟩

/-! ## What rows need -/

/-- The item of the row depends on the item of the other one. -/
def Needs (dependencies : List ItemDependency) (row other : RemovableRow) : Prop :=
  ∃ x ∈ row.sourceItemId, ∃ y ∈ other.sourceItemId,
    Relation.TransGen (DependsOn (dependencies.map (·.toDependencyEdge))) x y

/-- A row that is on the list and stays there, as far as the targets go. -/
def Live (targets rows : List RemovableRow) (row : RemovableRow) : Prop :=
  row ∈ rows ∧ row.id ∉ targets.map (·.id) ∧ row.state ≠ .skipped

section
variable (targets rows : List RemovableRow) (dependencies : List ItemDependency)

/-- Rows that are on the list for the targets' sake, and that no other row which stays needs. -/
structure Unneeded (S : Set RemovableRow) : Prop where
  live : ∀ row ∈ S, Live targets rows row
  needs : ∀ row ∈ S, ∃ target ∈ targets, Needs dependencies row target
  free : ∀ row ∈ S, ∀ other, Live targets rows other → other ∉ S → ¬ Needs dependencies row other

/-- Every row of which all that it needs goes with the targets has one target with which it all goes. -/
def OneTarget : Prop := ∀ row, Live targets rows row → (∃ target ∈ targets, Needs dependencies row target) →
  (∀ other, Live targets rows other → Needs dependencies row other →
    ∃ target ∈ targets, Needs dependencies other target) →
  ∃ target ∈ targets, Needs dependencies row target ∧
    ∀ other, Live targets rows other → Needs dependencies row other → Needs dependencies other target

/-- What the plan is for. -/
structure Together (notesOf : RemovableRow → ℕ) : Prop where
  greatest : IsGreatest {S | Unneeded targets rows dependencies S}
    {row | row ∈ (planRemovals targets rows dependencies notesOf).companions}
  single : ∀ target, targets = [target] →
    (planRemovals targets rows dependencies notesOf).companions = coSkipTargets target rows dependencies
  order : ∀ targets' rows', targets'.Perm targets → rows'.Perm rows →
    (planRemovals targets' rows' dependencies notesOf).companions.Perm
      (planRemovals targets rows dependencies notesOf).companions

end

section
variable {targets rows : List RemovableRow} {dependencies : List ItemDependency} {notesOf : RemovableRow → ℕ}
  {row other target : RemovableRow} {x y : ItemId}

theorem Needs.trans (h : Needs dependencies row other) (h' : Needs dependencies other target) :
    Needs dependencies row target := by
  obtain ⟨x, hx, y, hy, hxy⟩ := h
  obtain ⟨y', hy', z, hz, hyz⟩ := h'
  obtain rfl := Option.some.inj (hy.symm.trans hy')
  exact ⟨x, hx, z, hz, hxy.trans hyz⟩

/-- What one edge leads to. -/
theorem leads_dependentsBy : Worklist.Leads (dependentsBy dependencies) =
    Function.swap (DependsOn (dependencies.map (·.toDependencyEdge))) := by
  ext x y
  simp only [Worklist.Leads, dependentsBy, Function.swap, DependsOn, List.mem_map, List.mem_filter, decide_eq_true_eq]
  constructor
  · rintro ⟨d, ⟨hd, rfl⟩, rfl⟩
    exact ⟨d, hd, rfl⟩
  · rintro ⟨d, hd, heq⟩
    exact ⟨d, ⟨hd, congrArg DependencyEdge.dependsOnItemId heq⟩, congrArg DependencyEdge.itemId heq⟩

/-- **The dependents of an item.** -/
theorem mem_dependentsOf (hacyclic : Digraph.Acyclic (DependsOn (dependencies.map (·.toDependencyEdge)))) :
    x ∈ dependentsOf y dependencies ↔
      Relation.TransGen (DependsOn (dependencies.map (·.toDependencyEdge))) x y := by
  rw [dependentsOf, Worklist.mem_search, leads_dependentsBy, Relation.reflTransGen_swap,
    Relation.reflTransGen_iff_eq_or_transGen]
  constructor
  · rintro ⟨hne, rfl | htrans⟩
    · exact absurd rfl hne
    · exact htrans
  · intro htrans
    refine ⟨?_, .inr htrans⟩
    rintro rfl
    exact hacyclic x htrans

theorem mem_neededBy {dependents : List ItemId} : x ∈ neededBy target dependents dependencies other ↔
    other.id ≠ target.id ∧ other.state ≠ .skipped ∧
      ∃ y ∈ other.sourceItemId, y ∉ dependents ∧ x ∈ dependentsOf y dependencies := by
  unfold neededBy
  split
  · next hnone => simp [hnone]
  · next item hitem =>
    rw [hitem]
    split
    · next hnot =>
      refine iff_of_false List.not_mem_nil ?_
      rintro ⟨hid, hstate, y, hy, hitem', -⟩
      obtain rfl := Option.some.inj hy
      rcases hnot with h | h | h
      · exact hid h
      · exact hstate h
      · exact hitem' h
    · next hanchor =>
      simp only [not_or] at hanchor
      refine ⟨fun h => ⟨hanchor.1, hanchor.2.1, item, rfl, hanchor.2.2, h⟩, ?_⟩
      rintro ⟨-, -, y, hy, -, h⟩
      obtain rfl := Option.some.inj hy
      exact h

/-- The rows that follow one row off the list. -/
theorem mem_coSkipTargets (hacyclic : Digraph.Acyclic (DependsOn (dependencies.map (·.toDependencyEdge)))) :
    row ∈ coSkipTargets target rows dependencies ↔ (row ∈ rows ∧ row.id ≠ target.id ∧ row.state ≠ .skipped) ∧
      Needs dependencies row target ∧ ∀ other ∈ rows, other.id ≠ target.id → other.state ≠ .skipped →
        Needs dependencies row other → Needs dependencies other target := by
  unfold coSkipTargets
  split
  · next hnone =>
    refine iff_of_false List.not_mem_nil ?_
    rintro ⟨-, ⟨x, -, y, hy, -⟩, -⟩
    rw [hnone] at hy
    cases hy
  · next mainItem hmain =>
    rw [if_neg (target.named mainItem hmain)]
    simp only [List.mem_filter, decide_eq_true_eq, List.mem_flatMap, mem_neededBy, mem_dependentsOf hacyclic]
    constructor
    · rintro ⟨hrow, hid, ⟨x, hx, hxmain, hfree⟩, hstate⟩
      refine ⟨⟨hrow, hid, hstate⟩, ⟨x, hx, mainItem, hmain, hxmain⟩, fun other hother hid' hstate' hneeds => ?_⟩
      obtain ⟨x', hx', y, hy, hxy⟩ := hneeds
      obtain rfl := Option.some.inj (hx.symm.trans hx')
      by_contra hnot
      exact hfree ⟨other, hother, hid', hstate', y, hy, fun hy' => hnot ⟨y, hy, mainItem, hmain, hy'⟩, hxy⟩
    · rintro ⟨⟨hrow, hid, hstate⟩, ⟨x, hx, y, hy, hxy⟩, hfree⟩
      obtain rfl := Option.some.inj (hy.symm.trans hmain)
      refine ⟨hrow, hid, ⟨x, hx, hxy, ?_⟩, hstate⟩
      rintro ⟨other, hother, hid', hstate', z, hz, hnot, hxz⟩
      obtain ⟨z', hz', y', hy', hzy⟩ := hfree other hother hid' hstate' ⟨x, hx, z, hz, hxz⟩
      obtain rfl := Option.some.inj (hz.symm.trans hz')
      obtain rfl := Option.some.inj (hy.symm.trans hy')
      exact hnot hzy

/-! ## Several targets -/

theorem nodup_pushCompanion {companions : List RemovableRow} (h : (companions.map (·.id)).Nodup) :
    ((pushCompanion companions row).map (·.id)).Nodup := by
  unfold pushCompanion
  split
  · exact h
  · next hnew =>
    rw [List.map_append, List.map_singleton, List.nodup_append]
    refine ⟨h, List.nodup_singleton _, ?_⟩
    rintro id hid _ hlast rfl
    cases List.mem_singleton.1 hlast
    obtain ⟨known, hknown, hid⟩ := List.mem_map.1 hid
    exact hnew (List.any_eq_true.2 ⟨known, hknown, decide_eq_true hid⟩)

/-- Companions that are rows of one list are pushed as what they are. -/
theorem mem_foldl_pushCompanion (hids : (rows.map (·.id)).Nodup) {companions new : List RemovableRow}
    (hold : companions ⊆ rows) (hnew : new ⊆ rows) :
    row ∈ new.foldl pushCompanion companions ↔ row ∈ companions ∨ row ∈ new := by
  induction new generalizing companions with
  | nil => simp
  | cons c new ih =>
    obtain ⟨hc, hrest⟩ := List.cons_subset.1 hnew
    have hpush : row ∈ pushCompanion companions c ↔ row ∈ companions ∨ row = c := by
      unfold pushCompanion
      split
      · next hany =>
        obtain ⟨known, hknown, hid⟩ := List.any_eq_true.1 hany
        obtain rfl := List.inj_on_of_nodup_map hids (hold hknown) hc (of_decide_eq_true hid)
        exact ⟨.inl, fun h => h.elim id fun heq => heq ▸ hknown⟩
      · simp
    have hsub : pushCompanion companions c ⊆ rows := by
      unfold pushCompanion
      split
      · exact hold
      · exact List.append_subset.2 ⟨hold, List.cons_subset.2 ⟨hc, List.nil_subset _⟩⟩
    rw [List.foldl_cons, ih hsub hrest, hpush, List.mem_cons, or_assoc]

theorem nodup_foldl_pushCompanion {companions new : List RemovableRow} (h : (companions.map (·.id)).Nodup) :
    ((new.foldl pushCompanion companions).map (·.id)).Nodup := by
  induction new generalizing companions with
  | nil => exact h
  | cons c new ih => exact ih (nodup_pushCompanion h)

theorem coSkipTargets_sublist : (coSkipTargets target rows dependencies).Sublist rows := by
  unfold coSkipTargets
  split
  · exact List.nil_sublist _
  · split
    · exact List.nil_sublist _
    · exact List.filter_sublist

/-- The companions of a plan. -/
theorem mem_companions (hids : (rows.map (·.id)).Nodup) :
    row ∈ (planRemovals targets rows dependencies notesOf).companions ↔
      ∃ target ∈ targets, row ∈ coSkipTargets target (restFor (targets.map (·.id)) target rows) dependencies := by
  have hrest : ∀ target, coSkipTargets target (restFor (targets.map (·.id)) target rows) dependencies ⊆ rows :=
    fun target => List.Subset.trans coSkipTargets_sublist.subset (List.filter_subset_self _)
  have hfold : ∀ (ts : List RemovableRow) (removal : RowRemoval), removal.companions ⊆ rows →
      (row ∈ (ts.foldl (fun removal target =>
        let plan := planRemoval target (restFor (targets.map (·.id)) target rows) dependencies (notesOf target)
        { packed := removal.packed + plan.packed
          notes := removal.notes + plan.notes
          companions := plan.companions.foldl pushCompanion removal.companions : RowRemoval }) removal).companions ↔
        row ∈ removal.companions ∨ ∃ target ∈ ts,
          row ∈ coSkipTargets target (restFor (targets.map (·.id)) target rows) dependencies) := by
    intro ts
    induction ts with
    | nil => simp
    | cons target ts ih =>
      intro removal hsub
      rw [List.foldl_cons, ih]
      · simp only [planRemoval, mem_foldl_pushCompanion hids hsub (hrest target), List.mem_cons,
          exists_eq_or_imp, or_assoc]
      · intro r hr
        rcases (mem_foldl_pushCompanion hids hsub (hrest target)).1 hr with hr | hr
        · exact hsub hr
        · exact hrest target hr
  exact (hfold targets ⟨0, 0, []⟩ (List.nil_subset _)).trans (by simp)

/-- **A companion goes with one target, and so does all that it needs.** -/
theorem mem_companions_iff (hids : (rows.map (·.id)).Nodup)
    (hacyclic : Digraph.Acyclic (DependsOn (dependencies.map (·.toDependencyEdge)))) :
    row ∈ (planRemovals targets rows dependencies notesOf).companions ↔ Live targets rows row ∧
      ∃ target ∈ targets, Needs dependencies row target ∧
        ∀ other, Live targets rows other → Needs dependencies row other → Needs dependencies other target := by
  have hrest : ∀ target ∈ targets, ∀ r : RemovableRow, r ∈ restFor (targets.map (·.id)) target rows ∧ r.id ≠ target.id ↔
      r ∈ rows ∧ r.id ∉ targets.map (·.id) := by
    intro target htarget r
    simp only [restFor, List.mem_filter, decide_eq_true_eq]
    constructor
    · rintro ⟨⟨hr, hid⟩, hne⟩
      exact ⟨hr, hid.resolve_left hne⟩
    · rintro ⟨hr, hid⟩
      exact ⟨⟨hr, .inr hid⟩, fun heq => hid (heq ▸ List.mem_map_of_mem htarget)⟩
  simp only [mem_companions hids, mem_coSkipTargets hacyclic]
  constructor
  · rintro ⟨target, htarget, ⟨hrow, hid, hstate⟩, hneeds, hall⟩
    obtain ⟨hmem, hnot⟩ := (hrest target htarget row).1 ⟨hrow, hid⟩
    refine ⟨⟨hmem, hnot, hstate⟩, target, htarget, hneeds, ?_⟩
    rintro other ⟨hother, hnot', hstate'⟩ hneeds'
    obtain ⟨hother', hid'⟩ := (hrest target htarget other).2 ⟨hother, hnot'⟩
    exact hall other hother' hid' hstate' hneeds'
  · rintro ⟨⟨hrow, hnot, hstate⟩, target, htarget, hneeds, hall⟩
    obtain ⟨hmem, hid⟩ := (hrest target htarget row).2 ⟨hrow, hnot⟩
    refine ⟨target, htarget, ⟨hmem, hid, hstate⟩, hneeds, fun other hother hid' hstate' hneeds' => ?_⟩
    obtain ⟨hother', hnot'⟩ := (hrest target htarget other).1 ⟨hother, hid'⟩
    exact hall other ⟨hother', hnot', hstate'⟩ hneeds'

theorem nodup_companions : ((planRemovals targets rows dependencies notesOf).companions.map (·.id)).Nodup := by
  have hfold : ∀ (ts : List RemovableRow) (removal : RowRemoval), (removal.companions.map (·.id)).Nodup →
      ((ts.foldl (fun removal target =>
        let plan := planRemoval target (restFor (targets.map (·.id)) target rows) dependencies (notesOf target)
        { packed := removal.packed + plan.packed
          notes := removal.notes + plan.notes
          companions := plan.companions.foldl pushCompanion removal.companions : RowRemoval })
        removal).companions.map (·.id)).Nodup := by
    intro ts
    induction ts with
    | nil => exact fun _ h => h
    | cons target ts ih => exact fun removal h => ih _ (nodup_foldl_pushCompanion h)
  exact hfold targets ⟨0, 0, []⟩ List.nodup_nil

/-! ## What is left unneeded -/

/-- Everything that the targets leave unneeded. -/
def unneeded (targets rows : List RemovableRow) (dependencies : List ItemDependency) : Set RemovableRow :=
  {row | Live targets rows row ∧ (∃ target ∈ targets, Needs dependencies row target) ∧
    ∀ other, Live targets rows other → Needs dependencies row other →
      ∃ target ∈ targets, Needs dependencies other target}

theorem isGreatest_unneeded :
    IsGreatest {S | Unneeded targets rows dependencies S} (unneeded targets rows dependencies) := by
  constructor
  · refine ⟨fun row h => h.1, fun row h => h.2.1, ?_⟩
    rintro row ⟨-, -, hall⟩ other hlive hnot hneeds
    refine hnot ⟨hlive, hall other hlive hneeds, fun third hthird hneeds' => ?_⟩
    exact hall third hthird (hneeds.trans hneeds')
  · rintro S hS row hrow
    refine ⟨hS.live row hrow, hS.needs row hrow, fun other hlive hneeds => ?_⟩
    by_contra hnot
    exact hS.free row hrow other hlive (fun hmem => hnot (hS.needs other hmem)) hneeds

/-- The companions are among them, and all of them exactly if each has one target of its own. -/
theorem companions_eq_iff (notesOf : RemovableRow → ℕ) (hids : (rows.map (·.id)).Nodup)
    (hacyclic : Digraph.Acyclic (DependsOn (dependencies.map (·.toDependencyEdge)))) :
    {row | row ∈ (planRemovals targets rows dependencies notesOf).companions} = unneeded targets rows dependencies ↔
      OneTarget targets rows dependencies := by
  constructor
  · intro h row hlive hneeds hall
    have hmem : row ∈ {row | row ∈ (planRemovals targets rows dependencies notesOf).companions} :=
      h ▸ ⟨hlive, hneeds, hall⟩
    exact ((mem_companions_iff hids hacyclic).1 hmem).2
  · intro h
    ext row
    refine (mem_companions_iff hids hacyclic).trans ⟨?_, fun hrow => ⟨hrow.1, h row hrow.1 hrow.2.1 hrow.2.2⟩⟩
    rintro ⟨hlive, target, htarget, hneeds, hall⟩
    exact ⟨hlive, ⟨target, htarget, hneeds⟩, fun other hother hneeds' => ⟨target, htarget, hall other hother hneeds'⟩⟩

theorem live_perm {targets' rows' : List RemovableRow} (htargets : targets'.Perm targets) (hrows : rows'.Perm rows) :
    Live targets' rows' row ↔ Live targets rows row := by
  simp only [Live, hrows.mem_iff, (htargets.map (·.id)).mem_iff]

/-- A target on its own. -/
theorem companions_singleton (hids : (rows.map (·.id)).Nodup) :
    (planRemovals [target] rows dependencies notesOf).companions = coSkipTargets target rows dependencies := by
  have hrest : restFor ([target].map (·.id)) target rows = rows :=
    List.filter_eq_self.2 fun row _ => by simp [em]
  have hpush : ∀ new companions : List RemovableRow, ((companions ++ new).map (·.id)).Nodup →
      new.foldl pushCompanion companions = companions ++ new := by
    intro new
    induction new with
    | nil => simp
    | cons c new ih =>
      intro companions h
      have hc : pushCompanion companions c = companions ++ [c] := by
        refine if_neg fun hany => ?_
        obtain ⟨known, hknown, hid⟩ := List.any_eq_true.1 hany
        rw [List.map_append, List.nodup_append] at h
        exact h.2.2 _ (List.mem_map_of_mem hknown) _ (List.mem_map_of_mem List.mem_cons_self) (of_decide_eq_true hid)
      rw [List.foldl_cons, hc, ih, List.append_assoc, List.singleton_append]
      rwa [List.append_assoc, List.singleton_append]
  have hsub : ((coSkipTargets target rows dependencies).map (·.id)).Nodup :=
    hids.sublist (coSkipTargets_sublist.map _)
  show (coSkipTargets target (restFor ([target].map (·.id)) target rows) dependencies).foldl pushCompanion [] = _
  rw [hrest, hpush (coSkipTargets target rows dependencies) [] hsub, List.nil_append]

end

/-- **Removing rows together.** The plan names the rows that its targets leave unneeded together exactly if each of them
goes with one target, and all that it needs with it. -/
theorem planRemovals_iff (targets rows : List RemovableRow) (dependencies : List ItemDependency)
    (notesOf : RemovableRow → ℕ) (hids : (rows.map (·.id)).Nodup)
    (hacyclic : Digraph.Acyclic (DependsOn (dependencies.map (·.toDependencyEdge)))) :
    Together targets rows dependencies notesOf ↔ OneTarget targets rows dependencies := by
  rw [← companions_eq_iff notesOf hids hacyclic]
  constructor
  · intro h
    exact h.greatest.unique isGreatest_unneeded
  · intro h
    refine
      { greatest := h ▸ isGreatest_unneeded
        single := ?_
        order := ?_ }
    · rintro target rfl
      exact companions_singleton hids
    · intro targets' rows' htargets hrows
      have hids' : (rows'.map (·.id)).Nodup := (hrows.map (·.id)).nodup_iff.2 hids
      refine (List.perm_ext_iff_of_nodup (.of_map _ nodup_companions) (.of_map _ nodup_companions)).2 fun row => ?_
      simp only [mem_companions_iff hids' hacyclic, mem_companions_iff hids hacyclic, live_perm htargets hrows,
        htargets.mem_iff]

/-- A relation that lengthens the text of the ids has no cycle. -/
theorem acyclic_of_length {edges : List DependencyEdge}
    (h : ∀ edge ∈ edges, edge.dependsOnItemId.text.length < edge.itemId.text.length) :
    Digraph.Acyclic (DependsOn edges) := by
  have hless : ∀ x y, Relation.TransGen (DependsOn edges) x y → y.text.length < x.text.length := by
    intro x y hxy
    induction hxy with
    | single hedge => exact h _ hedge
    | tail _ hedge ih => exact (h _ hedge).trans ih
  exact fun x hxx => (hless x x hxx).false

def tent : ItemId := ⟨"tent", by decide⟩
def oven : ItemId := ⟨"oven", by decide⟩
def stakes : ItemId := ⟨"stakes", by decide⟩
def matchbox : ItemId := ⟨"matchbox", by decide⟩
def storageBag : ItemId := ⟨"storage bag", by decide⟩

/-- The stakes come for the tent, the matchbox for the oven, and the storage bag for stakes and matchbox. -/
def campEdges : List ItemDependency :=
  [⟨⟨stakes, tent⟩, "d1", .required, none⟩, ⟨⟨matchbox, oven⟩, "d2", .required, none⟩,
    ⟨⟨storageBag, stakes⟩, "d3", .required, none⟩, ⟨⟨storageBag, matchbox⟩, "d4", .required, none⟩]

/-- An open row of an item. -/
def rowOf (item : ItemId) (h : item.text ≠ "") : RemovableRow where
  id := item.text
  sourceItemId := some item
  state := .opened
  packedCount := 0
  named := fun _ heq => Option.some.inj heq ▸ h

theorem camp_together : Together [rowOf tent (by decide)] [rowOf tent (by decide), rowOf stakes (by decide)] campEdges
      (fun _ => 0) ↔
    OneTarget [rowOf tent (by decide)] [rowOf tent (by decide), rowOf stakes (by decide)] campEdges :=
  planRemovals_iff _ _ _ _ (by decide) (acyclic_of_length (by decide))

def tentRow : RemovableRow := rowOf tent (by decide)
def ovenRow : RemovableRow := rowOf oven (by decide)
def stakesRow : RemovableRow := rowOf stakes (by decide)
def matchboxRow : RemovableRow := rowOf matchbox (by decide)
def bagRow : RemovableRow := rowOf storageBag (by decide)

def campRows : List RemovableRow := [tentRow, ovenRow, stakesRow, matchboxRow, bagRow]

instance (edges : List DependencyEdge) (x y : ItemId) : Decidable (DependsOn edges x y) :=
  inferInstanceAs (Decidable (⟨x, y⟩ ∈ edges))

theorem needs_of_edge {row other : RemovableRow} {x y : ItemId} (hx : row.sourceItemId = some x)
    (hy : other.sourceItemId = some y) (hxy : DependsOn (campEdges.map (·.toDependencyEdge)) x y) :
    Needs campEdges row other :=
  ⟨x, hx, y, hy, .single hxy⟩

/-- Where one edge leads, and none leads on. -/
theorem eq_of_needs {row other : RemovableRow} {x y : ItemId} (hx : row.sourceItemId = some x)
    (hxy : ∀ edge ∈ campEdges.map (·.toDependencyEdge), edge.itemId = x → edge.dependsOnItemId = y)
    (hy : ∀ edge ∈ campEdges.map (·.toDependencyEdge), edge.itemId ≠ y) (h : Needs campEdges row other) :
    other.sourceItemId = some y := by
  obtain ⟨x', hx', z, hz, hxz⟩ := h
  obtain rfl := Option.some.inj (hx.symm.trans hx')
  have hzy : z = y := by
    clear hz
    induction hxz with
    | single hedge => exact hxy _ hedge rfl
    | tail _ hedge ih => exact absurd ih (hy _ hedge)
  rw [← hzy]
  exact hz

/-- Tent and oven go, stakes and matchbox with them, and the bag for stakes and matchbox stays. -/
theorem bag_left_behind : ¬ ∀ (targets rows : List RemovableRow) (dependencies : List ItemDependency)
    (notesOf : RemovableRow → ℕ), (rows.map (·.id)).Nodup →
    Digraph.Acyclic (DependsOn (dependencies.map (·.toDependencyEdge))) →
      Together targets rows dependencies notesOf := by
  intro h
  have hids : (campRows.map (·.id)).Nodup := by decide
  have hacyclic : Digraph.Acyclic (DependsOn (campEdges.map (·.toDependencyEdge))) := acyclic_of_length (by decide)
  have hcamp := (h [tentRow, ovenRow] campRows campEdges (fun _ => 0) hids hacyclic).greatest.unique isGreatest_unneeded
  have hlive : ∀ row, Live [tentRow, ovenRow] campRows row ↔ row = stakesRow ∨ row = matchboxRow ∨ row = bagRow := by
    intro row
    constructor
    · rintro ⟨hrow, hid, -⟩
      simp only [campRows, List.mem_cons, List.not_mem_nil, or_false] at hrow
      rcases hrow with rfl | rfl | hrow
      · exact absurd (by decide) hid
      · exact absurd (by decide) hid
      · exact hrow
    · rintro (rfl | rfl | rfl) <;> exact ⟨by simp [campRows], by decide, by decide⟩
  have hstakes : Needs campEdges stakesRow tentRow := needs_of_edge rfl rfl (by decide)
  have hmatchbox : Needs campEdges matchboxRow ovenRow := needs_of_edge rfl rfl (by decide)
  have hbagStakes : Needs campEdges bagRow stakesRow := needs_of_edge rfl rfl (by decide)
  have hbagMatchbox : Needs campEdges bagRow matchboxRow := needs_of_edge rfl rfl (by decide)
  have hbag : bagRow ∈ unneeded [tentRow, ovenRow] campRows campEdges := by
    refine ⟨(hlive bagRow).2 (.inr (.inr rfl)), ⟨tentRow, by simp, hbagStakes.trans hstakes⟩, fun other hother _ => ?_⟩
    rcases (hlive other).1 hother with rfl | rfl | rfl
    · exact ⟨tentRow, by simp, hstakes⟩
    · exact ⟨ovenRow, by simp, hmatchbox⟩
    · exact ⟨tentRow, by simp, hbagStakes.trans hstakes⟩
  obtain ⟨-, target, htarget, -, hall⟩ := (mem_companions_iff hids hacyclic).1 (hcamp ▸ hbag)
  simp only [List.mem_cons, List.not_mem_nil, or_false] at htarget
  rcases htarget with rfl | rfl
  · have hneeds := hall matchboxRow ((hlive _).2 (.inr (.inl rfl))) hbagMatchbox
    exact absurd (eq_of_needs rfl (y := oven) (by decide) (by decide) hneeds) (by decide)
  · have hneeds := hall stakesRow ((hlive _).2 (.inl rfl)) hbagStakes
    exact absurd (eq_of_needs rfl (y := tent) (by decide) (by decide) hneeds) (by decide)

end Removal

end JitPack
