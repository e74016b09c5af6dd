import JitPack.Lib.Grouping
import JitPack.Lib.Keyed
import JitPack.Lib.Ranked

/-!
# Merging tags

An item is filed under its primary tag: the tag of its first assignment, by position and among equal positions by id.
Merging tags into a target leaves one assignment of the target on each item that carried any of them, at the lowest
position of these (`mem_merged`). No assignment names a merged tag after that, and what names another tag is left alone.

The plan takes no notice of the ids. So an item stays where it was filed exactly if no assignment of another tag at that
position comes between the first of the merged ones and the one that is kept (`KeepsHeading`, `merge_iff`).
-/

namespace JitPack

namespace Tags

/-- `ItemTag`: an assignment of a tag to an item. -/
structure ItemTag where
  id : String
  itemId : String
  tagId : String
  position : ℤ
  deriving DecidableEq

/-- `PositionedAssignment`. -/
structure PositionedAssignment where
  assignment : ItemTag
  position : ℤ
  deriving DecidableEq

/-- `TagMerge`. -/
structure TagMerge where
  repoint : List PositionedAssignment
  drop : List ItemTag
  promote : List PositionedAssignment
  deriving DecidableEq

section
variable {κ : Type*} [LinearOrder κ] (collate : String → κ)

/-- `byPositionThenId`, as a rank. -/
def byPositionThenId (a : ItemTag) : ℤ ×ₗ κ := toLex (a.position, collate a.id)

/-- `assignmentsOf`. -/
def assignmentsOf (itemId : String) (assignments : List ItemTag) : List ItemTag :=
  Ranked.byRank (byPositionThenId collate) (assignments.filter (·.itemId = itemId))

/-- `primaryTagOf`: the tag an item is filed under. -/
def primaryTagOf (itemId : String) (assignments : List ItemTag) : Option String :=
  ((assignmentsOf collate itemId assignments).head?).map (·.tagId)

end

section
variable (sourceIds : List String) (targetId : String) (assignments : List ItemTag)

/-- `sources`: the target is not one of them. -/
def sources : List String := sourceIds.filter (· ≠ targetId)

/-- `targetOf`. -/
def targetOf (itemId : String) : Option ItemTag := Keyed.last (·.itemId) (assignments.filter (·.tagId = targetId)) itemId

/-- `byItem`: the assignments of the sources, as they were read. -/
def byItem : List (String × List ItemTag) :=
  Grouping.group (·.itemId) (fun a => [a]) (fun carried a => carried ++ [a])
    (assignments.filter (·.tagId ∈ sources sourceIds targetId))

/-- `lowest`: the first one at the lowest position. -/
def lowest (first : ItemTag) (carried : List ItemTag) : ItemTag :=
  carried.foldl (fun a b => if b.position < a.position then b else a) first

/-- What the plan says of one item. -/
def planOfItem (target : Option ItemTag) : List ItemTag → TagMerge
  | [] => ⟨[], [], []⟩
  | first :: others =>
    let carried := first :: others
    let lowest := lowest first others
    match target with
    | some target => ⟨[], carried, if lowest.position < target.position then [⟨target, lowest.position⟩] else []⟩
    | none => ⟨[⟨lowest, lowest.position⟩], carried.filter (· ≠ lowest), []⟩

/-- `planTagMergeMany`. -/
def planTagMergeMany : TagMerge :=
  let plans := (byItem sourceIds targetId assignments).map fun e => planOfItem (targetOf targetId assignments e.1) e.2
  ⟨plans.flatMap (·.repoint), plans.flatMap (·.drop), plans.flatMap (·.promote)⟩

end

/-! ## Writing the plan -/

/-- `retagAssignment`. -/
def retagAssignment (id tagId : String) (position : ℤ) (assignments : List ItemTag) : List ItemTag :=
  assignments.map fun a => if a.id = id then { a with tagId := tagId, position := position } else a

/-- `moveTag`. -/
def moveTag (id : String) (position : ℤ) (assignments : List ItemTag) : List ItemTag :=
  assignments.map fun a => if a.id = id then { a with position := position } else a

/-- `unassignTag`. -/
def unassignTag (id : String) (assignments : List ItemTag) : List ItemTag := assignments.filter (·.id ≠ id)

/-- `mergeTagsMany`: the writes of a plan, one after the other. -/
def TagMerge.write (plan : TagMerge) (targetId : String) (assignments : List ItemTag) : List ItemTag :=
  let retagged := plan.repoint.foldl (fun as w => retagAssignment w.assignment.id targetId w.position as) assignments
  let moved := plan.promote.foldl (fun as w => moveTag w.assignment.id w.position as) retagged
  plan.drop.foldl (fun as a => unassignTag a.id as) moved

/-- The assignments after a merge. -/
def merged (sourceIds : List String) (targetId : String) (assignments : List ItemTag) : List ItemTag :=
  (planTagMergeMany sourceIds targetId assignments).write targetId assignments

section
variable {κ : Type*} {collate : String → κ} {sourceIds : List String} {targetId : String}
variable {assignments : List ItemTag} {a b s : ItemTag} {i : String} {p : ℤ}

/-- The assignments as they are held: the ids are distinct, as the collation tells them apart, and so are the pairs of
item and tag. -/
structure Assigned (collate : String → κ) (assignments : List ItemTag) : Prop where
  ids : (assignments.map fun a => collate a.id).Nodup
  pairs : (assignments.map fun a => (a.itemId, a.tagId)).Nodup

theorem Assigned.eq_of_id (h : Assigned collate assignments) (ha : a ∈ assignments) (hb : b ∈ assignments)
    (hid : a.id = b.id) : a = b :=
  Keyed.eq_of_key h.ids ha hb (congrArg collate hid)

theorem Assigned.eq_of_pair (h : Assigned collate assignments) (ha : a ∈ assignments) (hb : b ∈ assignments)
    (hi : a.itemId = b.itemId) (ht : a.tagId = b.tagId) : a = b :=
  Keyed.eq_of_key h.pairs ha hb (Prod.ext hi ht)

theorem target_notMem_sources : targetId ∉ sources sourceIds targetId := by simp [sources]

/-! ## The plan, item by item -/

/-- The source assignments of an item, as they were read. -/
def carriedBy (sourceIds : List String) (targetId : String) (assignments : List ItemTag) (i : String) : List ItemTag :=
  assignments.filter fun a => a.itemId = i ∧ a.tagId ∈ sources sourceIds targetId

theorem mem_carriedBy :
    a ∈ carriedBy sourceIds targetId assignments i ↔
      a ∈ assignments ∧ a.itemId = i ∧ a.tagId ∈ sources sourceIds targetId := by
  simp [carriedBy]

theorem gather_singletons (cs : List ItemTag) :
    Grouping.gather (fun a => [a]) (fun carried a => carried ++ [a]) cs = if cs = [] then none else some cs := by
  induction cs using List.reverseRecOn with
  | nil => rfl
  | append_singleton cs c ih =>
    rw [Grouping.gather_append_singleton, ih]
    split <;> simp_all

theorem mem_byItem {carried : List ItemTag} :
    (i, carried) ∈ byItem sourceIds targetId assignments ↔
      carried = carriedBy sourceIds targetId assignments i ∧ carried ≠ [] := by
  rw [byItem, Grouping.mem_group, gather_singletons, List.filter_filter]
  have hcarried : carriedBy sourceIds targetId assignments i =
      assignments.filter fun a => decide (a.itemId = i) && decide (a.tagId ∈ sources sourceIds targetId) :=
    List.filter_congr fun a _ => by simp
  rw [← hcarried]
  split
  · next hnil => simp [hnil]
  · next hne => rw [Option.some_inj, eq_comm, and_iff_left_of_imp fun he => he ▸ hne]

theorem targetOf_eq_some_iff (h : Assigned collate assignments) :
    targetOf targetId assignments i = some a ↔ a ∈ assignments ∧ a.tagId = targetId ∧ a.itemId = i := by
  have hkeys : ((assignments.filter (·.tagId = targetId)).map (·.itemId)).Nodup := by
    refine List.Nodup.map_on (fun a ha b hb hi => ?_) (h.pairs.of_map _ |>.filter _)
    rw [List.mem_filter, decide_eq_true_eq] at ha hb
    exact h.eq_of_pair ha.1 hb.1 hi (ha.2.trans hb.2.symm)
  rw [targetOf, Keyed.last_eq_some_iff hkeys]
  simp [and_assoc]

/-- The first one at the lowest position. -/
theorem lowest_eq_find? (first : ItemTag) (others : List ItemTag) :
    (first :: others).find? (fun a => ∀ b ∈ first :: others, a.position ≤ b.position) = some (lowest first others) := by
  induction others using List.reverseRecOn with
  | nil => simp [lowest]
  | append_singleton others c ih =>
    have hlow : lowest first (others ++ [c]) =
        if c.position < (lowest first others).position then c else lowest first others := by
      rw [lowest, List.foldl_append]
      rfl
    have hle := List.find?_some ih
    rw [decide_eq_true_eq] at hle
    have hmem := List.mem_of_find?_eq_some ih
    rw [hlow, ← List.cons_append, List.find?_append]
    split
    case isTrue hc =>
      have hnone : (first :: others).find?
          (fun a => ∀ b ∈ first :: others ++ [c], a.position ≤ b.position) = none := by
        refine List.find?_eq_none.2 fun a ha hall => ?_
        have hac := of_decide_eq_true hall c (by simp)
        exact absurd hac (not_le.2 (hc.trans_le (hle a ha)))
      rw [hnone, Option.none_or, List.find?_singleton, if_pos]
      rw [decide_eq_true_eq]
      intro b hb
      rcases List.mem_append.1 hb with hb | hb
      · exact hc.le.trans (hle b hb)
      · rw [List.mem_singleton.1 hb]
    case isFalse hc =>
      rw [show (first :: others).find? (fun a => ∀ b ∈ first :: others ++ [c], a.position ≤ b.position) =
        some (lowest first others) from ?_]
      · rfl
      rw [← ih]
      refine List.find?_congr fun a ha => ?_
      rw [decide_eq_decide]
      refine ⟨fun hall b hb => hall b (List.mem_append_left _ hb), fun hall b hb => ?_⟩
      rcases List.mem_append.1 hb with hb | hb
      · exact hall b hb
      · rw [List.mem_singleton.1 hb]
        exact (hall _ hmem).trans (not_lt.1 hc)

/-- The one of the source assignments of an item that `lowest` finds: the first one read at their lowest position. -/
def lowestOf (sourceIds : List String) (targetId : String) (assignments : List ItemTag) (i : String) : Option ItemTag :=
  let carried := carriedBy sourceIds targetId assignments i
  carried.find? fun a => ∀ b ∈ carried, a.position ≤ b.position

theorem lowestOf_eq_none_iff :
    lowestOf sourceIds targetId assignments i = none ↔ carriedBy sourceIds targetId assignments i = [] := by
  unfold lowestOf
  cases carriedBy sourceIds targetId assignments i with
  | nil => simp
  | cons first others => simp only [lowest_eq_find?, reduceCtorEq]

theorem mem_of_lowestOf (h : lowestOf sourceIds targetId assignments i = some a) :
    a ∈ carriedBy sourceIds targetId assignments i ∧
      ∀ b ∈ carriedBy sourceIds targetId assignments i, a.position ≤ b.position :=
  ⟨List.mem_of_find?_eq_some h, by simpa using List.find?_some h⟩

/-- An entry of the plan is an entry of the plan of an item. -/
theorem mem_planOfItem {β : Type*} {f : TagMerge → List β} {x : β} :
    x ∈ ((byItem sourceIds targetId assignments).map fun e => planOfItem (targetOf targetId assignments e.1) e.2).flatMap f ↔
      ∃ i l, lowestOf sourceIds targetId assignments i = some l ∧
        x ∈ f (planOfItem (targetOf targetId assignments i) (carriedBy sourceIds targetId assignments i)) := by
  simp only [List.mem_flatMap, List.mem_map, Prod.exists, mem_byItem]
  constructor
  · rintro ⟨_, ⟨i, _, ⟨rfl, hne⟩, rfl⟩, hx⟩
    obtain ⟨l, hl⟩ := Option.ne_none_iff_exists'.1 (mt lowestOf_eq_none_iff.1 hne)
    exact ⟨i, l, hl, hx⟩
  · rintro ⟨i, l, hl, hx⟩
    refine ⟨_, ⟨i, _, ⟨rfl, fun hnil => ?_⟩, rfl⟩, hx⟩
    rw [lowestOf_eq_none_iff.2 hnil] at hl
    cases hl

theorem planOfItem_eq (target : Option ItemTag) (h : lowestOf sourceIds targetId assignments i = some a) :
    planOfItem target (carriedBy sourceIds targetId assignments i) =
      match target with
      | some t =>
        ⟨[], carriedBy sourceIds targetId assignments i, if a.position < t.position then [⟨t, a.position⟩] else []⟩
      | none => ⟨[⟨a, a.position⟩], (carriedBy sourceIds targetId assignments i).filter (· ≠ a), []⟩ := by
  unfold lowestOf at h
  cases hcarried : carriedBy sourceIds targetId assignments i with
  | nil => simp [hcarried] at h
  | cons first others =>
    rw [hcarried, lowest_eq_find?, Option.some_inj] at h
    subst h
    rfl

theorem mem_repoint {w : PositionedAssignment} :
    w ∈ (planTagMergeMany sourceIds targetId assignments).repoint ↔
      ∃ i l, lowestOf sourceIds targetId assignments i = some l ∧ targetOf targetId assignments i = none ∧
        w = ⟨l, l.position⟩ := by
  refine mem_planOfItem.trans (exists_congr fun i => exists_congr fun l => and_congr_right fun hl => ?_)
  rw [planOfItem_eq _ hl]
  cases targetOf targetId assignments i <;> simp

theorem mem_promote {w : PositionedAssignment} :
    w ∈ (planTagMergeMany sourceIds targetId assignments).promote ↔
      ∃ i l, lowestOf sourceIds targetId assignments i = some l ∧
        ∃ t, targetOf targetId assignments i = some t ∧ l.position < t.position ∧ w = ⟨t, l.position⟩ := by
  refine mem_planOfItem.trans (exists_congr fun i => exists_congr fun l => and_congr_right fun hl => ?_)
  rw [planOfItem_eq _ hl]
  cases targetOf targetId assignments i with
  | none => simp
  | some t => by_cases hlt : l.position < t.position <;> simp [hlt]

theorem mem_drop :
    a ∈ (planTagMergeMany sourceIds targetId assignments).drop ↔
      ∃ i l, lowestOf sourceIds targetId assignments i = some l ∧ a ∈ carriedBy sourceIds targetId assignments i ∧
        (targetOf targetId assignments i = none → a ≠ l) := by
  refine mem_planOfItem.trans (exists_congr fun i => exists_congr fun l => and_congr_right fun hl => ?_)
  rw [planOfItem_eq _ hl]
  cases targetOf targetId assignments i <;> simp

/-! ## What the writes make of an assignment -/

theorem foldl_map {W : Type*} (f : W → ItemTag → ItemTag) (ws : List W) (as : List ItemTag) :
    ws.foldl (fun as w => as.map (f w)) as = as.map fun a => ws.foldl (fun a w => f w a) a := by
  induction ws generalizing as with
  | nil => simp
  | cons w ws ih => simp [ih, Function.comp_def]

theorem foldl_unassignTag (ds as : List ItemTag) :
    ds.foldl (fun as d => unassignTag d.id as) as = as.filter fun a => a.id ∉ ds.map (·.id) := by
  induction ds generalizing as with
  | nil => simp
  | cons d ds ih =>
    rw [List.foldl_cons, ih, unassignTag, List.filter_filter]
    refine List.filter_congr fun a _ => ?_
    rw [Bool.eq_iff_iff]
    simp [and_comm]

/-- Writes to one assignment that agree with each other. -/
theorem foldl_write (f : ℤ → ItemTag → ItemTag) (hid : ∀ p a, (f p a).id = a.id) (hf : ∀ p a, f p (f p a) = f p a)
    {ws : List PositionedAssignment} (h : ∀ w ∈ ws, w.assignment.id = a.id → w.position = p) :
    ws.foldl (fun a w => if a.id = w.assignment.id then f w.position a else a) a =
      if ∃ w ∈ ws, w.assignment.id = a.id then f p a else a := by
  induction ws generalizing a with
  | nil => simp
  | cons w ws ih =>
    rw [List.foldl_cons]
    by_cases hw : w.assignment.id = a.id
    · have hp : w.position = p := h w List.mem_cons_self hw
      rw [if_pos hw.symm, hp, ih fun w' hw' he => h w' (List.mem_cons_of_mem _ hw') (he.trans (hid p a)), hf, ite_self,
        if_pos ⟨w, List.mem_cons_self, hw⟩]
    · rw [if_neg (Ne.symm hw), ih fun w' hw' => h w' (List.mem_cons_of_mem _ hw')]
      simp [hw]

/-- What a merge makes of an assignment. -/
def fate (sourceIds : List String) (targetId : String) (assignments : List ItemTag) (a : ItemTag) : Option ItemTag :=
  let lowest := lowestOf sourceIds targetId assignments a.itemId
  if a.tagId ∈ sources sourceIds targetId then
    if targetOf targetId assignments a.itemId = none ∧ lowest = some a then some { a with tagId := targetId } else none
  else if a.tagId = targetId then some { a with position := lowest.elim a.position fun l => min a.position l.position }
  else some a

theorem filter_map_eq_filterMap {f : ItemTag → ItemTag} {p : ItemTag → Bool} {g : ItemTag → Option ItemTag}
    {as : List ItemTag} (h : ∀ a ∈ as, (if p (f a) then some (f a) else none) = g a) :
    (as.map f).filter p = as.filterMap g := by
  rw [← List.filterMap_eq_filter, List.filterMap_map]
  refine List.filterMap_congr fun a ha => ?_
  rw [← h a ha]
  simp [Option.guard]

theorem mem_of_mem_carriedBy (h : a ∈ carriedBy sourceIds targetId assignments i) :
    a ∈ assignments ∧ a.itemId = i ∧ a.tagId ∈ sources sourceIds targetId ∧ a.tagId ≠ targetId := by
  obtain ⟨ha, hi, ht⟩ := mem_carriedBy.1 h
  exact ⟨ha, hi, ht, fun he => target_notMem_sources (he ▸ ht)⟩

section
variable (h : Assigned collate assignments) (ha : a ∈ assignments)
include h ha

theorem of_repoint {w : PositionedAssignment} (hw : w ∈ (planTagMergeMany sourceIds targetId assignments).repoint)
    (hid : w.assignment.id = a.id) : w.position = a.position ∧
      targetOf targetId assignments a.itemId = none ∧ lowestOf sourceIds targetId assignments a.itemId = some a := by
  obtain ⟨i, l, hl, hnone, rfl⟩ := mem_repoint.1 hw
  obtain ⟨hlas, rfl, -⟩ := mem_of_mem_carriedBy (mem_of_lowestOf hl).1
  obtain rfl := h.eq_of_id hlas ha hid
  exact ⟨rfl, hnone, hl⟩

theorem repointed_iff : (∃ w ∈ (planTagMergeMany sourceIds targetId assignments).repoint, w.assignment.id = a.id) ↔
    targetOf targetId assignments a.itemId = none ∧ lowestOf sourceIds targetId assignments a.itemId = some a :=
  ⟨fun ⟨_, hw, hid⟩ => (of_repoint h ha hw hid).2, fun ⟨hnone, hl⟩ => ⟨_, mem_repoint.2 ⟨_, a, hl, hnone, rfl⟩, rfl⟩⟩

theorem of_promote {w : PositionedAssignment} (hw : w ∈ (planTagMergeMany sourceIds targetId assignments).promote)
    (hid : w.assignment.id = a.id) : a.tagId = targetId ∧
      ∃ l, lowestOf sourceIds targetId assignments a.itemId = some l ∧ l.position < a.position ∧
        w.position = l.position := by
  obtain ⟨i, l, hl, t, ht, hlt, rfl⟩ := mem_promote.1 hw
  obtain ⟨htas, htt, rfl⟩ := (targetOf_eq_some_iff h).1 ht
  obtain rfl := h.eq_of_id htas ha hid
  exact ⟨htt, l, hl, hlt, rfl⟩

theorem promoted_iff : (∃ w ∈ (planTagMergeMany sourceIds targetId assignments).promote, w.assignment.id = a.id) ↔
    a.tagId = targetId ∧
      ∃ l, lowestOf sourceIds targetId assignments a.itemId = some l ∧ l.position < a.position := by
  constructor
  · rintro ⟨w, hw, hid⟩
    obtain ⟨ht, l, hl, hlt, -⟩ := of_promote h ha hw hid
    exact ⟨ht, l, hl, hlt⟩
  · rintro ⟨ht, l, hl, hlt⟩
    exact ⟨_, mem_promote.2 ⟨_, l, hl, a, (targetOf_eq_some_iff h).2 ⟨ha, ht, rfl⟩, hlt, rfl⟩, rfl⟩

theorem dropped_iff : a.id ∈ (planTagMergeMany sourceIds targetId assignments).drop.map (·.id) ↔
    a.tagId ∈ sources sourceIds targetId ∧
      ¬(targetOf targetId assignments a.itemId = none ∧ lowestOf sourceIds targetId assignments a.itemId = some a) := by
  rw [List.mem_map]
  constructor
  · rintro ⟨d, hd, hid⟩
    obtain ⟨i, l, hl, hdi, hne⟩ := mem_drop.1 hd
    obtain ⟨hdas, rfl, hds, -⟩ := mem_of_mem_carriedBy hdi
    obtain rfl := h.eq_of_id hdas ha hid
    exact ⟨hds, fun ⟨hnone, hsome⟩ => hne hnone (Option.some.inj (hsome.symm.trans hl))⟩
  · rintro ⟨hs, hne⟩
    have hmem : a ∈ carriedBy sourceIds targetId assignments a.itemId := mem_carriedBy.2 ⟨ha, rfl, hs⟩
    cases hl : lowestOf sourceIds targetId assignments a.itemId with
    | none => rw [lowestOf_eq_none_iff.1 hl] at hmem; cases hmem
    | some l => exact ⟨a, mem_drop.2 ⟨_, l, hl, hmem, fun hnone he => hne ⟨hnone, he ▸ hl⟩⟩, rfl⟩

/-- The promotions of a plan, on an assignment that stands for `a`. -/
theorem foldl_promote (hb : b.id = a.id) :
    (planTagMergeMany sourceIds targetId assignments).promote.foldl
        (fun a w => if a.id = w.assignment.id then { a with position := w.position } else a) b =
      if a.tagId = targetId then
        { b with position := (lowestOf sourceIds targetId assignments a.itemId).elim b.position fun l =>
          if l.position < a.position then l.position else b.position }
      else b := by
  have hfold : ∀ p, (∀ w ∈ (planTagMergeMany sourceIds targetId assignments).promote,
      w.assignment.id = b.id → w.position = p) → _ := fun p hp =>
    foldl_write (fun p a => { a with position := p }) (fun _ _ => rfl) (fun _ _ => rfl) hp
  simp only [hb, promoted_iff h ha] at hfold
  cases hl : lowestOf sourceIds targetId assignments a.itemId with
  | none =>
    rw [hfold 0 fun w hw hid => ?_]
    · simp [hl]
    · obtain ⟨-, l, hsome, -⟩ := of_promote h ha hw hid
      rw [hl] at hsome
      cases hsome
  | some l =>
    rw [hfold l.position fun w hw hid => ?_]
    · by_cases ht : a.tagId = targetId <;> by_cases hlt : l.position < a.position <;> simp [hl, ht, hlt, ← hb]
    · obtain ⟨-, l', hsome, -, hp⟩ := of_promote h ha hw hid
      obtain rfl := Option.some.inj (hl.symm.trans hsome)
      exact hp

end

/-- A merge, assignment by assignment. -/
theorem merged_eq (h : Assigned collate assignments) :
    merged sourceIds targetId assignments = assignments.filterMap (fate sourceIds targetId assignments) := by
  have hwrites : ∀ plan : TagMerge, plan.write targetId assignments =
      (assignments.map fun a => plan.promote.foldl
        (fun a w => if a.id = w.assignment.id then { a with position := w.position } else a)
        (plan.repoint.foldl
          (fun a w => if a.id = w.assignment.id then { a with tagId := targetId, position := w.position } else a) a)).filter
        fun a => a.id ∉ plan.drop.map (·.id) := fun plan => by
    unfold TagMerge.write
    rw [foldl_unassignTag]
    refine congrArg _ ((foldl_map _ _ _).trans ?_)
    refine (congrArg _ (foldl_map _ _ _)).trans ?_
    rw [List.map_map]
    rfl
  rw [merged, hwrites]
  refine filter_map_eq_filterMap fun a ha => ?_
  rw [foldl_write (fun p a => { a with tagId := targetId, position := p }) (fun _ _ => rfl) (fun _ _ => rfl)
    fun w hw hid => (of_repoint h ha hw hid).1]
  simp only [repointed_iff h ha]
  rw [foldl_promote h ha (by split <;> rfl)]
  unfold fate
  dsimp only
  by_cases hs : a.tagId ∈ sources sourceIds targetId
  · have ht : a.tagId ≠ targetId := fun he => target_notMem_sources (he ▸ hs)
    rw [if_pos hs, if_neg ht]
    by_cases hk : targetOf targetId assignments a.itemId = none ∧ lowestOf sourceIds targetId assignments a.itemId = some a
    · rw [if_pos hk, if_pos hk]
      have hstays : a.id ∉ (planTagMergeMany sourceIds targetId assignments).drop.map (·.id) :=
        fun hd => ((dropped_iff h ha).1 hd).2 hk
      exact if_pos (decide_eq_true hstays)
    · rw [if_neg hk, if_neg hk]
      have hgoes : ¬ a.id ∉ (planTagMergeMany sourceIds targetId assignments).drop.map (·.id) :=
        not_not_intro ((dropped_iff h ha).2 ⟨hs, hk⟩)
      exact if_neg (mt of_decide_eq_true hgoes)
  · have hk : ¬(targetOf targetId assignments a.itemId = none ∧
        lowestOf sourceIds targetId assignments a.itemId = some a) :=
      fun hk => hs (mem_of_mem_carriedBy (mem_of_lowestOf hk.2).1).2.2.1
    rw [if_neg hs, if_neg hk]
    have hstays : a.id ∉ (planTagMergeMany sourceIds targetId assignments).drop.map (·.id) :=
      fun hd => hs ((dropped_iff h ha).1 hd).1
    by_cases ht : a.tagId = targetId
    · rw [if_pos ht, if_pos ht]
      refine (if_pos (decide_eq_true hstays)).trans ?_
      cases lowestOf sourceIds targetId assignments a.itemId with
      | none => rfl
      | some l =>
        by_cases hlt : l.position < a.position
        · simp [hlt, min_eq_right hlt.le]
        · simp [hlt, min_eq_left (not_lt.1 hlt)]
    · rw [if_neg ht, if_neg ht]
      exact if_pos (decide_eq_true hstays)

/-! ## The assignments after a merge -/

/-- The assignments of an item that are merged into one. -/
def mergingOf (sourceIds : List String) (targetId : String) (assignments : List ItemTag) (i : String) : List ItemTag :=
  assignments.filter fun a => a.itemId = i ∧ (a.tagId ∈ sources sourceIds targetId ∨ a.tagId = targetId)

/-- The assignment names a tag that is neither merged nor the target. -/
def ItemTag.Outside (sourceIds : List String) (targetId : String) (a : ItemTag) : Prop :=
  a.tagId ∉ sources sourceIds targetId ∧ a.tagId ≠ targetId

instance (sourceIds : List String) (targetId : String) :
    DecidablePred (ItemTag.Outside sourceIds targetId) :=
  fun a => inferInstanceAs (Decidable (a.tagId ∉ sources sourceIds targetId ∧ a.tagId ≠ targetId))

/-- The assignment of an item that survives a merge, as it was before: the one of the target, else the first source
assignment read at the lowest position. -/
def survivorOf (sourceIds : List String) (targetId : String) (assignments : List ItemTag) (i : String) : Option ItemTag :=
  (targetOf targetId assignments i).or (lowestOf sourceIds targetId assignments i)

/-- The survivor as it is after the merge. -/
def keptOf (sourceIds : List String) (targetId : String) (assignments : List ItemTag) (i : String) : Option ItemTag :=
  (survivorOf sourceIds targetId assignments i).map fun s =>
    { s with
      tagId := targetId
      position := (lowestOf sourceIds targetId assignments i).elim s.position fun l => min s.position l.position }

theorem mem_mergingOf : a ∈ mergingOf sourceIds targetId assignments i ↔
    a ∈ assignments ∧ a.itemId = i ∧ (a.tagId ∈ sources sourceIds targetId ∨ a.tagId = targetId) := by
  simp [mergingOf]

theorem mem_merging_of_survivorOf (h : Assigned collate assignments)
    (hs : survivorOf sourceIds targetId assignments i = some s) : s ∈ mergingOf sourceIds targetId assignments i := by
  rw [mem_mergingOf]
  rcases Option.or_eq_some_iff.1 hs with ht | ⟨-, hl⟩
  · obtain ⟨hs, htag, hi⟩ := (targetOf_eq_some_iff h).1 ht
    exact ⟨hs, hi, .inr htag⟩
  · obtain ⟨hs, hi, htag, -⟩ := mem_of_mem_carriedBy (mem_of_lowestOf hl).1
    exact ⟨hs, hi, .inl htag⟩

theorem survivorOf_eq_none_iff (h : Assigned collate assignments) :
    survivorOf sourceIds targetId assignments i = none ↔ mergingOf sourceIds targetId assignments i = [] := by
  constructor
  · intro hnone
    obtain ⟨htarget, hlow⟩ := Option.or_eq_none_iff.1 hnone
    refine List.eq_nil_iff_forall_not_mem.2 fun a ha => ?_
    obtain ⟨ha, hi, hs | ht⟩ := mem_mergingOf.1 ha
    · have hmem := mem_carriedBy.2 ⟨ha, hi, hs⟩
      rw [lowestOf_eq_none_iff.1 hlow] at hmem
      cases hmem
    · rw [(targetOf_eq_some_iff h).2 ⟨ha, ht, hi⟩] at htarget
      cases htarget
  · intro hnil
    cases hs : survivorOf sourceIds targetId assignments i with
    | none => rfl
    | some s =>
      have hmem := mem_merging_of_survivorOf h hs
      rw [hnil] at hmem
      cases hmem

/-- The survivor is at the lowest position of the merged assignments. -/
theorem position_keptOf (h : Assigned collate assignments) (hb : keptOf sourceIds targetId assignments i = some b) :
    (∃ m ∈ mergingOf sourceIds targetId assignments i, m.position = b.position) ∧
      ∀ m ∈ mergingOf sourceIds targetId assignments i, b.position ≤ m.position := by
  obtain ⟨s, hs, rfl⟩ := Option.map_eq_some_iff.1 hb
  have hsm := mem_merging_of_survivorOf h hs
  have hcarried : ∀ m ∈ mergingOf sourceIds targetId assignments i,
      m = s ∨ m ∈ carriedBy sourceIds targetId assignments i := by
    intro m hm
    obtain ⟨hm, hi, hmt | hmt⟩ := mem_mergingOf.1 hm
    · exact .inr (mem_carriedBy.2 ⟨hm, hi, hmt⟩)
    · have ht := (targetOf_eq_some_iff h).2 ⟨hm, hmt, hi⟩
      rw [survivorOf, ht, Option.some_or, Option.some_inj] at hs
      exact .inl hs
  cases hl : lowestOf sourceIds targetId assignments i with
  | none =>
    refine ⟨⟨s, hsm, rfl⟩, fun m hm => ?_⟩
    rcases hcarried m hm with rfl | hm
    · exact le_rfl
    · rw [lowestOf_eq_none_iff.1 hl] at hm
      cases hm
  | some l =>
    obtain ⟨hlc, hle⟩ := mem_of_lowestOf hl
    obtain ⟨hlm, hli, hlt, -⟩ := mem_of_mem_carriedBy hlc
    have hlmem : l ∈ mergingOf sourceIds targetId assignments i := mem_mergingOf.2 ⟨hlm, hli, .inl hlt⟩
    constructor
    · rcases min_choice s.position l.position with hmin | hmin
      · exact ⟨s, hsm, hmin.symm⟩
      · exact ⟨l, hlmem, hmin.symm⟩
    · intro m hm
      rcases hcarried m hm with rfl | hm
      · exact min_le_left _ _
      · exact (min_le_right _ _).trans (hle m hm)

/-- What is left after a merge: the assignments outside it, and one of the target for each item. -/
theorem mem_merged (h : Assigned collate assignments) : b ∈ merged sourceIds targetId assignments ↔
    b ∈ assignments ∧ b.Outside sourceIds targetId ∨ keptOf sourceIds targetId assignments b.itemId = some b := by
  rw [merged_eq h, List.mem_filterMap]
  constructor
  · rintro ⟨a, ha, hfate⟩
    unfold fate at hfate
    dsimp only at hfate
    split_ifs at hfate with hs hk ht
    · cases hfate
      simp [keptOf, survivorOf, hk.1, hk.2]
    · cases hfate
      have htarget := (targetOf_eq_some_iff h).2 ⟨ha, ht, rfl⟩
      simp [keptOf, survivorOf, htarget, ht]
    · cases hfate
      exact .inl ⟨ha, hs, ht⟩
  · rintro (⟨hb, hs, ht⟩ | hkept)
    · exact ⟨b, hb, by simp [fate, hs, ht]⟩
    · obtain ⟨s, hs, hsb⟩ := Option.map_eq_some_iff.1 hkept
      obtain ⟨hsas, hi, -⟩ := mem_mergingOf.1 (mem_merging_of_survivorOf h hs)
      refine ⟨s, hsas, ?_⟩
      rcases Option.or_eq_some_iff.1 hs with htarget | ⟨hnone, hl⟩
      · obtain ⟨-, ht, -⟩ := (targetOf_eq_some_iff h).1 htarget
        have hnot : s.tagId ∉ sources sourceIds targetId := ht ▸ target_notMem_sources
        rw [fate, if_neg hnot, if_pos ht, hi]
        exact congrArg some (Eq.trans (by rw [ht, hi]) hsb)
      · have hsource := (mem_of_mem_carriedBy (mem_of_lowestOf hl).1).2.2.1
        rw [fate, if_pos hsource, hi, if_pos ⟨hnone, hl⟩]
        exact congrArg some (Eq.trans (by rw [hl, Option.elim_some, min_self, hi]) hsb)

theorem mem_of_keptOf (hb : keptOf sourceIds targetId assignments i = some b) (h : Assigned collate assignments) :
    b.itemId = i ∧ b.tagId = targetId ∧ ∃ s, survivorOf sourceIds targetId assignments i = some s ∧ b.id = s.id := by
  obtain ⟨s, hs, rfl⟩ := Option.map_eq_some_iff.1 hb
  exact ⟨(mem_mergingOf.1 (mem_merging_of_survivorOf h hs)).2.1, rfl, s, hs, rfl⟩

theorem id_of_fate (hb : fate sourceIds targetId assignments a = some b) : b.id = a.id := by
  unfold fate at hb
  dsimp only at hb
  split_ifs at hb <;> cases hb <;> rfl

theorem nodup_ids_merged (h : Assigned collate assignments) :
    ((merged sourceIds targetId assignments).map fun a => collate a.id).Nodup := by
  rw [merged_eq h]
  exact Keyed.nodup_filterMap (fun a b hb => congrArg collate (id_of_fate hb)) h.ids

/-- The target stands on an item once, if it or a source did before. -/
theorem filter_target (h : Assigned collate assignments) :
    (merged sourceIds targetId assignments).filter (fun a => a.itemId = i ∧ a.tagId = targetId) =
      (keptOf sourceIds targetId assignments i).toList := by
  have hmem : ∀ b, b ∈ (merged sourceIds targetId assignments).filter (fun a => a.itemId = i ∧ a.tagId = targetId) ↔
      keptOf sourceIds targetId assignments i = some b := by
    intro b
    rw [List.mem_filter, mem_merged h, decide_eq_true_eq]
    constructor
    · rintro ⟨⟨-, -, hb⟩ | hb, rfl, ht⟩
      · exact absurd ht hb
      · exact hb
    · intro hb
      obtain ⟨rfl, ht, -⟩ := mem_of_keptOf hb h
      exact ⟨.inr hb, rfl, ht⟩
  cases hk : keptOf sourceIds targetId assignments i with
  | none => exact List.eq_nil_iff_forall_not_mem.2 fun b hb => by simp [(hmem b).1 hb] at hk
  | some k =>
    refine List.perm_singleton.1 ((List.perm_ext_iff_of_nodup ?_ (List.nodup_singleton k)).2 fun b => ?_)
    · exact ((nodup_ids_merged h).of_map _).filter _
    · rw [hmem, hk, Option.some_inj, List.mem_singleton, eq_comm]

theorem filter_outside (h : Assigned collate assignments) :
    (merged sourceIds targetId assignments).filter (·.Outside sourceIds targetId) =
      assignments.filter (·.Outside sourceIds targetId) := by
  rw [merged_eq h, List.filter_filterMap, ← List.filterMap_eq_filter]
  refine List.filterMap_congr fun a ha => ?_
  unfold fate
  dsimp only
  by_cases hs : a.tagId ∈ sources sourceIds targetId
  · rw [if_pos hs]
    split <;> simp [ItemTag.Outside, hs, Option.guard]
  · rw [if_neg hs]
    split
    · next ht => simp [ItemTag.Outside, ht, Option.guard]
    · next ht => simp [ItemTag.Outside, hs, ht, Option.guard]

/-! ## Where an item is filed -/

/-- The assignments of an item that a merge leaves alone. -/
def outsideOf (sourceIds : List String) (targetId : String) (assignments : List ItemTag) (i : String) : List ItemTag :=
  assignments.filter fun a => a.itemId = i ∧ a.Outside sourceIds targetId

theorem mem_outsideOf : a ∈ outsideOf sourceIds targetId assignments i ↔
    a ∈ assignments ∧ a.itemId = i ∧ a.Outside sourceIds targetId := by
  simp [outsideOf]

/-- No assignment of another tag comes between the merged assignments and their survivor: if none of another tag stands
before the lowest position of the merged ones anyway, one that stands at that position is before all the merged ones
there exactly if one is before the survivor. -/
def KeepsHeading {κ : Type*} [LinearOrder κ] (collate : String → κ) (sourceIds : List String) (targetId : String)
    (assignments : List ItemTag) (i : String) : Prop :=
  ∀ s, survivorOf sourceIds targetId assignments i = some s →
    ∀ p, ((mergingOf sourceIds targetId assignments i).map (·.position)).min? = some p →
      (∃ o ∈ outsideOf sourceIds targetId assignments i, o.position < p) ∨
        ((∃ o ∈ outsideOf sourceIds targetId assignments i, o.position = p ∧
            ∀ m ∈ mergingOf sourceIds targetId assignments i, m.position = p → collate o.id < collate m.id) ↔
          ∃ o ∈ outsideOf sourceIds targetId assignments i, o.position = p ∧ collate o.id < collate s.id)

variable [LinearOrder κ]

theorem byPositionThenId_lt : byPositionThenId collate a < byPositionThenId collate b ↔
    a.position < b.position ∨ a.position = b.position ∧ collate a.id < collate b.id :=
  Prod.Lex.toLex_lt_toLex

omit [LinearOrder κ] in
theorem byPositionThenId_inj {as : List ItemTag} (has : (as.map fun a => collate a.id).Nodup) :
    ∀ a ∈ as, ∀ b ∈ as, byPositionThenId collate a = byPositionThenId collate b → a = b := fun _ ha _ hb he =>
  Keyed.eq_of_key has ha hb (congrArg (fun r => (ofLex r).2) he)

/-- An item is filed under a merged tag if one of the merged assignments stands before all the others. -/
theorem primaryTagOf_merging
    (hm : ∃ m ∈ mergingOf sourceIds targetId assignments i, ∀ o ∈ outsideOf sourceIds targetId assignments i,
      byPositionThenId collate m < byPositionThenId collate o) :
    ∃ t, primaryTagOf collate i assignments = some t ∧ (t ∈ sources sourceIds targetId ∨ t = targetId) := by
  obtain ⟨m, hm, hlt⟩ := hm
  obtain ⟨x, hx, hhead⟩ := Ranked.exists_head?_byRank
    (fun x : ItemTag => show x ∈ assignments.filter (·.itemId = i) ↔ _ by rw [mem_mergingOf, mem_outsideOf, List.mem_filter, decide_eq_true_eq, ItemTag.Outside]; tauto) hm hlt
  exact ⟨x.tagId, by rw [primaryTagOf, assignmentsOf, hhead]; rfl, (mem_mergingOf.1 hx).2.2⟩

/-- Otherwise it is filed under the first of the other tags. -/
theorem primaryTagOf_outside (h : Assigned collate assignments)
    (hm : ¬∃ m ∈ mergingOf sourceIds targetId assignments i, ∀ o ∈ outsideOf sourceIds targetId assignments i,
      byPositionThenId collate m < byPositionThenId collate o) :
    primaryTagOf collate i assignments =
      ((Ranked.byRank (byPositionThenId collate) (outsideOf sourceIds targetId assignments i)).head?).map (·.tagId) := by
  push Not at hm
  have hsplit : ∀ x, x ∈ assignments.filter (·.itemId = i) ↔
      x ∈ mergingOf sourceIds targetId assignments i ∨ x ∈ outsideOf sourceIds targetId assignments i := fun x => by
    rw [mem_mergingOf, mem_outsideOf, List.mem_filter, decide_eq_true_eq, ItemTag.Outside]
    tauto
  rw [primaryTagOf, assignmentsOf, Ranked.head?_byRank_right
    (fun a ha b hb => byPositionThenId_inj h.ids a (List.mem_of_mem_filter ha) b (List.mem_of_mem_filter hb)) hsplit hm]

omit [LinearOrder κ] in
theorem mem_merged_item (h : Assigned collate assignments) :
    b ∈ (merged sourceIds targetId assignments).filter (·.itemId = i) ↔
      b ∈ (keptOf sourceIds targetId assignments i).toList ∨ b ∈ outsideOf sourceIds targetId assignments i := by
  rw [List.mem_filter, mem_merged h, mem_outsideOf, Option.mem_toList, decide_eq_true_eq]
  constructor
  · rintro ⟨hb | hb, rfl⟩
    · exact .inr ⟨hb.1, rfl, hb.2⟩
    · exact .inl hb
  · rintro (hb | ⟨hb, rfl, ho⟩)
    · obtain ⟨rfl, -⟩ := mem_of_keptOf hb h
      exact ⟨.inr hb, rfl⟩
    · exact ⟨.inl ⟨hb, ho⟩, rfl⟩

/-- After a merge an item is filed under the target if the survivor stands before the assignments of the other tags. -/
theorem primaryTagOf_merged (h : Assigned collate assignments) {k : ItemTag}
    (hk : keptOf sourceIds targetId assignments i = some k)
    (hlt : ∀ o ∈ outsideOf sourceIds targetId assignments i, byPositionThenId collate k < byPositionThenId collate o) :
    primaryTagOf collate i (merged sourceIds targetId assignments) = some targetId := by
  obtain ⟨x, hx, hhead⟩ := Ranked.exists_head?_byRank (fun x => mem_merged_item (i := i) (b := x) h)
    (show k ∈ (keptOf sourceIds targetId assignments i).toList by simp [hk]) hlt
  rw [Option.mem_toList] at hx
  rw [primaryTagOf, assignmentsOf, hhead, Option.map_some, (mem_of_keptOf hx h).2.1]

theorem primaryTagOf_merged_outside (h : Assigned collate assignments)
    (hlt : ¬∃ k, keptOf sourceIds targetId assignments i = some k ∧
      ∀ o ∈ outsideOf sourceIds targetId assignments i, byPositionThenId collate k < byPositionThenId collate o) :
    primaryTagOf collate i (merged sourceIds targetId assignments) =
      ((Ranked.byRank (byPositionThenId collate) (outsideOf sourceIds targetId assignments i)).head?).map (·.tagId) := by
  push Not at hlt
  rw [primaryTagOf, assignmentsOf, Ranked.head?_byRank_right
    (fun a ha b hb => byPositionThenId_inj (nodup_ids_merged h) a (List.mem_of_mem_filter ha) b
      (List.mem_of_mem_filter hb))
    (fun x => mem_merged_item h) fun k hk => hlt k (by simpa using hk)]

omit [LinearOrder κ] in
theorem collate_ne (h : Assigned collate assignments) {m o : ItemTag}
    (hm : m ∈ mergingOf sourceIds targetId assignments i) (ho : o ∈ outsideOf sourceIds targetId assignments i) :
    collate m.id ≠ collate o.id := by
  intro he
  obtain ⟨hm, -, hmt⟩ := mem_mergingOf.1 hm
  obtain ⟨ho, -, hos, hot⟩ := mem_outsideOf.1 ho
  obtain rfl := Keyed.eq_of_key h.ids hm ho he
  exact hmt.elim hos hot

/-- One of the merged assignments stands before all the others exactly if, at their lowest position, no other comes
before them. -/
theorem exists_merging_lt_iff (h : Assigned collate assignments)
    (hmin : ((mergingOf sourceIds targetId assignments i).map (·.position)).min? = some p) :
    (∃ m ∈ mergingOf sourceIds targetId assignments i, ∀ o ∈ outsideOf sourceIds targetId assignments i,
        byPositionThenId collate m < byPositionThenId collate o) ↔
      ¬(∃ o ∈ outsideOf sourceIds targetId assignments i, o.position < p) ∧
        ¬∃ o ∈ outsideOf sourceIds targetId assignments i, o.position = p ∧
          ∀ m ∈ mergingOf sourceIds targetId assignments i, m.position = p → collate o.id < collate m.id := by
  obtain ⟨hp, hle⟩ := List.min?_eq_some_iff.1 hmin
  obtain ⟨l, hl, hlp⟩ := List.mem_map.1 hp
  have hle : ∀ m ∈ mergingOf sourceIds targetId assignments i, p ≤ m.position :=
    fun m hm => hle _ (List.mem_map_of_mem hm)
  constructor
  · rintro ⟨m, hm, hlt⟩
    constructor
    · rintro ⟨o, ho, hop⟩
      rcases byPositionThenId_lt.1 (hlt o ho) with hlt | ⟨heq, -⟩
      · have := hle m hm
        omega
      · have := hle m hm
        omega
    · rintro ⟨o, ho, hop, hall⟩
      rcases byPositionThenId_lt.1 (hlt o ho) with hlt | ⟨heq, hid⟩
      · have := hle m hm
        omega
      · exact lt_asymm hid (hall m hm (heq.trans hop))
  · rintro ⟨hbelow, hat⟩
    push Not at hbelow hat
    obtain ⟨m₀, hm₀⟩ : ∃ m₀, (Ranked.byRank (byPositionThenId collate)
        (mergingOf sourceIds targetId assignments i)).head? = some m₀ :=
      Option.ne_none_iff_exists'.1 (Ranked.head?_byRank_ne_none hl)
    obtain ⟨hm₀, hfirst⟩ := Ranked.le_of_head?_byRank hm₀
    have hm₀p : m₀.position = p := by
      refine le_antisymm ?_ (hle m₀ hm₀)
      have hrank := not_lt.2 (hfirst l hl)
      rw [byPositionThenId_lt, not_or] at hrank
      omega
    refine ⟨m₀, hm₀, fun o ho => byPositionThenId_lt.2 ?_⟩
    rcases (hbelow o ho).lt_or_eq with hlt | heq
    · exact .inl (hm₀p ▸ hlt)
    · obtain ⟨m, hm, hmp, hid⟩ := hat o ho heq.symm
      refine .inr ⟨hm₀p.trans heq, lt_of_le_of_ne ?_ (collate_ne h hm₀ ho)⟩
      have hrank := not_lt.2 (hfirst m hm)
      rw [byPositionThenId_lt, not_or, not_and] at hrank
      exact (not_lt.1 (hrank.2 (hmp.trans hm₀p.symm))).trans hid

theorem kept_lt_iff (h : Assigned collate assignments) (hs : survivorOf sourceIds targetId assignments i = some s)
    (hmin : ((mergingOf sourceIds targetId assignments i).map (·.position)).min? = some p) :
    (∃ k, keptOf sourceIds targetId assignments i = some k ∧ ∀ o ∈ outsideOf sourceIds targetId assignments i,
        byPositionThenId collate k < byPositionThenId collate o) ↔
      ¬(∃ o ∈ outsideOf sourceIds targetId assignments i, o.position < p) ∧
        ¬∃ o ∈ outsideOf sourceIds targetId assignments i, o.position = p ∧ collate o.id < collate s.id := by
  obtain ⟨k, hk⟩ : ∃ k, keptOf sourceIds targetId assignments i = some k := by simp [keptOf, hs]
  obtain ⟨⟨m, hm, hmk⟩, hlow⟩ := position_keptOf h hk
  obtain ⟨-, -, s', hs', hid⟩ := mem_of_keptOf hk h
  obtain rfl : s' = s := Option.some.inj (hs'.symm.trans hs)
  obtain ⟨hp, hle⟩ := List.min?_eq_some_iff.1 hmin
  obtain rfl : k.position = p := by
    obtain ⟨l, hl, rfl⟩ := List.mem_map.1 hp
    exact le_antisymm (hlow l hl) (hmk ▸ hle _ (List.mem_map_of_mem hm))
  constructor
  · rintro ⟨k', hk', hlt⟩
    obtain rfl := Option.some.inj (hk'.symm.trans hk)
    constructor
    · rintro ⟨o, ho, hop⟩
      rcases byPositionThenId_lt.1 (hlt o ho) with hlt | ⟨heq, -⟩ <;> omega
    · rintro ⟨o, ho, hop, hos⟩
      rcases byPositionThenId_lt.1 (hlt o ho) with hlt | ⟨-, hko⟩
      · omega
      · exact lt_asymm hko (hid ▸ hos)
  · rintro ⟨hbelow, hat⟩
    push Not at hbelow hat
    refine ⟨k, hk, fun o ho => byPositionThenId_lt.2 ?_⟩
    rcases (hbelow o ho).lt_or_eq with hlt | heq
    · exact .inl hlt
    · exact .inr ⟨heq, hid ▸ lt_of_le_of_ne (hat o ho heq.symm) (collate_ne h (mem_merging_of_survivorOf h hs) ho)⟩

/-- The tag of the first assignment outside the merge is neither a source nor the target. -/
theorem tag_of_outside {t : String} (ht : ((Ranked.byRank (byPositionThenId collate)
    (outsideOf sourceIds targetId assignments i)).head?).map (·.tagId) = some t) :
    ¬(t ∈ sources sourceIds targetId ∨ t = targetId) := by
  obtain ⟨o, ho, rfl⟩ := Option.map_eq_some_iff.1 ht
  exact not_or.2 (mem_outsideOf.1 (Ranked.le_of_head?_byRank ho).1).2.2

/-- An item stays where it was filed if it is filed under a merged tag before and under the target after, or neither. -/
theorem filed_iff (h : Assigned collate assignments) (i : String) :
    primaryTagOf collate i (merged sourceIds targetId assignments) =
        (primaryTagOf collate i assignments).map (fun t =>
          if t ∈ sources sourceIds targetId ∨ t = targetId then targetId else t) ↔
      ((∃ m ∈ mergingOf sourceIds targetId assignments i, ∀ o ∈ outsideOf sourceIds targetId assignments i,
        byPositionThenId collate m < byPositionThenId collate o) ↔
      ∃ k, keptOf sourceIds targetId assignments i = some k ∧ ∀ o ∈ outsideOf sourceIds targetId assignments i,
        byPositionThenId collate k < byPositionThenId collate o) := by
  by_cases hm : ∃ m ∈ mergingOf sourceIds targetId assignments i,
      ∀ o ∈ outsideOf sourceIds targetId assignments i, byPositionThenId collate m < byPositionThenId collate o
  · obtain ⟨t, ht, htm⟩ := primaryTagOf_merging hm
    rw [ht, Option.map_some, if_pos htm, iff_true_left hm]
    refine ⟨fun hfiled => ?_, fun ⟨k, hk, hlt⟩ => primaryTagOf_merged h hk hlt⟩
    by_contra hk
    rw [primaryTagOf_merged_outside h hk] at hfiled
    exact tag_of_outside hfiled (.inr rfl)
  · rw [primaryTagOf_outside h hm, iff_false_left hm]
    constructor
    · rintro hfiled ⟨k, hk, hlt⟩
      rw [primaryTagOf_merged h hk hlt, eq_comm] at hfiled
      obtain ⟨t, ht, htt⟩ := Option.map_eq_some_iff.1 hfiled
      rw [if_neg (tag_of_outside ht)] at htt
      exact tag_of_outside ht (.inr htt)
    · intro hk
      rw [primaryTagOf_merged_outside h hk]
      cases hhead : ((Ranked.byRank (byPositionThenId collate)
          (outsideOf sourceIds targetId assignments i)).head?).map (·.tagId) with
      | none => rfl
      | some t => rw [Option.map_some, if_neg (tag_of_outside hhead)]

omit [LinearOrder κ] in
theorem not_and_not_iff {x y z : Prop} : (¬x ∧ ¬y ↔ ¬x ∧ ¬z) ↔ x ∨ (y ↔ z) := by tauto

/-- An item stays where it was filed exactly if the merge keeps its heading. -/
theorem primaryTagOf_merged_iff (h : Assigned collate assignments) (i : String) :
    primaryTagOf collate i (merged sourceIds targetId assignments) =
        (primaryTagOf collate i assignments).map (fun t =>
          if t ∈ sources sourceIds targetId ∨ t = targetId then targetId else t) ↔
      KeepsHeading collate sourceIds targetId assignments i := by
  rw [filed_iff h]
  cases hs : survivorOf sourceIds targetId assignments i with
  | none =>
    have hnil := (survivorOf_eq_none_iff h).1 hs
    refine iff_of_true (by simp [hnil, keptOf, hs]) fun s hsome => ?_
    rw [hs] at hsome
    cases hsome
  | some s =>
    obtain ⟨p, hmin⟩ : ∃ p, ((mergingOf sourceIds targetId assignments i).map (·.position)).min? = some p := by
      refine Option.ne_none_iff_exists'.1 fun hnone => ?_
      rw [List.min?_eq_none_iff, List.map_eq_nil_iff, ← survivorOf_eq_none_iff h, hs] at hnone
      cases hnone
    rw [exists_merging_lt_iff h hmin, kept_lt_iff h hs hmin, not_and_not_iff]
    constructor
    · intro hiff s' hs' p' hmin'
      obtain rfl := Option.some.inj (hs'.symm.trans hs)
      obtain rfl := Option.some.inj (hmin'.symm.trans hmin)
      exact hiff
    · exact fun hkeeps => hkeeps s hs p hmin

end

/-- The order of the code points, for runs on fixed ids. -/
def codePoints (id : String) : List ℕ := id.toList.map Char.toNat

end Tags

end JitPack
