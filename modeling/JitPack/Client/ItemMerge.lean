import JitPack.Lib.Machine
import JitPack.Lib.Writes
import JitPack.Client.Dependencies
import JitPack.Client.TagMerge

/-!
# Merging items

Items that are the same thing become one: the survivor takes over the tags, the dependencies and the template positions
of the others, and the others are aliased at it. The plan is made at once, over all rows. What cannot be repointed is
dropped: a tag that the survivor has, an edge that the survivor has, one from the survivor to itself, and one that would
close a cycle. Of the positions of a template one is kept, with the greatest amount and all the tasks.

The rows stay as they should be (`Inventory.Ok`, `merge_ok`), nothing names a merged item (`Freed`), the survivor's
heading stays and no template loses an item, an amount or a task (`Merged`, `merge_merged`). An item that is merged is
aliased at the one that holds it after any later merges (`aliases_resolve`). The main theorem is `merge_spec`.
-/

namespace JitPack

namespace ItemMerge

open Tags (ItemTag PositionedAssignment primaryTagOf assignmentsOf)

/-! ## Rows -/

/-- `MasterItem`, as far as a merge reads and writes it. An id is not empty, so that an alias is there or not. -/
structure MasterItem where
  id : ItemId
  mergedIntoId : Option ItemId
  deriving DecidableEq

/-- `TemplateItem`: a position of a template. -/
structure TemplateItem where
  id : String
  templateId : String
  itemId : ItemId
  quantity : ℚ
  deriving DecidableEq

/-- `TemplateItemTask`. -/
structure TemplateItemTask where
  templateItemId : String
  task : String
  deriving DecidableEq

/-- `ItemMergeSources`. -/
structure Inventory where
  items : List MasterItem
  assignments : List ItemTag
  dependencies : List ItemDependency
  positions : List TemplateItem
  tasks : List TemplateItemTask

/-! ## The plan -/

/-- The plan for the tags. -/
structure TagPlan where
  repoint : List PositionedAssignment
  drop : List ItemTag

/-- `RepointedEdge`. -/
structure RepointedEdge where
  edge : ItemDependency
  target : DependencyEdge

/-- The plan for the dependencies. -/
structure DependencyPlan where
  repoint : List RepointedEdge
  drop : List ItemDependency
  selfEdges : ℕ
  cycles : ℕ

/-- `CollapsedPosition`. -/
structure CollapsedPosition where
  keep : TemplateItem
  drop : TemplateItem
  quantity : ℚ
  tasks : List String

/-- The plan for the positions. -/
structure PositionPlan where
  repoint : List TemplateItem
  collapse : List CollapsedPosition

/-- `ItemMergePlan`, less the fields and the photo that fill what the survivor left empty. -/
structure ItemMergePlan where
  tags : TagPlan
  dependencies : DependencyPlan
  positions : PositionPlan
  aliases : List ItemId

section
variable (survivorId : ItemId) (loserIds : List ItemId)

/-- The loop of `planTags`, over the tags that are taken and the next position. -/
def planTagsLoop (taken : List String) (next : ℤ) : List ItemTag → TagPlan
  | [] => ⟨[], []⟩
  | a :: assignments =>
    if a.tagId ∈ taken then
      let rest := planTagsLoop taken next assignments
      ⟨rest.repoint, a :: rest.drop⟩
    else
      let rest := planTagsLoop (a.tagId :: taken) (next + 1) assignments
      ⟨⟨a, next⟩ :: rest.repoint, rest.drop⟩

/-- `planTags`. -/
def planTags (assignments : List ItemTag) : TagPlan :=
  let own := assignments.filter (·.itemId = survivorId.text)
  planTagsLoop (own.map (·.tagId)) (own.foldl (fun highest a => max highest (a.position + 1)) 0)
    (loserIds.flatMap fun loserId => assignments.filter (·.itemId = loserId.text))

/-- `resolve`. -/
def resolve (id : ItemId) : ItemId := if id ∈ loserIds then survivorId else id

/-- `touches`. -/
def touches (edge : DependencyEdge) : Bool := edge.itemId ∈ loserIds ∨ edge.dependsOnItemId ∈ loserIds

/-- The edge with both ends at the survivor where they were merged. -/
def repointed (edge : DependencyEdge) : DependencyEdge :=
  ⟨resolve survivorId loserIds edge.itemId, resolve survivorId loserIds edge.dependsOnItemId⟩

/-- The loop of `planDependencies`, over the edges that are kept. -/
def planDependenciesLoop (kept : List DependencyEdge) : List ItemDependency → DependencyPlan
  | [] => ⟨[], [], 0, 0⟩
  | edge :: dependencies =>
    let target := repointed survivorId loserIds edge.toDependencyEdge
    if target.itemId = target.dependsOnItemId then
      let rest := planDependenciesLoop kept dependencies
      { rest with drop := edge :: rest.drop, selfEdges := rest.selfEdges + 1 }
    else if target ∈ kept then
      let rest := planDependenciesLoop kept dependencies
      { rest with drop := edge :: rest.drop }
    else if (dependencyCycleError kept target (·.text)).isSome then
      let rest := planDependenciesLoop kept dependencies
      { rest with drop := edge :: rest.drop, cycles := rest.cycles + 1 }
    else
      let rest := planDependenciesLoop (kept ++ [target]) dependencies
      { rest with repoint := ⟨edge, target⟩ :: rest.repoint }

/-- `planDependencies`. -/
def planDependencies (dependencies : List ItemDependency) : DependencyPlan :=
  planDependenciesLoop survivorId loserIds
    ((dependencies.filter fun edge => ! touches loserIds edge.toDependencyEdge).map (·.toDependencyEdge))
    (dependencies.filter fun edge => touches loserIds edge.toDependencyEdge)

/-- `tasksOf`. -/
def tasksOf (positionId : String) (tasks : List TemplateItemTask) : List String :=
  (tasks.filter (·.templateItemId = positionId)).map (·.task)

/-- Folding positions into the one that is kept, at the running maximum. -/
def collapseInto (tasks : List TemplateItemTask) (keep : TemplateItem) :
    ℚ → List TemplateItem → List CollapsedPosition
  | _, [] => []
  | quantity, position :: positions =>
    let quantity := max quantity position.quantity
    ⟨keep, position, quantity, tasksOf position.id tasks⟩ :: collapseInto tasks keep quantity positions

/-- `mine`: the positions of a template that go, in the order the items were picked. -/
def mine (positions : List TemplateItem) (templateId : String) : List TemplateItem :=
  loserIds.flatMap fun loserId => (positions.filter (·.templateId = templateId)).filter (·.itemId = loserId)

/-- What the plan says of one template: the survivor's position is kept, or the first one that goes. -/
def planTemplate (positions : List TemplateItem) (tasks : List TemplateItemTask) (templateId : String) : PositionPlan :=
  match (positions.filter (·.templateId = templateId)).find? (·.itemId = survivorId) with
  | some keep => ⟨[], collapseInto tasks keep keep.quantity (mine loserIds positions templateId)⟩
  | none =>
    match mine loserIds positions templateId with
    | [] => ⟨[], []⟩
    | keep :: others => ⟨[keep], collapseInto tasks keep keep.quantity others⟩

/-- `templates`: the templates with a position that goes. -/
def templates (positions : List TemplateItem) : List String :=
  Insertion.ofList ((positions.filter (·.itemId ∈ loserIds)).map (·.templateId))

/-- `planPositions`. -/
def planPositions (positions : List TemplateItem) (tasks : List TemplateItemTask) : PositionPlan :=
  let plans := (templates loserIds positions).map (planTemplate survivorId loserIds positions tasks)
  ⟨plans.flatMap (·.repoint), plans.flatMap (·.collapse)⟩

/-- `planAliases`. -/
def planAliases (items : List MasterItem) : List ItemId :=
  loserIds ++ ((items.filter fun row => row.mergedIntoId.any (· ∈ loserIds)).map (·.id)).filter (· ∉ loserIds)

/-- `planItemMerge`: an error if the survivor is to be merged away. -/
def planItemMerge (s : Inventory) : Except String ItemMergePlan :=
  if survivorId ∈ loserIds then .error "planItemMerge: the survivor cannot also be merged away"
  else .ok
    { tags := planTags survivorId loserIds s.assignments
      dependencies := planDependencies survivorId loserIds s.dependencies
      positions := planPositions survivorId loserIds s.positions s.tasks
      aliases := planAliases loserIds s.items }

/-! ## Writing a plan -/

/-- `reassignItemTag` and `unassignTag`. -/
def writeTags (plan : TagPlan) (assignments : List ItemTag) : List ItemTag :=
  (plan.drop.map (·.id)).foldl (Keyed.drop (·.id)) (Keyed.writes (·.id) (·.assignment.id)
    (fun w a => { a with itemId := survivorId.text, position := w.position }) plan.repoint assignments)

/-- `repointItemDependency` and `deleteItemDependency`. -/
def writeDependencies (plan : DependencyPlan) (dependencies : List ItemDependency) : List ItemDependency :=
  (plan.drop.map (·.id)).foldl (Keyed.drop (·.id)) (Keyed.writes (·.id) (·.edge.id)
    (fun w d => { d with toDependencyEdge := w.target }) plan.repoint dependencies)

/-- The writes of one collapse: `updateTemplateItem` and `deleteTemplateItem`. -/
def writeCollapse (positions : List TemplateItem) (c : CollapsedPosition) : List TemplateItem :=
  let updated := if c.quantity ≠ c.keep.quantity then
    positions.map fun p => if p.id = c.keep.id then { p with quantity := c.quantity } else p else positions
  Keyed.drop (·.id) updated c.drop.id

/-- `repointTemplateItem`, and the collapses. -/
def writePositions (plan : PositionPlan) (positions : List TemplateItem) : List TemplateItem :=
  plan.collapse.foldl writeCollapse
    (Keyed.writes (·.id) (·.id) (fun _ p => { p with itemId := survivorId }) plan.repoint positions)

/-- `addTemplateItemTask` of each collapse; the tasks of a position that is deleted go with it. -/
def writeTasks (plan : PositionPlan) (tasks : List TemplateItemTask) : List TemplateItemTask :=
  plan.collapse.foldl (fun tasks c =>
    (tasks ++ c.tasks.map fun task => ⟨c.keep.id, task⟩).filter (·.templateItemId ≠ c.drop.id)) tasks

/-- The items with `merged_into_id` written. -/
def writeAliases (aliases : List ItemId) (items : List MasterItem) : List MasterItem :=
  Keyed.writes (·.id) id (fun _ row => { row with mergedIntoId := some survivorId }) aliases items

/-- The inventory after a plan is written. -/
def ItemMergePlan.write (plan : ItemMergePlan) (s : Inventory) : Inventory where
  items := writeAliases survivorId plan.aliases s.items
  assignments := writeTags survivorId plan.tags s.assignments
  dependencies := writeDependencies plan.dependencies s.dependencies
  positions := writePositions survivorId plan.positions s.positions
  tasks := writeTasks plan.positions s.tasks

end

/-! ## Aliases -/

/-- `aliasOf`. -/
def aliasOf (item : MasterItem) (lookup : ItemId → Option MasterItem) : Option MasterItem :=
  (item.mergedIntoId.bind lookup).filter (·.mergedIntoId = none)

/-- `lookup`, over the rows of the device. -/
def lookup (items : List MasterItem) (id : ItemId) : Option MasterItem := Keyed.last (·.id) items id

/-- `mergedIdsOf`. -/
def mergedIdsOf (itemId : ItemId) (items : List MasterItem) : List ItemId :=
  itemId :: (items.filter fun row => (aliasOf row (lookup items)).any (·.id = itemId)).map (·.id)

section
variable {survivorId : ItemId} {loserIds : List ItemId}

/-! ## Tags -/

section tags
variable {assignments as : List ItemTag} {taken : List String} {next : ℤ} {a x : ItemTag} {w : PositionedAssignment}

/-- What goes is repointed or dropped. -/
theorem planTagsLoop_perm : ((planTagsLoop taken next as).repoint.map (·.assignment) ++
    (planTagsLoop taken next as).drop).Perm as := by
  induction as generalizing taken next with
  | nil => exact .nil
  | cons a as ih =>
    unfold planTagsLoop
    split
    · exact List.perm_middle.trans (ih.cons a)
    · exact ih.cons a

/-- What is repointed has a tag that is not taken, and goes behind. -/
theorem planTagsLoop_fresh (h : w ∈ (planTagsLoop taken next as).repoint) :
    w.assignment.tagId ∉ taken ∧ next ≤ w.position := by
  induction as generalizing taken next with
  | nil => cases h
  | cons a as ih =>
    unfold planTagsLoop at h
    split at h
    · exact ih h
    · next hnew =>
      rcases List.mem_cons.1 h with rfl | h
      · exact ⟨hnew, le_rfl⟩
      · obtain ⟨htag, hle⟩ := ih h
        exact ⟨fun hmem => htag (List.mem_cons_of_mem _ hmem), by omega⟩

theorem planTagsLoop_nodup : ((planTagsLoop taken next as).repoint.map (·.assignment.tagId)).Nodup := by
  induction as generalizing taken next with
  | nil => exact List.nodup_nil
  | cons a as ih =>
    unfold planTagsLoop
    split
    · exact ih
    · refine List.nodup_cons.2 ⟨fun hmem => ?_, ih⟩
      obtain ⟨w, hw, htag⟩ := List.mem_map.1 hmem
      exact (planTagsLoop_fresh hw).1 (htag ▸ List.mem_cons_self)

/-- An assignment of an item that goes. -/
def Going (loserIds : List ItemId) (a : ItemTag) : Prop := a.itemId ∈ loserIds.map (·.text)

instance : DecidablePred (Going loserIds) := fun _ => inferInstanceAs (Decidable (_ ∈ _))

theorem text_injective : Function.Injective ItemId.text := fun a b h => by
  cases a
  cases b
  cases h
  rfl

/-- The assignments of the items that go are repointed or dropped. -/
theorem planTags_perm (hlosers : loserIds.Nodup) : ((planTags survivorId loserIds assignments).repoint.map
    (·.assignment) ++ (planTags survivorId loserIds assignments).drop).Perm
      (assignments.filter (Going loserIds ·)) := by
  refine planTagsLoop_perm.trans ?_
  have hperm := Grouping.flatMap_filter_perm_filter ItemTag.itemId assignments (hlosers.map text_injective)
  rwa [List.flatMap_map] at hperm

theorem mem_repoint (hlosers : loserIds.Nodup) (h : w ∈ (planTags survivorId loserIds assignments).repoint) :
    w.assignment ∈ assignments ∧ Going loserIds w.assignment := by
  have hperm : ((planTags survivorId loserIds assignments).repoint.map (·.assignment) ++ _).Perm _ :=
    planTags_perm hlosers
  have hmem := hperm.mem_iff.1 (List.mem_append_left _ (List.mem_map_of_mem h))
  simpa using hmem

/-- The assignments after a merge: those that do not go, and those that are repointed. -/
theorem mem_writeTags (hids : (assignments.map (·.id)).Nodup) (hlosers : loserIds.Nodup) :
    x ∈ writeTags survivorId (planTags survivorId loserIds assignments) assignments ↔
      x ∈ assignments ∧ ¬ Going loserIds x ∨ ∃ w ∈ (planTags survivorId loserIds assignments).repoint,
        x = { w.assignment with itemId := survivorId.text, position := w.position } := by
  unfold writeTags
  exact Keyed.mem_rewritten (by intro _ _; rfl) hids (planTags_perm hlosers)

theorem ids_writeTags (plan : TagPlan) (hids : (assignments.map (·.id)).Nodup) :
    ((writeTags survivorId plan assignments).map (·.id)).Nodup := by
  refine Keyed.nodup_drops ?_
  have hkeys : (Keyed.writes ItemTag.id (fun w : PositionedAssignment => w.assignment.id)
      (fun w a => { a with itemId := survivorId.text, position := w.position }) plan.repoint assignments).map
        ItemTag.id = assignments.map ItemTag.id := Keyed.map_key_writes fun _ _ => rfl
  rw [hkeys]
  exact hids

/-- An item's own assignment takes its tag, and the next position is behind it. -/
theorem own_before (ha : a ∈ assignments) (hitem : a.itemId = survivorId.text)
    (h : w ∈ (planTags survivorId loserIds assignments).repoint) :
    a.tagId ≠ w.assignment.tagId ∧ a.position < w.position := by
  obtain ⟨htag, hle⟩ := planTagsLoop_fresh h
  have hown : a ∈ assignments.filter (·.itemId = survivorId.text) := List.mem_filter.2 ⟨ha, decide_eq_true hitem⟩
  refine ⟨fun he => htag (he ▸ List.mem_map_of_mem hown), ?_⟩
  have hnext : ∀ (l : List ItemTag) (start : ℤ), start ≤ l.foldl (fun highest a => max highest (a.position + 1)) start ∧
      (a ∈ l → a.position + 1 ≤ l.foldl (fun highest a => max highest (a.position + 1)) start) := by
    intro l
    induction l with
    | nil => exact fun start => ⟨le_rfl, fun h => nomatch h⟩
    | cons b l ih =>
      intro start
      obtain ⟨hstart, hmem⟩ := ih (max start (b.position + 1))
      refine ⟨(le_max_left _ _).trans hstart, fun h => ?_⟩
      rcases List.mem_cons.1 h with rfl | h
      · exact (le_max_right _ _).trans hstart
      · exact hmem h
  have := (hnext _ 0).2 hown
  omega

/-- The pairs of item and tag stay distinct. -/
theorem pairs_writeTags (hids : (assignments.map (·.id)).Nodup)
    (hpairs : (assignments.map fun a => (a.itemId, a.tagId)).Nodup) (hlosers : loserIds.Nodup) :
    ((writeTags survivorId (planTags survivorId loserIds assignments) assignments).map
      fun a => (a.itemId, a.tagId)).Nodup := by
  refine List.Nodup.map_on (fun x hx y hy he => ?_) ((ids_writeTags _ hids).of_map _)
  obtain ⟨hitem, htag⟩ := Prod.mk.inj he
  have htags : ((planTags survivorId loserIds assignments).repoint.map (·.assignment.tagId)).Nodup := planTagsLoop_nodup
  rcases (mem_writeTags hids hlosers).1 hx with ⟨hx, -⟩ | ⟨w, hw, rfl⟩
  · rcases (mem_writeTags hids hlosers).1 hy with ⟨hy, -⟩ | ⟨w, hw, rfl⟩
    · exact Keyed.eq_of_key hpairs hx hy he
    · exact absurd htag (own_before hx hitem hw).1
  · rcases (mem_writeTags hids hlosers).1 hy with ⟨hy, -⟩ | ⟨w', hw', rfl⟩
    · exact absurd htag.symm (own_before hy hitem.symm hw).1
    · rw [Keyed.eq_of_key htags hw hw' htag]

/-- No assignment names a merged item. -/
theorem writeTags_freed (hids : (assignments.map (·.id)).Nodup) (hlosers : loserIds.Nodup)
    (hsurvivor : survivorId ∉ loserIds)
    (hx : x ∈ writeTags survivorId (planTags survivorId loserIds assignments) assignments) : ¬ Going loserIds x := by
  rcases (mem_writeTags hids hlosers).1 hx with ⟨-, hstays⟩ | ⟨w, -, rfl⟩
  · exact hstays
  · intro hgoing
    obtain ⟨id, hid, htext⟩ := List.mem_map.1 hgoing
    exact hsurvivor (text_injective htext ▸ hid)

/-- **The survivor stays under its own heading.** -/
theorem primaryTagOf_writeTags {κ : Type*} [LinearOrder κ] (collate : String → κ)
    (hids : (assignments.map (·.id)).Nodup) (hlosers : loserIds.Nodup) (hsurvivor : survivorId ∉ loserIds)
    {tag : String} (htag : primaryTagOf collate survivorId.text assignments = some tag) :
    primaryTagOf collate survivorId.text
      (writeTags survivorId (planTags survivorId loserIds assignments) assignments) = some tag := by
  rw [← htag]
  have hown : ∀ a ∈ assignments, a.itemId = survivorId.text → ¬ Going loserIds a := by
    rintro a - ha hgoing
    obtain ⟨id, hid, htext⟩ := List.mem_map.1 hgoing
    exact hsurvivor (text_injective (htext.trans ha) ▸ hid)
  -- the survivor's own assignments are what they were, in their order
  have hids_own : ∀ a ∈ assignments, a.id ∈ (assignments.filter (·.itemId = survivorId.text)).map (·.id) ↔
      a.itemId = survivorId.text := by
    intro a ha
    constructor
    · intro hid
      obtain ⟨b, hb, hid⟩ := List.mem_map.1 hid
      obtain ⟨hb, hitem⟩ := List.mem_filter.1 hb
      rw [← Keyed.eq_of_key hids hb ha hid]
      exact of_decide_eq_true hitem
    · intro hitem
      exact List.mem_map_of_mem (List.mem_filter.2 ⟨ha, decide_eq_true hitem⟩)
  have hsame : (writeTags survivorId (planTags survivorId loserIds assignments) assignments).filter
      (·.id ∈ (assignments.filter (·.itemId = survivorId.text)).map (·.id)) =
        assignments.filter (·.itemId = survivorId.text) := by
    have hapart : ∀ k, decide (k ∈ (assignments.filter (·.itemId = survivorId.text)).map (·.id)) = true →
        ∀ a ∈ assignments, Going loserIds a → a.id ≠ k := by
      intro k hk a ha hgoing hid
      subst hid
      exact hown a ha ((hids_own a ha).1 (of_decide_eq_true hk)) hgoing
    have hperm : ((planTags survivorId loserIds assignments).repoint.map (·.assignment) ++
      (planTags survivorId loserIds assignments).drop).Perm _ := planTags_perm hlosers
    refine (@Keyed.filter_writes _ _ _ _ ItemTag.id (fun w : PositionedAssignment => w.assignment.id)
      (fun w a => { a with itemId := survivorId.text, position := w.position }) _ _ (fun _ _ => rfl)
        (fun k => decide (k ∈ (assignments.filter (·.itemId = survivorId.text)).map (·.id))) _
          (fun k hk hmem => ?_) fun k hk hmem => ?_).trans (List.filter_congr fun a ha => ?_)
    · obtain ⟨w, hw, rfl⟩ := List.mem_map.1 hmem
      obtain ⟨hin, hgoing⟩ := mem_repoint hlosers hw
      exact hapart _ hk _ hin hgoing rfl
    · obtain ⟨b, hb, rfl⟩ := List.mem_map.1 hmem
      have hgoing := hperm.mem_iff.1 (List.mem_append_right _ hb)
      exact hapart _ hk b (List.mem_filter.1 hgoing).1 (of_decide_eq_true (List.mem_filter.1 hgoing).2) rfl
    · rw [decide_eq_decide]
      exact hids_own a ha
  unfold primaryTagOf assignmentsOf
  obtain ⟨a, ha⟩ : ∃ a, a ∈ assignments.filter (·.itemId = survivorId.text) := by
    refine List.exists_mem_of_ne_nil _ fun hnil => ?_
    rw [primaryTagOf, assignmentsOf, hnil] at htag
    cases htag
  obtain ⟨hmem, hitem⟩ := List.mem_filter.1 ha
  have hstays : a ∈ writeTags survivorId (planTags survivorId loserIds assignments) assignments :=
    (mem_writeTags hids hlosers).2 (.inl ⟨hmem, hown a hmem (of_decide_eq_true hitem)⟩)
  rw [Ranked.head?_byRank_filter (a := a)
    (p := fun b => decide (b.id ∈ (assignments.filter (·.itemId = survivorId.text)).map (·.id)))
    (List.mem_filter.2 ⟨hstays, hitem⟩) (decide_eq_true (List.mem_map_of_mem ha)) ?_]
  · have hown' : ((writeTags survivorId (planTags survivorId loserIds assignments) assignments).filter
        (·.itemId = survivorId.text)).filter
          (·.id ∈ (assignments.filter (·.itemId = survivorId.text)).map (·.id)) =
        assignments.filter (·.itemId = survivorId.text) := by
      have hcomm : ∀ (p q : ItemTag → Bool) (l : List ItemTag), (l.filter p).filter q = (l.filter q).filter p := by
        intro p q l
        rw [List.filter_filter, List.filter_filter]
        exact List.filter_congr fun a _ => Bool.and_comm _ _
      rw [hcomm, hsame, List.filter_filter]
      simp
    rw [hown']
  · intro b hb hnot
    obtain ⟨hb, hbitem⟩ := List.mem_filter.1 hb
    rcases (mem_writeTags hids hlosers).1 hb with ⟨hb, -⟩ | ⟨w, hw, rfl⟩
    · exact absurd (decide_eq_true ((hids_own b hb).2 (of_decide_eq_true hbitem))) hnot
    · exact Prod.Lex.toLex_lt_toLex.2 (.inl (own_before hmem (of_decide_eq_true hitem) hw).2)

end tags

/-! ## Dependencies -/

section dependencies
variable {dependencies : List ItemDependency} {kept : List DependencyEdge} {x y : ItemDependency} {w : RepointedEdge}

/-- Distinct edges without a cycle, none of a merged item. -/
structure Sound (loserIds : List ItemId) (edges : List DependencyEdge) : Prop where
  distinct : edges.Nodup
  acyclic : Digraph.Acyclic (DependsOn edges)
  untouched : ∀ edge ∈ edges, touches loserIds edge = false

theorem touches_repointed (hsurvivor : survivorId ∉ loserIds) (edge : DependencyEdge) :
    touches loserIds (repointed survivorId loserIds edge) = false := by
  have hresolve : ∀ id, resolve survivorId loserIds id ∉ loserIds := by
    intro id
    unfold resolve
    split
    · exact hsurvivor
    · next h => exact h
  simp [touches, repointed, hresolve]

/-- **The edges that are kept stay sound**, one after the other. -/
theorem planDependenciesLoop_sound (hsurvivor : survivorId ∉ loserIds) (h : Sound loserIds kept) :
    Sound loserIds (kept ++ (planDependenciesLoop survivorId loserIds kept dependencies).repoint.map (·.target)) := by
  induction dependencies generalizing kept with
  | nil => simpa [planDependenciesLoop] using h
  | cons edge dependencies ih =>
    unfold planDependenciesLoop
    dsimp only
    split
    · exact ih h
    · split
      · exact ih h
      · next hnew =>
        split
        · exact ih h
        · next hopen =>
          have hacyclic := not_not.1 (mt (dependencyCycleError_isSome h.acyclic).2 hopen)
          have hgrown : Sound loserIds (kept ++ [repointed survivorId loserIds edge.toDependencyEdge]) := by
            refine ⟨h.distinct.append (List.nodup_singleton _) ?_, hacyclic, fun e he => ?_⟩
            · simpa using hnew
            · rcases List.mem_append.1 he with he | he
              · exact h.untouched e he
              · rw [List.mem_singleton.1 he]
                exact touches_repointed hsurvivor _
          have hrest := ih hgrown
          rwa [List.append_assoc, List.singleton_append] at hrest

theorem planDependenciesLoop_perm :
    ((planDependenciesLoop survivorId loserIds kept dependencies).repoint.map (·.edge) ++
      (planDependenciesLoop survivorId loserIds kept dependencies).drop).Perm dependencies := by
  induction dependencies generalizing kept with
  | nil => exact .nil
  | cons edge dependencies ih =>
    unfold planDependenciesLoop
    dsimp only
    split
    · exact List.perm_middle.trans (ih.cons edge)
    · split
      · exact List.perm_middle.trans (ih.cons edge)
      · split
        · exact List.perm_middle.trans (ih.cons edge)
        · exact ih.cons edge

/-- The edges after a merge. -/
def mergedDependencies (survivorId : ItemId) (loserIds : List ItemId) (dependencies : List ItemDependency) :
    List ItemDependency :=
  writeDependencies (planDependencies survivorId loserIds dependencies) dependencies

theorem mem_mergedDependencies (hids : (dependencies.map (·.id)).Nodup) :
    x ∈ mergedDependencies survivorId loserIds dependencies ↔
      x ∈ dependencies ∧ ¬ touches loserIds x.toDependencyEdge ∨
        ∃ w ∈ (planDependencies survivorId loserIds dependencies).repoint,
          x = { w.edge with toDependencyEdge := w.target } := by
  unfold mergedDependencies writeDependencies
  have hparts : ((planDependencies survivorId loserIds dependencies).repoint.map (·.edge) ++
      (planDependencies survivorId loserIds dependencies).drop).Perm
        (dependencies.filter fun d => touches loserIds d.toDependencyEdge = true) := by
    simpa [planDependencies] using planDependenciesLoop_perm
  exact Keyed.mem_rewritten (f := fun (w : RepointedEdge) d => { d with toDependencyEdge := w.target })
    (by intro _ _; rfl) hids hparts

/-- **No edge names a merged item, and the edges are distinct and without a cycle.** -/
theorem sound_mergedDependencies (hids : (dependencies.map (·.id)).Nodup)
    (hdistinct : (dependencies.map (·.toDependencyEdge)).Nodup)
    (hacyclic : Digraph.Acyclic (DependsOn (dependencies.map (·.toDependencyEdge))))
    (hsurvivor : survivorId ∉ loserIds) :
    Sound loserIds ((mergedDependencies survivorId loserIds dependencies).map (·.toDependencyEdge)) ∧
      ((mergedDependencies survivorId loserIds dependencies).map (·.id)).Nodup := by
  have hstart : Sound loserIds
      ((dependencies.filter fun edge => ! touches loserIds edge.toDependencyEdge).map (·.toDependencyEdge)) := by
    refine ⟨hdistinct.sublist (List.filter_sublist.map _), hacyclic.mono fun a b hab => ?_, fun edge he => ?_⟩
    · exact (List.filter_sublist.map _).subset hab
    · obtain ⟨d, hd, rfl⟩ := List.mem_map.1 he
      simpa using (List.mem_filter.1 hd).2
  have hall : Sound loserIds (_ ++ (planDependencies survivorId loserIds dependencies).repoint.map (·.target)) :=
    planDependenciesLoop_sound hsurvivor hstart
  -- the edges of the rows are those that the loop has kept
  have hedges : ∀ edge, edge ∈ (mergedDependencies survivorId loserIds dependencies).map (·.toDependencyEdge) ↔
      edge ∈ (dependencies.filter fun edge => ! touches loserIds edge.toDependencyEdge).map (·.toDependencyEdge) ++
        (planDependencies survivorId loserIds dependencies).repoint.map (·.target) := by
    intro edge
    rw [List.mem_append, List.mem_map]
    constructor
    · rintro ⟨x, hx, rfl⟩
      rcases (mem_mergedDependencies hids).1 hx with ⟨hx, hout⟩ | ⟨w, hw, rfl⟩
      · exact .inl (List.mem_map_of_mem (List.mem_filter.2 ⟨hx, by simpa using hout⟩))
      · exact .inr (List.mem_map.2 ⟨w, hw, rfl⟩)
    · rintro (hedge | hedge)
      · obtain ⟨x, hx, rfl⟩ := List.mem_map.1 hedge
        obtain ⟨hx, hout⟩ := List.mem_filter.1 hx
        exact ⟨x, (mem_mergedDependencies hids).2 (.inl ⟨hx, by simpa using hout⟩), rfl⟩
      · obtain ⟨w, hw, rfl⟩ := List.mem_map.1 hedge
        exact ⟨_, (mem_mergedDependencies hids).2 (.inr ⟨w, hw, rfl⟩), rfl⟩
  have hids' : ((mergedDependencies survivorId loserIds dependencies).map (·.id)).Nodup := by
    refine Keyed.nodup_drops ?_
    have hkeys : (Keyed.writes ItemDependency.id (fun w : RepointedEdge => w.edge.id)
        (fun w d => { d with toDependencyEdge := w.target }) (planDependencies survivorId loserIds dependencies).repoint
          dependencies).map ItemDependency.id = dependencies.map ItemDependency.id :=
      Keyed.map_key_writes (by intro _ _; rfl)
    rw [hkeys]
    exact hids
  refine ⟨⟨?_, ?_, fun edge he => hall.untouched edge ((hedges edge).1 he)⟩, hids'⟩
  · refine List.Nodup.map_on (fun x hx y hy he => ?_) (hids'.of_map _)
    obtain ⟨hkept, htargets, hapart⟩ := List.nodup_append.1 hall.distinct
    rcases (mem_mergedDependencies hids).1 hx with ⟨hx, hout⟩ | ⟨w, hw, rfl⟩
    · rcases (mem_mergedDependencies hids).1 hy with ⟨hy, -⟩ | ⟨w, hw, rfl⟩
      · exact Keyed.eq_of_key hdistinct hx hy he
      · refine absurd he (hapart _ (List.mem_map_of_mem (List.mem_filter.2 ⟨hx, by simpa using hout⟩)) _ ?_)
        exact List.mem_map.2 ⟨w, hw, rfl⟩
    · rcases (mem_mergedDependencies hids).1 hy with ⟨hy, hout⟩ | ⟨w', hw', rfl⟩
      · refine absurd he.symm (hapart _ (List.mem_map_of_mem (List.mem_filter.2 ⟨hy, by simpa using hout⟩)) _ ?_)
        exact List.mem_map.2 ⟨w, hw, rfl⟩
      · rw [Keyed.eq_of_key htargets hw hw' he]
  · exact hall.acyclic.mono fun a b hab => (hedges _).1 hab

end dependencies

/-! ## Positions -/

section positions
variable {positions others rows : List TemplateItem} {tasks : List TemplateItemTask} {templateId : String}
variable {keep p r x : TemplateItem} {c : CollapsedPosition} {cs : List CollapsedPosition} {q : ℚ}

/-- The greatest of an amount and those of some positions. -/
def greatest (q : ℚ) (others : List TemplateItem) : ℚ := others.foldl (fun q p => max q p.quantity) q

theorem le_greatest (q : ℚ) (others : List TemplateItem) : q ≤ greatest q others := by
  induction others generalizing q with
  | nil => exact le_rfl
  | cons p others ih => exact (le_max_left _ _).trans (ih _)

theorem quantity_le_greatest (h : p ∈ others) (q : ℚ) : p.quantity ≤ greatest q others := by
  induction others generalizing q with
  | nil => cases h
  | cons p' others ih =>
    rcases List.mem_cons.1 h with rfl | h
    · exact (le_max_right _ _).trans (le_greatest _ _)
    · exact ih h _

theorem greatest_mem (q : ℚ) (others : List TemplateItem) :
    greatest q others = q ∨ ∃ p ∈ others, greatest q others = p.quantity := by
  induction others generalizing q with
  | nil => exact .inl rfl
  | cons p others ih =>
    rcases ih (max q p.quantity) with h | ⟨p', hp', h⟩
    · rcases max_choice q p.quantity with hmax | hmax
      · exact .inl (h.trans hmax)
      · exact .inr ⟨p, List.mem_cons_self, h.trans hmax⟩
    · exact .inr ⟨p', List.mem_cons_of_mem _ hp', h⟩

theorem mem_collapseInto (h : c ∈ collapseInto tasks keep q others) :
    c.keep = keep ∧ c.drop ∈ others ∧ c.tasks = tasksOf c.drop.id tasks := by
  induction others generalizing q with
  | nil => cases h
  | cons p others ih =>
    rcases List.mem_cons.1 h with rfl | h
    · exact ⟨rfl, List.mem_cons_self, rfl⟩
    · obtain ⟨hkeep, hdrop, htasks⟩ := ih h
      exact ⟨hkeep, List.mem_cons_of_mem _ hdrop, htasks⟩

theorem exists_collapseInto (h : p ∈ others) : ∃ c ∈ collapseInto tasks keep q others, c.drop = p := by
  induction others generalizing q with
  | nil => cases h
  | cons p' others ih =>
    rcases List.mem_cons.1 h with rfl | h
    · exact ⟨_, List.mem_cons_self, rfl⟩
    · obtain ⟨c, hc, hdrop⟩ := ih h
      exact ⟨c, List.mem_cons_of_mem _ hc, hdrop⟩

/-- The amount of a position after the collapses. -/
def quantityAfter (cs : List CollapsedPosition) (id : String) (q : ℚ) : ℚ :=
  cs.foldl (fun q c => if c.quantity ≠ c.keep.quantity ∧ c.keep.id = id then c.quantity else q) q

theorem quantityAfter_of_notMem {id : String} (h : ∀ c ∈ cs, c.keep.id ≠ id) (q : ℚ) : quantityAfter cs id q = q := by
  induction cs with
  | nil => rfl
  | cons c cs ih =>
    have hrest := ih fun c' hc' => h c' (List.mem_cons_of_mem _ hc')
    rw [quantityAfter, List.foldl_cons, if_neg fun hc => h c List.mem_cons_self hc.2]
    exact hrest

theorem quantityAfter_append (cs ds : List CollapsedPosition) (id : String) (q : ℚ) :
    quantityAfter (cs ++ ds) id q = quantityAfter ds id (quantityAfter cs id q) := List.foldl_append

/-- The position that is kept has the running maximum after each collapse. -/
theorem quantityAfter_collapseInto (h : keep.quantity ≤ q) :
    quantityAfter (collapseInto tasks keep q others) keep.id q = greatest q others := by
  induction others generalizing q with
  | nil => rfl
  | cons p others ih =>
    have hle : keep.quantity ≤ max q p.quantity := h.trans (le_max_left _ _)
    have hwritten : (if max q p.quantity ≠ keep.quantity ∧ keep.id = keep.id then max q p.quantity else q) =
        max q p.quantity := by
      split
      · rfl
      · next hsame =>
        have heq : max q p.quantity = keep.quantity := by
          by_contra hne
          exact hsame ⟨hne, rfl⟩
        exact le_antisymm (le_max_left _ _) (heq ▸ h)
    rw [collapseInto, quantityAfter, List.foldl_cons]
    dsimp only
    rw [hwritten]
    exact ih hle

/-- The positions after collapses. -/
theorem mem_collapses : x ∈ cs.foldl writeCollapse rows ↔
    ∃ r ∈ rows, (∀ c ∈ cs, c.drop.id ≠ r.id) ∧ x = { r with quantity := quantityAfter cs r.id r.quantity } := by
  induction cs generalizing rows with
  | nil =>
    constructor
    · intro h
      exact ⟨x, h, fun c hc => (nomatch hc), rfl⟩
    · rintro ⟨r, hr, -, rfl⟩
      exact hr
  | cons c cs ih =>
    have hone : ∀ r', r' ∈ writeCollapse rows c ↔ ∃ r ∈ rows, c.drop.id ≠ r.id ∧ r' = { r with
        quantity := if c.quantity ≠ c.keep.quantity ∧ c.keep.id = r.id then c.quantity else r.quantity } := by
      intro r'
      unfold writeCollapse
      rw [Keyed.mem_drop]
      split
      · next hne =>
        rw [List.mem_map]
        constructor
        · rintro ⟨⟨r, hr, rfl⟩, hid⟩
          refine ⟨r, hr, fun he => hid ?_, ?_⟩
          · split <;> exact he.symm
          · by_cases hk : r.id = c.keep.id
            · simp [hk, hne]
            · simp [hk, Ne.symm hk]
        · rintro ⟨r, hr, hid, rfl⟩
          refine ⟨⟨r, hr, ?_⟩, Ne.symm hid⟩
          by_cases hk : r.id = c.keep.id
          · simp [hk, hne]
          · simp [hk, Ne.symm hk]
      · next heq =>
        constructor
        · rintro ⟨hr, hid⟩
          exact ⟨r', hr, Ne.symm hid, by simp [heq]⟩
        · rintro ⟨r, hr, hid, rfl⟩
          have hsame : (if c.quantity ≠ c.keep.quantity ∧ c.keep.id = r.id then c.quantity else r.quantity) =
              r.quantity := if_neg fun h => heq h.1
          rw [hsame]
          exact ⟨hr, Ne.symm hid⟩
    rw [List.foldl_cons, ih]
    constructor
    · rintro ⟨r', hr', hdrops, rfl⟩
      obtain ⟨r, hr, hid, rfl⟩ := (hone r').1 hr'
      refine ⟨r, hr, fun c' hc' => ?_, rfl⟩
      rcases List.mem_cons.1 hc' with rfl | hc'
      · exact hid
      · exact hdrops c' hc'
    · rintro ⟨r, hr, hdrops, rfl⟩
      refine ⟨_, (hone _).2 ⟨r, hr, hdrops c List.mem_cons_self, rfl⟩, fun c' hc' => ?_, rfl⟩
      exact hdrops c' (List.mem_cons_of_mem _ hc')

/-- The positions of a template that a merge brings together. -/
def group (survivorId : ItemId) (loserIds : List ItemId) (positions : List TemplateItem) (templateId : String) :
    List TemplateItem :=
  positions.filter fun p => p.templateId = templateId ∧ (p.itemId = survivorId ∨ p.itemId ∈ loserIds)

theorem mem_group : p ∈ group survivorId loserIds positions templateId ↔
    p ∈ positions ∧ p.templateId = templateId ∧ (p.itemId = survivorId ∨ p.itemId ∈ loserIds) := by
  simp [group]

theorem mem_templates : templateId ∈ templates loserIds positions ↔
    ∃ p ∈ positions, p.itemId ∈ loserIds ∧ p.templateId = templateId := by
  simp only [templates, Insertion.mem_ofList, List.mem_map, List.mem_filter, decide_eq_true_iff, and_assoc]

theorem mine_perm (hlosers : loserIds.Nodup) : (mine loserIds positions templateId).Perm
    ((positions.filter (·.templateId = templateId)).filter (·.itemId ∈ loserIds)) :=
  Grouping.flatMap_filter_perm_filter TemplateItem.itemId _ hlosers

theorem mem_mine (hlosers : loserIds.Nodup) : p ∈ mine loserIds positions templateId ↔
    p ∈ positions ∧ p.templateId = templateId ∧ p.itemId ∈ loserIds := by
  rw [(mine_perm hlosers).mem_iff]
  simp only [List.mem_filter, decide_eq_true_iff, and_assoc]

/-- **What the plan says of a template**: one of its positions is kept, and the others are folded into it. -/
theorem planTemplate_spec (hpairs : (positions.map fun p => (p.templateId, p.itemId)).Nodup) (hlosers : loserIds.Nodup)
    (hsurvivor : survivorId ∉ loserIds) (hmem : templateId ∈ templates loserIds positions)
    (tasks : List TemplateItemTask) : ∃ keep others,
      (keep :: others).Perm (group survivorId loserIds positions templateId) ∧
        planTemplate survivorId loserIds positions tasks templateId =
          ⟨if keep.itemId = survivorId then [] else [keep], collapseInto tasks keep keep.quantity others⟩ := by
  have hnodup : positions.Nodup := hpairs.of_map _
  have hmine : (mine loserIds positions templateId).Nodup :=
    (mine_perm hlosers).nodup_iff.2 ((hnodup.filter _).filter _)
  have hgroup : (group survivorId loserIds positions templateId).Nodup := hnodup.filter _
  unfold planTemplate
  cases hfind : (positions.filter (·.templateId = templateId)).find? (·.itemId = survivorId) with
  | some keep =>
    have hkeep := List.mem_filter.1 (List.mem_of_find?_eq_some hfind)
    have htemplate : keep.templateId = templateId := of_decide_eq_true hkeep.2
    have hitem : keep.itemId = survivorId := by simpa using List.find?_some hfind
    refine ⟨keep, mine loserIds positions templateId, ?_, by rw [if_pos hitem]⟩
    have hnew : keep ∉ mine loserIds positions templateId := fun h =>
      hsurvivor (hitem ▸ ((mem_mine hlosers).1 h).2.2)
    refine (List.perm_ext_iff_of_nodup (List.nodup_cons.2 ⟨hnew, hmine⟩) hgroup).2 fun p => ?_
    rw [List.mem_cons, mem_mine hlosers, mem_group]
    constructor
    · rintro (rfl | ⟨hp, ht, hi⟩)
      · exact ⟨hkeep.1, htemplate, .inl hitem⟩
      · exact ⟨hp, ht, .inr hi⟩
    · rintro ⟨hp, ht, hi | hi⟩
      · exact .inl (Keyed.eq_of_key hpairs hp hkeep.1 (Prod.ext (ht.trans htemplate.symm) (hi.trans hitem.symm)))
      · exact .inr ⟨hp, ht, hi⟩
  | none =>
    have hnone : ∀ p ∈ positions, p.templateId = templateId → p.itemId ≠ survivorId := by
      intro p hp ht hi
      have hp' := List.find?_eq_none.1 hfind p (List.mem_filter.2 ⟨hp, decide_eq_true ht⟩)
      exact hp' (decide_eq_true hi)
    cases hlist : mine loserIds positions templateId with
    | nil =>
      obtain ⟨p, hp, hi, ht⟩ := mem_templates.1 hmem
      have hin := (mem_mine hlosers).2 ⟨hp, ht, hi⟩
      rw [hlist] at hin
      cases hin
    | cons keep others =>
      have hkeep : keep ∈ mine loserIds positions templateId := hlist ▸ List.mem_cons_self
      obtain ⟨hk, ht, hi⟩ := (mem_mine hlosers).1 hkeep
      refine ⟨keep, others, ?_, by rw [if_neg (hnone keep hk ht)]⟩
      rw [← hlist]
      refine (List.perm_ext_iff_of_nodup hmine hgroup).2 fun p => ?_
      rw [mem_mine hlosers, mem_group]
      constructor
      · rintro ⟨hp, ht, hi⟩
        exact ⟨hp, ht, .inr hi⟩
      · rintro ⟨hp, ht, hi | hi⟩
        · exact absurd hi (hnone p hp ht)
        · exact ⟨hp, ht, hi⟩

/-- The position after a plan. -/
def finalPosition (survivorId : ItemId) (plan : PositionPlan) (r : TemplateItem) : TemplateItem :=
  { r with
    itemId := if r.id ∈ plan.repoint.map (·.id) then survivorId else r.itemId
    quantity := quantityAfter plan.collapse r.id r.quantity }

theorem mem_writePositions {plan : PositionPlan} (hrepoint : (plan.repoint.map (·.id)).Nodup) :
    x ∈ writePositions survivorId plan positions ↔
      ∃ r ∈ positions, (∀ c ∈ plan.collapse, c.drop.id ≠ r.id) ∧ x = finalPosition survivorId plan r := by
  have hwrites : ∀ r', r' ∈ Keyed.writes TemplateItem.id TemplateItem.id
      (fun (_ : TemplateItem) p => { p with itemId := survivorId }) plan.repoint positions ↔ _ := fun r' =>
    Keyed.mem_writes (by intro _ _; rfl) hrepoint
  unfold writePositions
  rw [mem_collapses]
  constructor
  · rintro ⟨r', hr', hdrop, rfl⟩
    rcases (hwrites r').1 hr' with ⟨w, hw, r, hr, hid, rfl⟩ | ⟨hr, hid⟩
    · refine ⟨r, hr, hdrop, ?_⟩
      rw [finalPosition, if_pos (List.mem_map.2 ⟨w, hw, hid.symm⟩)]
    · refine ⟨r', hr, hdrop, ?_⟩
      rw [finalPosition, if_neg hid]
  · rintro ⟨r, hr, hdrop, rfl⟩
    by_cases hid : r.id ∈ plan.repoint.map (·.id)
    · obtain ⟨w, hw, hname⟩ := List.mem_map.1 hid
      refine ⟨{ r with itemId := survivorId }, (hwrites _).2 (.inl ⟨w, hw, r, hr, hname.symm, rfl⟩), hdrop, ?_⟩
      rw [finalPosition, if_pos hid]
    · refine ⟨r, (hwrites r).2 (.inr ⟨hr, hid⟩), hdrop, ?_⟩
      rw [finalPosition, if_neg hid]

/-- The positions as they are held. -/
structure Placed (positions : List TemplateItem) : Prop where
  ids : (positions.map (·.id)).Nodup
  pairs : (positions.map fun p => (p.templateId, p.itemId)).Nodup

theorem mem_collapse (h : Placed positions) (hlosers : loserIds.Nodup) (hsurvivor : survivorId ∉ loserIds)
    (hc : c ∈ (planPositions survivorId loserIds positions tasks).collapse) :
    ∃ t ∈ templates loserIds positions, c ∈ (planTemplate survivorId loserIds positions tasks t).collapse ∧
      c.keep ∈ group survivorId loserIds positions t ∧ c.drop ∈ group survivorId loserIds positions t := by
  simp only [planPositions, List.mem_flatMap, List.mem_map, exists_exists_and_eq_and] at hc
  obtain ⟨t, ht, hc⟩ := hc
  obtain ⟨keep, others, hperm, hplan⟩ := planTemplate_spec h.pairs hlosers hsurvivor ht tasks
  refine ⟨t, ht, hc, ?_⟩
  rw [hplan] at hc
  obtain ⟨rfl, hdrop, -⟩ := mem_collapseInto hc
  exact ⟨hperm.mem_iff.1 List.mem_cons_self, hperm.mem_iff.1 (List.mem_cons_of_mem _ hdrop)⟩

theorem mem_planTemplate_repoint (h : Placed positions) (hlosers : loserIds.Nodup) (hsurvivor : survivorId ∉ loserIds)
    (ht : templateId ∈ templates loserIds positions)
    (hp : p ∈ (planTemplate survivorId loserIds positions tasks templateId).repoint) :
    p ∈ group survivorId loserIds positions templateId := by
  obtain ⟨keep, others, hperm, hplan⟩ := planTemplate_spec h.pairs hlosers hsurvivor ht tasks
  rw [hplan] at hp
  dsimp only at hp
  split at hp
  · cases hp
  · rw [List.mem_singleton.1 hp]
    exact hperm.mem_iff.1 List.mem_cons_self

theorem nodup_planRepoint (h : Placed positions) (hlosers : loserIds.Nodup) (hsurvivor : survivorId ∉ loserIds) :
    ((planPositions survivorId loserIds positions tasks).repoint.map (·.id)).Nodup := by
  have hrepoint : (planPositions survivorId loserIds positions tasks).repoint.Nodup := by
    unfold planPositions
    dsimp only
    rw [List.flatMap_map, List.nodup_flatMap]
    constructor
    · intro t ht
      obtain ⟨keep, others, -, hplan⟩ := planTemplate_spec h.pairs hlosers hsurvivor ht tasks
      rw [hplan]
      dsimp only
      split
      · exact List.nodup_nil
      · exact List.nodup_singleton _
    · -- the positions of two templates are different
      refine List.Pairwise.imp_of_mem (fun {t t'} ht ht' hne p hp hp' => ?_) (Insertion.nodup_ofList _)
      have hin := mem_group.1 (mem_planTemplate_repoint h hlosers hsurvivor ht hp)
      have hin' := mem_group.1 (mem_planTemplate_repoint h hlosers hsurvivor ht' hp')
      exact hne (hin.2.1.symm.trans hin'.2.1)
  refine List.Nodup.map_on (fun p hp p' hp' hid => ?_) hrepoint
  simp only [planPositions, List.mem_flatMap, List.mem_map, exists_exists_and_eq_and] at hp hp'
  obtain ⟨t, ht, hp⟩ := hp
  obtain ⟨t', ht', hp'⟩ := hp'
  have hin := mem_group.1 (mem_planTemplate_repoint h hlosers hsurvivor ht hp)
  have hin' := mem_group.1 (mem_planTemplate_repoint h hlosers hsurvivor ht' hp')
  exact Keyed.eq_of_key h.ids hin.1 hin'.1 hid

/-- The position is in a template with a merged item, and is the survivor's or a merged item's. -/
def Grouped (survivorId : ItemId) (loserIds : List ItemId) (positions : List TemplateItem) (r : TemplateItem) : Prop :=
  r.templateId ∈ templates loserIds positions ∧ r ∈ group survivorId loserIds positions r.templateId

/-- The other positions stay as they are. -/
theorem finalPosition_of_not (h : Placed positions) (hlosers : loserIds.Nodup) (hsurvivor : survivorId ∉ loserIds)
    (hr : r ∈ positions) (hout : ¬ Grouped survivorId loserIds positions r) (tasks : List TemplateItemTask) :
    (∀ c ∈ (planPositions survivorId loserIds positions tasks).collapse, c.drop.id ≠ r.id ∧ c.keep.id ≠ r.id) ∧
      finalPosition survivorId (planPositions survivorId loserIds positions tasks) r = r := by
  have hno : ∀ t ∈ templates loserIds positions, ∀ p ∈ group survivorId loserIds positions t, p.id ≠ r.id := by
    intro t ht p hp hid
    have hp' := mem_group.1 hp
    obtain rfl : p = r := Keyed.eq_of_key h.ids hp'.1 hr hid
    exact hout ⟨hp'.2.1 ▸ ht, hp'.2.1 ▸ hp⟩
  have hcollapse : ∀ c ∈ (planPositions survivorId loserIds positions tasks).collapse,
      c.drop.id ≠ r.id ∧ c.keep.id ≠ r.id := by
    intro c hc
    obtain ⟨t, ht, -, hkeep, hdrop⟩ := mem_collapse h hlosers hsurvivor hc
    exact ⟨hno t ht _ hdrop, hno t ht _ hkeep⟩
  refine ⟨hcollapse, ?_⟩
  have hrepoint : r.id ∉ (planPositions survivorId loserIds positions tasks).repoint.map (·.id) := by
    intro hid
    obtain ⟨p, hp, hid⟩ := List.mem_map.1 hid
    simp only [planPositions, List.mem_flatMap, List.mem_map, exists_exists_and_eq_and] at hp
    obtain ⟨t, ht, hp⟩ := hp
    exact hno t ht p (mem_planTemplate_repoint h hlosers hsurvivor ht hp) hid
  rw [finalPosition, if_neg hrepoint, quantityAfter_of_notMem fun c hc => (hcollapse c hc).2]

/-- **The positions of a template that come together**: the one that is kept is the survivor's, with the greatest
amount, and the others are dropped. -/
theorem finalPosition_group (h : Placed positions) (hlosers : loserIds.Nodup) (hsurvivor : survivorId ∉ loserIds)
    (ht : templateId ∈ templates loserIds positions) (tasks : List TemplateItemTask) : ∃ keep others,
      (keep :: others).Perm (group survivorId loserIds positions templateId) ∧
      (∀ c, c ∈ (planPositions survivorId loserIds positions tasks).collapse ∧ c.keep.id = keep.id ↔
        c ∈ collapseInto tasks keep keep.quantity others) ∧
      (∀ c ∈ (planPositions survivorId loserIds positions tasks).collapse, c.drop.id ≠ keep.id) ∧
      (∀ p ∈ others, ∃ c ∈ (planPositions survivorId loserIds positions tasks).collapse, c.drop.id = p.id) ∧
      finalPosition survivorId (planPositions survivorId loserIds positions tasks) keep =
        { keep with itemId := survivorId, quantity := greatest keep.quantity others } := by
  obtain ⟨keep, others, hperm, hplan⟩ := planTemplate_spec h.pairs hlosers hsurvivor ht tasks
  have hkeep : keep ∈ group survivorId loserIds positions templateId := hperm.mem_iff.1 List.mem_cons_self
  have hnew : keep ∉ others := by
    have hnodup : (group survivorId loserIds positions templateId).Nodup := (h.pairs.of_map _).filter _
    exact (List.nodup_cons.1 (hperm.nodup_iff.2 hnodup)).1
  -- a collapse that names a position of the template is one of the template's
  have hhere : ∀ c ∈ (planPositions survivorId loserIds positions tasks).collapse,
      (c.keep.id = keep.id ∨ c.drop.id = keep.id) → c ∈ collapseInto tasks keep keep.quantity others := by
    intro c hc hid
    obtain ⟨t, ht', hc, hk, hd⟩ := mem_collapse h hlosers hsurvivor hc
    have htemplate : t = templateId := by
      rcases hid with hid | hid
      · have he := Keyed.eq_of_key h.ids (mem_group.1 hk).1 (mem_group.1 hkeep).1 hid
        rw [← (mem_group.1 hk).2.1, he, (mem_group.1 hkeep).2.1]
      · have he := Keyed.eq_of_key h.ids (mem_group.1 hd).1 (mem_group.1 hkeep).1 hid
        rw [← (mem_group.1 hd).2.1, he, (mem_group.1 hkeep).2.1]
    rw [htemplate, hplan] at hc
    exact hc
  have hmem : ∀ c ∈ collapseInto tasks keep keep.quantity others,
      c ∈ (planPositions survivorId loserIds positions tasks).collapse := by
    intro c hc
    simp only [planPositions, List.mem_flatMap, List.mem_map, exists_exists_and_eq_and]
    exact ⟨templateId, ht, by rw [hplan]; exact hc⟩
  have hdrop : ∀ c ∈ (planPositions survivorId loserIds positions tasks).collapse, c.drop.id ≠ keep.id := by
    intro c hc hid
    have hin := (mem_collapseInto (hhere c hc (.inr hid))).2.1
    have hgroup := mem_group.1 (hperm.mem_iff.1 (List.mem_cons_of_mem keep hin))
    rw [Keyed.eq_of_key h.ids hgroup.1 (mem_group.1 hkeep).1 hid] at hin
    exact hnew hin
  refine ⟨keep, others, hperm, fun c => ⟨fun hc => hhere c hc.1 (.inl hc.2), fun hc => ⟨hmem c hc, ?_⟩⟩, hdrop,
    fun p hp => ?_, ?_⟩
  · rw [(mem_collapseInto hc).1]
  · obtain ⟨c, hc, hcp⟩ : ∃ c ∈ collapseInto tasks keep keep.quantity others, c.drop = p := exists_collapseInto hp
    exact ⟨c, hmem c hc, by rw [hcp]⟩
  · have hitem : (if keep.id ∈ (planPositions survivorId loserIds positions tasks).repoint.map (·.id) then survivorId
        else keep.itemId) = survivorId := by
      split
      · rfl
      · next hnot =>
        by_contra hne
        refine hnot (List.mem_map_of_mem ?_)
        simp only [planPositions, List.mem_flatMap, List.mem_map, exists_exists_and_eq_and]
        exact ⟨templateId, ht, by rw [hplan, if_neg hne]; exact List.mem_singleton_self keep⟩
    have hquantity : quantityAfter (planPositions survivorId loserIds positions tasks).collapse keep.id keep.quantity =
        greatest keep.quantity others := by
      obtain ⟨pre, post, hsplit⟩ := List.append_of_mem ht
      have hnodup : (templates loserIds positions).Nodup := Insertion.nodup_ofList _
      rw [hsplit, List.nodup_middle, List.nodup_cons, List.mem_append, not_or] at hnodup
      -- the collapses of the other templates leave the position alone
      have hothers : ∀ ts : List String, templateId ∉ ts → (∀ t ∈ ts, t ∈ templates loserIds positions) →
          ∀ c ∈ ts.flatMap fun t => (planTemplate survivorId loserIds positions tasks t).collapse,
            c.keep.id ≠ keep.id := by
        intro ts hts hsub c hc hid
        obtain ⟨t, ht', hc⟩ := List.mem_flatMap.1 hc
        obtain ⟨keep', others', hperm', hplan'⟩ := planTemplate_spec h.pairs hlosers hsurvivor (hsub t ht') tasks
        rw [hplan'] at hc
        have hin := mem_group.1 (hperm'.mem_iff.1 List.mem_cons_self)
        rw [(mem_collapseInto hc).1] at hid
        have he := Keyed.eq_of_key h.ids hin.1 (mem_group.1 hkeep).1 hid
        rw [he, (mem_group.1 hkeep).2.1] at hin
        exact hts (hin.2.1 ▸ ht')
      have hcollapse : (planPositions survivorId loserIds positions tasks).collapse =
          (pre.flatMap fun t => (planTemplate survivorId loserIds positions tasks t).collapse) ++
            (collapseInto tasks keep keep.quantity others ++
              post.flatMap fun t => (planTemplate survivorId loserIds positions tasks t).collapse) := by
        simp only [planPositions, hsplit, List.flatMap_map, List.flatMap_append, List.flatMap_cons, hplan]
      have hpre := hothers pre hnodup.1.1 fun t ht' => hsplit ▸ List.mem_append_left _ ht'
      have hpost := hothers post hnodup.1.2 fun t ht' =>
        hsplit ▸ List.mem_append_right _ (List.mem_cons_of_mem _ ht')
      rw [hcollapse, quantityAfter_append, quantityAfter_append, quantityAfter_of_notMem hpre,
        quantityAfter_collapseInto le_rfl, quantityAfter_of_notMem hpost]
    rw [finalPosition, hitem, hquantity]

/-- The one of them that is not dropped. -/
theorem eq_keep (hr : r ∈ group survivorId loserIds positions templateId)
    (hperm : (keep :: others).Perm (group survivorId loserIds positions templateId))
    (hothers : ∀ p ∈ others, ∃ c ∈ cs, c.drop.id = p.id) (hstays : ∀ c ∈ cs, c.drop.id ≠ r.id) : r = keep := by
  rcases List.mem_cons.1 (hperm.mem_iff.2 hr) with rfl | hr
  · rfl
  · obtain ⟨c, hc, hdrop⟩ := hothers r hr
    exact absurd hdrop (hstays c hc)

theorem ids_collapses (h : (rows.map (·.id)).Nodup) (cs : List CollapsedPosition) :
    ((cs.foldl writeCollapse rows).map (·.id)).Nodup := by
  induction cs generalizing rows with
  | nil => exact h
  | cons c cs ih =>
    refine ih (Keyed.nodup_drop ?_)
    split
    · have hids : (rows.map fun p => if p.id = c.keep.id then { p with quantity := c.quantity } else p).map (·.id) =
          rows.map (·.id) := by
        rw [List.map_map]
        refine List.map_congr_left fun p _ => ?_
        dsimp only [Function.comp_apply]
        split <;> rfl
      rw [hids]
      exact h
    · exact h

/-- The positions after a merge. -/
def mergedPositions (survivorId : ItemId) (loserIds : List ItemId) (positions : List TemplateItem)
    (tasks : List TemplateItemTask) : List TemplateItem :=
  writePositions survivorId (planPositions survivorId loserIds positions tasks) positions

/-- A position after a merge: one that stays, or the one that is kept of its template. -/
theorem mem_mergedPositions (h : Placed positions) (hlosers : loserIds.Nodup) (hsurvivor : survivorId ∉ loserIds)
    (hx : x ∈ mergedPositions survivorId loserIds positions tasks) :
    (x ∈ positions ∧ ¬ Grouped survivorId loserIds positions x) ∨
      ∃ r, Grouped survivorId loserIds positions r ∧ x.itemId = survivorId ∧ x.templateId = r.templateId ∧
        (∀ c ∈ (planPositions survivorId loserIds positions tasks).collapse, c.drop.id ≠ r.id) ∧
        x = finalPosition survivorId (planPositions survivorId loserIds positions tasks) r := by
  obtain ⟨r, hr, hstays, rfl⟩ := (mem_writePositions (nodup_planRepoint h hlosers hsurvivor)).1 hx
  by_cases hgroup : Grouped survivorId loserIds positions r
  · obtain ⟨keep, others, hperm, -, -, hothers, hfinal⟩ := finalPosition_group h hlosers hsurvivor hgroup.1 tasks
    obtain rfl := eq_keep hgroup.2 hperm hothers hstays
    exact .inr ⟨r, hgroup, by rw [hfinal], rfl, hstays, rfl⟩
  · rw [(finalPosition_of_not h hlosers hsurvivor hr hgroup tasks).2]
    exact .inl ⟨hr, hgroup⟩

/-- **The positions stay as they are held**: a template has an item once. -/
theorem placed_mergedPositions (h : Placed positions) (hlosers : loserIds.Nodup) (hsurvivor : survivorId ∉ loserIds) :
    Placed (mergedPositions survivorId loserIds positions tasks) := by
  have hids : ((mergedPositions survivorId loserIds positions tasks).map (·.id)).Nodup := by
    refine ids_collapses ?_ _
    have hkeys : (Keyed.writes TemplateItem.id TemplateItem.id
        (fun (_ : TemplateItem) p => { p with itemId := survivorId })
          (planPositions survivorId loserIds positions tasks).repoint positions).map TemplateItem.id =
        positions.map TemplateItem.id := Keyed.map_key_writes (by intro _ _; rfl)
    rw [hkeys]
    exact h.ids
  refine ⟨hids, List.Nodup.map_on (fun x hx y hy he => ?_) (hids.of_map _)⟩
  obtain ⟨htemplate, hitem⟩ := Prod.mk.inj he
  -- a position of the survivor in a template with a merged item is one of those that come together
  have hown : ∀ p ∈ positions, ∀ r, Grouped survivorId loserIds positions r → p.templateId = r.templateId →
      p.itemId = survivorId → Grouped survivorId loserIds positions p := fun p hp r hr ht hi =>
    ⟨ht ▸ hr.1, mem_group.2 ⟨hp, rfl, .inl hi⟩⟩
  rcases mem_mergedPositions h hlosers hsurvivor hx with ⟨hx, hout⟩ | ⟨r, hr, hxi, hxt, hstays, rfl⟩
  · rcases mem_mergedPositions h hlosers hsurvivor hy with ⟨hy, -⟩ | ⟨r, hr, hyi, hyt, -, -⟩
    · exact Keyed.eq_of_key h.pairs hx hy he
    · exact absurd (hown x hx r hr (htemplate.trans hyt) (hitem.trans hyi)) hout
  · rcases mem_mergedPositions h hlosers hsurvivor hy with ⟨hy, hout⟩ | ⟨r', hr', -, hyt, hstays', rfl⟩
    · exact absurd (hown y hy r hr (htemplate.symm.trans hxt) (hitem.symm.trans hxi)) hout
    · obtain ⟨keep, others, hperm, -, -, hothers, -⟩ := finalPosition_group h hlosers hsurvivor hr.1 tasks
      have hsame : r'.templateId = r.templateId := hyt.symm.trans (htemplate.symm.trans hxt)
      rw [eq_keep hr.2 hperm hothers hstays, eq_keep (hsame ▸ hr'.2) hperm hothers hstays']

/-- No position names a merged item. -/
theorem mergedPositions_freed (h : Placed positions) (hlosers : loserIds.Nodup) (hsurvivor : survivorId ∉ loserIds)
    (hx : x ∈ mergedPositions survivorId loserIds positions tasks) : x.itemId ∉ loserIds := by
  rcases mem_mergedPositions h hlosers hsurvivor hx with ⟨hx, hout⟩ | ⟨r, -, hitem, -⟩
  · exact fun hmem => hout ⟨mem_templates.2 ⟨x, hx, hmem, rfl⟩, mem_group.2 ⟨hx, rfl, .inr hmem⟩⟩
  · exact hitem ▸ hsurvivor

/-- The tasks of a position that is not dropped, after collapses. -/
theorem mem_tasksOf_collapses {id text : String} (hstays : ∀ c ∈ cs, c.drop.id ≠ id) :
    text ∈ tasksOf id (cs.foldl (fun tasks c => (tasks ++ c.tasks.map fun task =>
      (⟨c.keep.id, task⟩ : TemplateItemTask)).filter (·.templateItemId ≠ c.drop.id)) tasks) ↔
      text ∈ tasksOf id tasks ∨ ∃ c ∈ cs, c.keep.id = id ∧ text ∈ c.tasks := by
  induction cs generalizing tasks with
  | nil => simp
  | cons c cs ih =>
    have hone : text ∈ tasksOf id ((tasks ++ c.tasks.map fun task => (⟨c.keep.id, task⟩ : TemplateItemTask)).filter
        (·.templateItemId ≠ c.drop.id)) ↔ text ∈ tasksOf id tasks ∨ c.keep.id = id ∧ text ∈ c.tasks := by
      have hfilter : ∀ l : List TemplateItemTask, (l.filter (·.templateItemId ≠ c.drop.id)).filter
          (·.templateItemId = id) = l.filter (·.templateItemId = id) := by
        intro l
        rw [List.filter_filter]
        refine List.filter_congr fun t _ => ?_
        by_cases ht : t.templateItemId = id
        · simp [ht, Ne.symm (hstays c List.mem_cons_self)]
        · simp [ht]
      rw [tasksOf, hfilter, List.filter_append, List.map_append, List.mem_append]
      refine or_congr_right ?_
      simp only [List.mem_map, List.mem_filter, decide_eq_true_iff]
      constructor
      · rintro ⟨t, ⟨⟨task, htask, rfl⟩, hid⟩, rfl⟩
        exact ⟨hid, htask⟩
      · rintro ⟨hid, htask⟩
        exact ⟨⟨c.keep.id, text⟩, ⟨⟨text, htask, rfl⟩, hid⟩, rfl⟩
    rw [List.foldl_cons, ih fun c' hc' => hstays c' (List.mem_cons_of_mem _ hc'), hone]
    simp only [List.mem_cons, exists_eq_or_imp, or_assoc]

/-- What a merge leaves of the positions of a template: one of the survivor, with the greatest amount and all tasks. -/
structure Gathered (survivorId : ItemId) (parts : List TemplateItem) (tasks : List TemplateItemTask)
    (x : TemplateItem) (tasks' : List TemplateItemTask) : Prop where
  item : x.itemId = survivorId
  upper : ∀ p ∈ parts, p.quantity ≤ x.quantity
  attained : ∃ p ∈ parts, x.quantity = p.quantity
  texts : ∀ text, text ∈ tasksOf x.id tasks' ↔ ∃ p ∈ parts, text ∈ tasksOf p.id tasks

/-- **No template loses an item, an amount or a task.** -/
theorem gathered_mergedPositions (h : Placed positions) (hlosers : loserIds.Nodup) (hsurvivor : survivorId ∉ loserIds)
    (hp : p ∈ group survivorId loserIds positions templateId) (tasks : List TemplateItemTask) :
    ∃ x ∈ mergedPositions survivorId loserIds positions tasks, x.templateId = templateId ∧
      Gathered survivorId (group survivorId loserIds positions templateId) tasks x
        (writeTasks (planPositions survivorId loserIds positions tasks) tasks) := by
  by_cases ht : templateId ∈ templates loserIds positions
  · obtain ⟨keep, others, hperm, hcollapse, hstays, hothers, hfinal⟩ :=
      finalPosition_group h hlosers hsurvivor ht tasks
    have hkeep := mem_group.1 (hperm.mem_iff.1 (List.mem_cons_self (a := keep) (l := others)))
    refine ⟨_, (mem_writePositions (nodup_planRepoint h hlosers hsurvivor)).2 ⟨keep, hkeep.1, hstays, rfl⟩,
      hkeep.2.1, ?_⟩
    rw [hfinal]
    refine ⟨rfl, fun p hp => ?_, ?_, fun text => ?_⟩
    · rcases List.mem_cons.1 (hperm.mem_iff.2 hp) with rfl | hp
      · exact le_greatest _ _
      · exact quantity_le_greatest hp _
    · rcases greatest_mem keep.quantity others with hg | ⟨p, hp, hg⟩
      · exact ⟨keep, hperm.mem_iff.1 List.mem_cons_self, hg⟩
      · exact ⟨p, hperm.mem_iff.1 (List.mem_cons_of_mem _ hp), hg⟩
    · unfold writeTasks
      rw [mem_tasksOf_collapses hstays]
      constructor
      · rintro (htext | ⟨c, hc, hid, htext⟩)
        · exact ⟨keep, hperm.mem_iff.1 List.mem_cons_self, htext⟩
        · obtain ⟨-, hdrop, htasks⟩ := mem_collapseInto ((hcollapse c).1 ⟨hc, hid⟩)
          exact ⟨c.drop, hperm.mem_iff.1 (List.mem_cons_of_mem _ hdrop), htasks ▸ htext⟩
      · rintro ⟨p, hp, htext⟩
        rcases List.mem_cons.1 (hperm.mem_iff.2 hp) with rfl | hp
        · exact .inl htext
        · obtain ⟨c, hc, rfl⟩ : ∃ c ∈ collapseInto tasks keep keep.quantity others, c.drop = p := exists_collapseInto hp
          obtain ⟨hin, hid⟩ := (hcollapse c).2 hc
          exact .inr ⟨c, hin, hid, (mem_collapseInto hc).2.2 ▸ htext⟩
  · -- without a merged item in it, the template keeps the survivor's position
    obtain ⟨hmem, htemplate, hitem⟩ := mem_group.1 hp
    have hout : ¬ Grouped survivorId loserIds positions p := fun hgroup => ht (htemplate ▸ hgroup.1)
    obtain ⟨hstays, hfinal⟩ := finalPosition_of_not h hlosers hsurvivor hmem hout tasks
    have hown : p.itemId = survivorId :=
      hitem.resolve_right fun hi => ht (mem_templates.2 ⟨p, hmem, hi, htemplate⟩)
    have honly : ∀ p' ∈ group survivorId loserIds positions templateId, p' = p := by
      intro p' hp'
      obtain ⟨hmem', htemplate', hitem'⟩ := mem_group.1 hp'
      have hown' : p'.itemId = survivorId :=
        hitem'.resolve_right fun hi => ht (mem_templates.2 ⟨p', hmem', hi, htemplate'⟩)
      exact Keyed.eq_of_key h.pairs hmem' hmem (Prod.ext (htemplate'.trans htemplate.symm) (hown'.trans hown.symm))
    refine ⟨p, (mem_writePositions (nodup_planRepoint h hlosers hsurvivor)).2 ⟨p, hmem, fun c hc => (hstays c hc).1,
      hfinal.symm⟩, htemplate, hown, fun p' hp' => by rw [honly p' hp'], ⟨p, hp, rfl⟩, fun text => ?_⟩
    unfold writeTasks
    rw [mem_tasksOf_collapses fun c hc => (hstays c hc).1]
    constructor
    · rintro (htext | ⟨c, hc, hid, -⟩)
      · exact ⟨p, hp, htext⟩
      · exact absurd hid (hstays c hc).2
    · rintro ⟨p', hp', htext⟩
      exact .inl (honly p' hp' ▸ htext)

end positions

end

/-! ## One merge -/

/-- The rows as the store holds them: by their ids, no pair twice, and no dependency in a cycle. -/
structure Inventory.Ok (s : Inventory) : Prop where
  items : (s.items.map (·.id)).Nodup
  assignments : (s.assignments.map (·.id)).Nodup
  assigned : (s.assignments.map fun a => (a.itemId, a.tagId)).Nodup
  dependencies : (s.dependencies.map (·.id)).Nodup
  edges : (s.dependencies.map (·.toDependencyEdge)).Nodup
  acyclic : Digraph.Acyclic (DependsOn (s.dependencies.map (·.toDependencyEdge)))
  positions : Placed s.positions

/-- Nothing names a merged item. -/
structure Freed (loserIds : List ItemId) (s : Inventory) : Prop where
  assignments : ∀ a ∈ s.assignments, ¬ Going loserIds a
  dependencies : ∀ d ∈ s.dependencies, touches loserIds d.toDependencyEdge = false
  positions : ∀ p ∈ s.positions, p.itemId ∉ loserIds

/-- The survivor's heading stays, and each template has it once for all the items it had of these. -/
structure Merged {κ : Type*} [LinearOrder κ] (collate : String → κ) (survivorId : ItemId) (loserIds : List ItemId)
    (s s' : Inventory) : Prop where
  primary : ∀ tag, primaryTagOf collate survivorId.text s.assignments = some tag →
    primaryTagOf collate survivorId.text s'.assignments = some tag
  gathered : ∀ templateId, group survivorId loserIds s.positions templateId ≠ [] →
    ∃ x, s'.positions.filter (fun p => p.templateId = templateId ∧ p.itemId = survivorId) = [x] ∧
      Gathered survivorId (group survivorId loserIds s.positions templateId) s.tasks x s'.tasks

/-- `mergeMasterItems`: the plan is written, if there is one. -/
def mergeMasterItems (survivorId : ItemId) (loserIds : List ItemId) (s : Inventory) : Inventory :=
  match planItemMerge survivorId loserIds s with
  | .ok plan => plan.write survivorId s
  | .error _ => s

section merge
variable {survivorId : ItemId} {loserIds : List ItemId} {s : Inventory}

theorem mergeMasterItems_eq (hsurvivor : survivorId ∉ loserIds) : ∃ plan,
    planItemMerge survivorId loserIds s = .ok plan ∧ mergeMasterItems survivorId loserIds s = plan.write survivorId s ∧
      plan = ⟨planTags survivorId loserIds s.assignments, planDependencies survivorId loserIds s.dependencies,
        planPositions survivorId loserIds s.positions s.tasks, planAliases loserIds s.items⟩ := by
  have hplan : planItemMerge survivorId loserIds s = .ok _ := if_neg hsurvivor
  exact ⟨_, hplan, by rw [mergeMasterItems, hplan], rfl⟩

/-- A list with distinct keys has one row of a key. -/
theorem filter_eq_singleton {positions : List TemplateItem} (h : Placed positions) {x : TemplateItem}
    (hx : x ∈ positions) :
    positions.filter (fun p => p.templateId = x.templateId ∧ p.itemId = x.itemId) = [x] := by
  refine List.perm_singleton.1 ((List.perm_ext_iff_of_nodup ((h.pairs.of_map _).filter _)
    (List.nodup_singleton x)).2 fun p => ?_)
  rw [List.mem_filter, List.mem_singleton, decide_eq_true_iff]
  constructor
  · rintro ⟨hp, ht, hi⟩
    exact Keyed.eq_of_key h.pairs hp hx (Prod.ext ht hi)
  · rintro rfl
    exact ⟨hx, rfl, rfl⟩

/-- **The rows stay as they should be.** -/
theorem merge_ok (h : s.Ok) (hlosers : loserIds.Nodup) (hsurvivor : survivorId ∉ loserIds) :
    (mergeMasterItems survivorId loserIds s).Ok := by
  obtain ⟨plan, -, hmerge, rfl⟩ := mergeMasterItems_eq (s := s) hsurvivor
  obtain ⟨hsound, hids⟩ := sound_mergedDependencies h.dependencies h.edges h.acyclic hsurvivor
  rw [hmerge]
  refine ⟨?_, ids_writeTags _ h.assignments, pairs_writeTags h.assignments h.assigned hlosers, hids, hsound.distinct,
    hsound.acyclic, placed_mergedPositions h.positions hlosers hsurvivor⟩
  have hkeys : (writeAliases survivorId (planAliases loserIds s.items) s.items).map MasterItem.id =
    s.items.map MasterItem.id := Keyed.map_key_writes (by intro _ _; rfl)
  exact hkeys ▸ h.items

theorem merge_freed (h : s.Ok) (hlosers : loserIds.Nodup) (hsurvivor : survivorId ∉ loserIds) :
    Freed loserIds (mergeMasterItems survivorId loserIds s) := by
  obtain ⟨plan, -, hmerge, rfl⟩ := mergeMasterItems_eq (s := s) hsurvivor
  rw [hmerge]
  refine ⟨fun a => writeTags_freed h.assignments hlosers hsurvivor, fun d hd => ?_,
    fun p => mergedPositions_freed h.positions hlosers hsurvivor⟩
  obtain ⟨hsound, -⟩ := sound_mergedDependencies h.dependencies h.edges h.acyclic hsurvivor
  exact hsound.untouched _ (List.mem_map_of_mem hd)

/-- **The survivor keeps its heading, and no template loses an item, an amount or a task.** -/
theorem merge_merged {κ : Type*} [LinearOrder κ] (collate : String → κ) (h : s.Ok) (hlosers : loserIds.Nodup)
    (hsurvivor : survivorId ∉ loserIds) :
    Merged collate survivorId loserIds s (mergeMasterItems survivorId loserIds s) := by
  obtain ⟨plan, -, hmerge, rfl⟩ := mergeMasterItems_eq (s := s) hsurvivor
  rw [hmerge]
  refine ⟨fun tag => primaryTagOf_writeTags collate h.assignments hlosers hsurvivor, fun templateId hgroup => ?_⟩
  obtain ⟨p, hp⟩ := List.exists_mem_of_ne_nil _ hgroup
  obtain ⟨x, hx, rfl, hgathered⟩ := gathered_mergedPositions h.positions hlosers hsurvivor hp s.tasks
  have hone := filter_eq_singleton (placed_mergedPositions h.positions hlosers hsurvivor) hx
  rw [hgathered.item] at hone
  exact ⟨x, hone, hgathered⟩

end merge

/-! ## Merges, one after the other -/

/-- A merge that is asked for. -/
structure Merge where
  survivorId : ItemId
  loserIds : List ItemId

/-- The device, merge after merge. -/
def machine : Machine Inventory Merge Unit where
  step s m := ((), mergeMasterItems m.survivorId m.loserIds s)

/-- Other items are merged into an item that is not merged into another. -/
structure Merge.Allowed (s : Inventory) (m : Merge) : Prop where
  distinct : m.loserIds.Nodup
  others : m.survivorId ∉ m.loserIds
  unaliased : ∃ row ∈ s.items, row.id = m.survivorId ∧ row.mergedIntoId = none

/-- The item that holds another one after some merges: a merge of either moves it to the survivor. -/
def holder (ms : List Merge) (id : ItemId) : Option ItemId :=
  ms.foldl (fun held m => if id ∈ m.loserIds ∨ held.any (· ∈ m.loserIds) then some m.survivorId else held) none

/-- The items are aliased at those that hold them, and these are not aliased. -/
def Aliased (held : ItemId → Option ItemId) (items : List MasterItem) : Prop :=
  ∀ id t, held id = some t → (∀ row ∈ items, row.id = id → row.mergedIntoId = some t) ∧
    ∃ row ∈ items, row.id = t ∧ row.mergedIntoId = none

section aliases
variable {items : List MasterItem} {survivorId : ItemId} {loserIds : List ItemId} {x : MasterItem} {s : Inventory}
variable {m : Merge} {ms : List Merge}

/-- The items after a merge: those that go and those aliased at them are aliased at the survivor. -/
theorem mem_writeAliases (hitems : (items.map (·.id)).Nodup) (hlosers : loserIds.Nodup) :
    x ∈ writeAliases survivorId (planAliases loserIds items) items ↔ ∃ row ∈ items,
      x = if row.id ∈ loserIds ∨ row.mergedIntoId.any (· ∈ loserIds) then { row with mergedIntoId := some survivorId }
        else row := by
  have hnames : ((planAliases loserIds items).map id).Nodup := by
    rw [List.map_id]
    refine hlosers.append ((hitems.sublist (List.filter_sublist.map _)).filter _) fun id hid hid' => ?_
    exact of_decide_eq_true (List.mem_filter.1 hid').2 hid
  have hmoved : ∀ row ∈ items, row.id ∈ (planAliases loserIds items).map id ↔
      row.id ∈ loserIds ∨ row.mergedIntoId.any (· ∈ loserIds) := by
    intro row hrow
    rw [List.map_id, planAliases, List.mem_append]
    constructor
    · rintro (hid | hid)
      · exact .inl hid
      · obtain ⟨row', hrow', hid⟩ := List.mem_map.1 (List.mem_filter.1 hid).1
        obtain ⟨hrow', hany⟩ := List.mem_filter.1 hrow'
        exact .inr (Keyed.eq_of_key hitems hrow' hrow hid ▸ hany)
    · intro hid
      by_cases hmem : row.id ∈ loserIds
      · exact .inl hmem
      · exact .inr (List.mem_filter.2 ⟨List.mem_map_of_mem (List.mem_filter.2 ⟨hrow, hid.resolve_left hmem⟩),
          decide_eq_true hmem⟩)
  have hwrites : x ∈ writeAliases survivorId (planAliases loserIds items) items ↔ _ :=
    Keyed.mem_writes (by intro _ _; rfl) hnames
  rw [hwrites]
  constructor
  · rintro (⟨moved, hmem, row, hrow, hname, rfl⟩ | ⟨hx, hid⟩)
    · have hin : row.id ∈ (planAliases loserIds items).map id := List.mem_map.2 ⟨moved, hmem, hname.symm⟩
      exact ⟨row, hrow, by rw [if_pos ((hmoved row hrow).1 hin)]⟩
    · exact ⟨x, hx, by rw [if_neg fun h => hid ((hmoved x hx).2 h)]⟩
  · rintro ⟨row, hrow, rfl⟩
    split
    · next h =>
      have hmem := (hmoved row hrow).2 h
      rw [List.map_id] at hmem
      exact .inl ⟨row.id, hmem, row, hrow, rfl, rfl⟩
    · next h => exact .inr ⟨hrow, fun hid => h ((hmoved row hrow).1 hid)⟩

/-- **A merge moves what the merged items held** to the survivor, and leaves what others hold. -/
theorem aliased_merge {held : ItemId → Option ItemId} (hitems : (s.items.map (·.id)).Nodup) (hm : m.Allowed s)
    (h : Aliased held s.items) :
    Aliased (fun id => if id ∈ m.loserIds ∨ (held id).any (· ∈ m.loserIds) then some m.survivorId else held id)
      (mergeMasterItems m.survivorId m.loserIds s).items := by
  obtain ⟨plan, -, hmerge, rfl⟩ := mergeMasterItems_eq (s := s) hm.others
  rw [hmerge]
  have hrows : ∀ x, x ∈ writeAliases m.survivorId (planAliases m.loserIds s.items) s.items ↔ _ := fun x =>
    mem_writeAliases hitems hm.distinct
  -- an item that is not aliased and does not go is left alone
  have hstays : ∀ row ∈ s.items, row.id ∉ m.loserIds → row.mergedIntoId = none →
      row ∈ writeAliases m.survivorId (planAliases m.loserIds s.items) s.items := by
    intro row hrow hid hnone
    refine (hrows row).2 ⟨row, hrow, ?_⟩
    rw [if_neg]
    rintro (h | h)
    · exact hid h
    · rw [hnone] at h
      cases h
  intro id t ht
  dsimp only at ht
  split at ht
  · next hmoved =>
    cases ht
    obtain ⟨row, hrow, hid, hnone⟩ := hm.unaliased
    refine ⟨fun x hx hxid => ?_, row, hstays row hrow (hid ▸ hm.others) hnone, hid, hnone⟩
    obtain ⟨row, hrow, rfl⟩ := (hrows x).1 hx
    have hrowid : row.id = id := by
      rw [← hxid]
      split <;> rfl
    rw [if_pos]
    rcases hmoved with hmem | hmem
    · exact .inl (hrowid ▸ hmem)
    · obtain ⟨t, ht, hmem⟩ := (Option.any_eq_true _ _).1 hmem
      rw [((h id t ht).1 row hrow hrowid)]
      exact .inr hmem
  · next hkept =>
    obtain ⟨hid, hany⟩ := not_or.1 hkept
    obtain ⟨hrows', row, hrow, hrowid, hnone⟩ := h id t ht
    have hheld : t ∉ m.loserIds := by simpa [ht] using hany
    refine ⟨fun x hx hxid => ?_, row, hstays row hrow (hrowid ▸ hheld) hnone, hrowid, hnone⟩
    obtain ⟨row, hrow, rfl⟩ := (hrows x).1 hx
    have hrowid : row.id = id := by
      rw [← hxid]
      split <;> rfl
    have halias := hrows' row hrow hrowid
    rw [if_neg]
    · exact halias
    · rintro (hmem | hmem)
      · exact hid (hrowid ▸ hmem)
      · rw [halias] at hmem
        exact hheld (of_decide_eq_true hmem)

/-- **Merges keep the rows as they should be, and the items aliased at those that hold them.** -/
theorem aliased_after (h : s.Ok) (hms : machine.Legal (fun s m => m.Allowed s) s ms) :
    (machine.after s ms).Ok ∧ (machine.after s ms).items.map (·.id) = s.items.map (·.id) ∧
      Aliased (holder ms) (machine.after s ms).items := by
  induction ms using List.reverseRecOn with
  | nil => exact ⟨h, rfl, fun _ _ hnone => nomatch hnone⟩
  | append_singleton ms m ih =>
    obtain ⟨hok, hids, haliased⟩ := ih hms.append_left
    have hm : m.Allowed (machine.after s ms) := hms ms m [] rfl
    have hafter : machine.after s (ms ++ [m]) = mergeMasterItems m.survivorId m.loserIds (machine.after s ms) := by
      rw [Machine.after_append]
      rfl
    have hholder : holder (ms ++ [m]) = fun id => if id ∈ m.loserIds ∨ (holder ms id).any (· ∈ m.loserIds) then
        some m.survivorId else holder ms id := by
      funext id
      rw [holder, List.foldl_append]
      rfl
    rw [hafter, hholder]
    refine ⟨merge_ok hok hm.distinct hm.others, ?_, aliased_merge hok.items hm haliased⟩
    obtain ⟨plan, -, hmerge, rfl⟩ := mergeMasterItems_eq (s := machine.after s ms) hm.others
    rw [hmerge, ← hids]
    exact Keyed.map_key_writes (by intro _ _; rfl)

/-- **An item that is merged is found at the one that holds it**, in one step, and read with it. -/
theorem aliases_resolve (hitems : (items.map (·.id)).Nodup) {held : ItemId → Option ItemId} (h : Aliased held items)
    {t : ItemId} (hx : x ∈ items) (ht : held x.id = some t) :
    lookup items x.id = some x ∧ (∃ target, aliasOf x (lookup items) = some target ∧ target.id = t) ∧
      x.id ∈ mergedIdsOf t items := by
  obtain ⟨halias, target, htarget, hid, hnone⟩ := h x.id t ht
  have hfound : aliasOf x (lookup items) = some target := by
    have hlookup : lookup items t = some target := (Keyed.last_eq_some_iff hitems).2 ⟨htarget, hid⟩
    rw [aliasOf, halias x hx rfl, Option.bind_some, hlookup]
    simp [hnone]
  refine ⟨(Keyed.last_eq_some_iff hitems).2 ⟨hx, rfl⟩, ⟨target, hfound, hid⟩, List.mem_cons_of_mem _ ?_⟩
  refine List.mem_map_of_mem (List.mem_filter.2 ⟨hx, ?_⟩)
  rw [hfound]
  exact decide_eq_true hid

end aliases

def spare : ItemId := ⟨"spare", by decide⟩
def body : ItemId := ⟨"body", by decide⟩

/-- Two cameras in one template, one of them with a battery. -/
def cameras : Inventory where
  items := [⟨.camera, none⟩, ⟨spare, none⟩, ⟨body, none⟩, ⟨.battery, none⟩]
  assignments := [⟨"a1", "camera", "photo", 0⟩, ⟨"a2", "spare", "film", 0⟩, ⟨"a3", "spare", "photo", 1⟩]
  dependencies := [⟨⟨.battery, spare⟩, "d1", .required, none⟩]
  positions := [⟨"p1", "weekend", .camera, 1⟩, ⟨"p2", "weekend", spare, 2⟩, ⟨"p3", "week", spare, 1⟩]
  tasks := [⟨"p1", "clean"⟩, ⟨"p2", "load"⟩]

theorem cameras_ok : cameras.Ok where
  items := by decide
  assignments := by decide
  assigned := by decide
  dependencies := by decide
  edges := by decide
  acyclic := by
    have hnone : Digraph.Acyclic (DependsOn []) := by
      intro x h
      cases h with
      | single h => cases h
      | tail _ h => cases h
    by_contra h
    exact absurd ((closes_iff hnone).1 (show ¬ Digraph.Acyclic (DependsOn ([] ++ [_])) from h)) (by decide)
  positions := ⟨by decide, by decide⟩

theorem cameras_allowed :
    machine.Legal (fun s m => m.Allowed s) cameras [⟨.camera, [spare]⟩, ⟨body, [.camera]⟩] := by
  rw [Machine.legal_cons, Machine.legal_cons]
  refine ⟨⟨by decide, by decide, ⟨.camera, none⟩, by decide, rfl, rfl⟩,
    ⟨by decide, by decide, ⟨body, none⟩, ?_, rfl, rfl⟩, Machine.legal_nil⟩
  decide

end ItemMerge

end JitPack
