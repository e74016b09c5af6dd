import JitPack.Client.TaskDue
import JitPack.Client.Templates

/-!
# Instantiating templates

`domain/instantiate.ts`: the templates that the user picked become the items of a trip (`generateTripItems`).

The two nested loops file every position of the picked templates and of their groups into one map, under its item and
the traveler it is for. The map is `Grouping.group` of the contributions, so a row is the fold over the contributions
to its key (`mem_placed_iff`), and what is said of a row is said of them: its amount, its attributes, its tasks.
-/

namespace JitPack

/-! ## The input -/

/-- `GenerationTraveler`. -/
structure GenerationTraveler where
  name : String
  linkedUserId : Option String

/-- `TemplateItemTask`. -/
structure TemplateItemTask where
  id : String
  templateItemId : String
  task : String

/-- `TemplateTask`. -/
structure TemplateTask where
  id : String
  templateId : String
  task : String
  phase : Option TaskPhase

/-- `GenerationInput`. Of the trip, generation reads the attributes and the travelers. -/
structure GenerationInput where
  templates : List Template
  selectedTemplateIds : List String
  includes : List TemplateInclude
  templateItemTasks : List TemplateItemTask
  templateTasks : List TemplateTask
  templateItems : List TemplateItem
  masterItems : List CategorisedMasterItem
  attributes : Option JsonRecord
  travelers : List GenerationTraveler
  singleItemIds : List ItemId

/-! ## The result -/

/-- `GeneratedItem`. -/
structure GeneratedItem where
  sourceItemId : ItemId
  sourceTemplateId : Option String
  name : String
  categoryName : Option String
  weightGrams : Option ℚ
  valueCents : Option ℚ
  quantity : ℕ
  mode : ItemMode
  latePacker : Bool
  travelerIndex : Option ℕ
  perPerson : Bool
  tasks : List String
  deriving DecidableEq

/-- `ExcludedItem`. -/
structure ExcludedItem where
  itemId : ItemId
  itemName : String
  templateId : String
  reason : String
  deriving DecidableEq

/-- `MergedOverlap`. -/
structure MergedOverlap where
  itemName : String
  travelerIndex : Option ℕ
  strategy : TemplateDedup
  quantities : List ℕ
  quantity : ℕ
  sources : List Template
  deriving DecidableEq

/-- `UnassignableItem`. -/
structure UnassignableItem where
  itemId : ItemId
  itemName : String
  templateId : String
  deriving DecidableEq

/-- `AlreadyIncludedItem`. -/
structure AlreadyIncludedItem where
  itemId : ItemId
  itemName : String
  deriving DecidableEq

/-- `DraftTripTask`. -/
structure DraftTripTask where
  body : String
  phase : TaskPhase
  deriving DecidableEq

/-- `GenerationResult`. -/
structure GenerationResult where
  items : List GeneratedItem
  excluded : List ExcludedItem
  merged : List MergedOverlap
  alreadyIncluded : List AlreadyIncludedItem
  unassignable : List UnassignableItem
  tripTasks : List DraftTripTask

/-! ## Conditions -/

mutual

/-- `String`. An array is joined, and shows nothing for `null`. -/
def JsonValue.shown : JsonValue → String
  | .null => "null"
  | .bool b => if b then "true" else "false"
  | .number shown => shown
  | .text s => s
  | .array values => ",".intercalate (JsonValue.shownAll values)
  | .object => "[object Object]"

def JsonValue.shownAll : List JsonValue → List String
  | [] => []
  | .null :: values => "" :: JsonValue.shownAll values
  | value :: values => value.shown :: JsonValue.shownAll values

end

/-- The values that a condition allows. -/
def JsonValue.allowed : JsonValue → List String
  | .array values => values.map JsonValue.shown
  | raw => [raw.shown]

/-- The tags that an attribute lists. -/
def JsonValue.tags : Option JsonValue → List String
  | some (.array values) => values.map JsonValue.shown
  | _ => []

/-- Why one condition fails, if it does. -/
def entryFailure (attributes : JsonRecord) (entry : String × JsonValue) : Option String :=
  let allowed := entry.2.allowed
  let actual := attributes.lookup entry.1
  if entry.1 = "tags" then
    if allowed.any (· ∈ JsonValue.tags actual) then none else some ("missing tag " ++ " / ".intercalate allowed)
  else
    match actual with
    | some (.text s) => if s ∈ allowed then none else some (refused entry.1 allowed)
    | _ => some (refused entry.1 allowed)
where
  refused (key : String) (allowed : List String) : String :=
    match allowed with
    | [one] => key ++ " ≠ " ++ one
    | _ => key ++ " not in (" ++ ", ".intercalate allowed ++ ")"

/-- `conditionFailure`. -/
def conditionFailure (conditions attributes : Option JsonRecord) : Option String :=
  (conditions.getD []).findSome? (entryFailure (attributes.getD []))

/-! ## The sources -/

section
variable {κ : Type*} [LinearOrder κ] (collate : String → κ) (input : GenerationInput)

/-- A picked template, followed by its groups. -/
def expand (id : String) : List Template :=
  match templateById input.templates id with
  | none => []
  | some picked => picked :: includedTemplatesOf collate picked.id input.templates input.includes

/-- `add`, `seen` being the ids of the sources. -/
def addSource (sources : List Template) (template : Template) : List Template :=
  if template.id ∈ sources.map (·.id) then sources else sources ++ [template]

/-- `resolveSources`. -/
def resolveSources : List Template :=
  input.selectedTemplateIds.foldl (fun sources id => (expand collate input id).foldl addSource sources) []

/-! ## Placing the positions -/

/-- `defaultAssigneeIndex`. -/
def defaultAssigneeIndex (master : CategorisedMasterItem) (travelers : List GenerationTraveler) : Option ℕ :=
  match master.defaultAssigneeId with
  | none => none
  | some account => if account = "" then none else travelers.findIdx? (·.linkedUserId = some account)

/-- The traveler indices that a position is for. -/
def targets (assignment : TemplateAssignment) (travelers : List GenerationTraveler) : List (Option ℕ) :=
  match assignment with
  | .perPerson => (List.range travelers.length).map some
  | .tripGlobal => [none]

/-- `tasksByPosition.get(id) ?? []`. -/
def tasksOf (templateItemTasks : List TemplateItemTask) (id : String) : List String :=
  (templateItemTasks.filter (·.templateItemId = id)).map (·.task)

/-- What a position puts under one key: the template and the position, with what the loop looked up for them. -/
structure Contribution where
  source : Template
  position : TemplateItem
  master : CategorisedMasterItem
  tasks : List String
  travelerIndex : Option ℕ

/-- The merge key. The code writes it as a text, the item first. -/
def Contribution.key (c : Contribution) : ItemId × Option ℕ := (c.position.itemId, c.travelerIndex)

/-- What `byKey` holds under a key. -/
structure PlacedEntry where
  item : GeneratedItem
  dedups : List TemplateDedup
  quantities : List ℕ
  sources : List Template

/-- The entry of the first contributor. -/
def Contribution.entry (travelers : List GenerationTraveler) (c : Contribution) : PlacedEntry :=
  { item :=
      { sourceItemId := c.position.itemId, sourceTemplateId := some c.position.templateId, name := c.master.name
        categoryName := c.master.categoryName, weightGrams := c.master.weightGrams, valueCents := c.master.valueCents
        quantity := computeQuantity (some c.position.quantity), mode := c.position.defaultMode
        latePacker := c.position.latePacker
        travelerIndex := c.travelerIndex.or (defaultAssigneeIndex c.master travelers)
        perPerson := c.travelerIndex.isSome, tasks := c.tasks }
    dedups := [c.position.dedup], quantities := [computeQuantity (some c.position.quantity)], sources := [c.source] }

/-- What a further contributor changes in an entry: a merge keeps the union of the tasks. -/
def PlacedEntry.merge (e : PlacedEntry) (c : Contribution) : PlacedEntry :=
  { item := { e.item with tasks := c.tasks.foldl Insertion.add e.item.tasks }
    dedups := e.dedups ++ [c.position.dedup]
    quantities := e.quantities ++ [computeQuantity (some c.position.quantity)], sources := e.sources ++ [c.source] }

/-- What the loop does with one position of a source. -/
inductive Placing where
  | missing
  | excluded (e : ExcludedItem)
  | unassignable (u : UnassignableItem)
  | placed (contributions : List Contribution)

def placing (source : Template) (ti : TemplateItem) : Placing :=
  match itemsByID input.masterItems ti.itemId with
  | none => .missing
  | some master =>
    match conditionFailure ti.conditions input.attributes with
    | some failure => .excluded ⟨ti.itemId, master.name, ti.templateId, failure⟩
    | none =>
      if ti.assignment = .perPerson ∧ input.travelers = [] then .unassignable ⟨ti.itemId, master.name, ti.templateId⟩
      else .placed ((targets ti.assignment input.travelers).map
        (⟨source, ti, master, tasksOf input.templateItemTasks ti.id, ·⟩))

/-- What the nested loops fill. -/
structure Placed where
  byKey : List ((ItemId × Option ℕ) × PlacedEntry)
  excluded : List ExcludedItem
  unassignable : List UnassignableItem

/-- The inner loop at a position of a source. -/
def Placed.place (p : Placed) (source : Template) (ti : TemplateItem) : Placed :=
  match placing input source ti with
  | .missing => p
  | .excluded e => { p with excluded := p.excluded ++ [e] }
  | .unassignable u => { p with unassignable := p.unassignable ++ [u] }
  | .placed contributions => { p with
      byKey := contributions.foldl
        (fun m c => Grouping.upsert (c.entry input.travelers) (·.merge c) c.key m) p.byKey }

/-- The nested loops. -/
def placed : Placed :=
  (contributions (resolveSources collate input) input.templateItems).foldl (fun p c => p.place input c.1 c.2) ⟨[], [], []⟩

/-! ## The rows -/

/-- The row of an entry: overlaps are merged, and a row that nobody takes along has nothing to be prepared for. -/
def PlacedEntry.settle (e : PlacedEntry) : GeneratedItem :=
  let quantity := if 1 < e.quantities.length then mergeAmount e.dedups e.quantities else e.item.quantity
  { e.item with quantity, tasks := if quantity = 0 then [] else e.item.tasks }

/-- What the merge report says of an entry. -/
def PlacedEntry.overlap (e : PlacedEntry) : Option MergedOverlap :=
  if 1 < e.quantities.length then
    some ⟨e.item.name, e.item.travelerIndex, mergeStrategy e.dedups, e.quantities, mergeAmount e.dedups e.quantities,
      e.sources⟩
  else none

/-- What the loop over the picked single items fills. -/
structure Singles where
  items : List GeneratedItem
  placed : List ItemId
  alreadyIncluded : List AlreadyIncludedItem

/-- The row of a single item. -/
def singleItem (itemId : ItemId) (master : CategorisedMasterItem) : GeneratedItem :=
  { sourceItemId := itemId, sourceTemplateId := none, name := master.name, categoryName := master.categoryName
    weightGrams := master.weightGrams, valueCents := master.valueCents, quantity := 1, mode := .pack
    latePacker := false, travelerIndex := defaultAssigneeIndex master input.travelers, perPerson := false, tasks := [] }

def Singles.add (s : Singles) (itemId : ItemId) : Singles :=
  match itemsByID input.masterItems itemId with
  | none => s
  | some master =>
    if itemId ∈ s.placed then { s with alreadyIncluded := s.alreadyIncluded ++ [⟨itemId, master.name⟩] }
    else { s with items := s.items ++ [singleItem input itemId master], placed := s.placed ++ [itemId] }

/-- What `trim` removes. -/
def isSpace (c : Char) : Bool :=
  c.toNat ∈ [0x9, 0xA, 0xB, 0xC, 0xD, 0x20, 0xA0, 0x1680, 0x2028, 0x2029, 0x202F, 0x205F, 0x3000, 0xFEFF] ||
    0x2000 ≤ c.toNat && c.toNat ≤ 0x200A

def trimmed (s : String) : String :=
  String.ofList ((s.toList.dropWhile isSpace).reverse.dropWhile isSpace).reverse

/-- `tripTasksOf`. The texts it has seen are those of the tasks. -/
def tripTasksOf (sources : List Template) (templateTasks : List TemplateTask) : List DraftTripTask :=
  (sources.flatMap fun source => templateTasks.filter (·.templateId = source.id)).foldl (fun tasks t =>
    let text := trimmed t.task
    if text = "" ∨ text ∈ tasks.map (·.body) then tasks else tasks ++ [⟨text, t.phase.getD .before⟩]) []

/-- `generateTripItems`. -/
def generateTripItems : GenerationResult :=
  let p := placed collate input
  let rows := p.byKey.map (·.2.settle)
  let singles := (Insertion.ofList input.singleItemIds).foldl (Singles.add input) ⟨rows, rows.map (·.sourceItemId), []⟩
  { items := singles.items
    excluded := p.excluded.filter (·.itemId ∉ singles.placed)
    merged := p.byKey.filterMap (·.2.overlap)
    alreadyIncluded := singles.alreadyIncluded
    unassignable := (p.unassignable.zipIdx.filter fun (u, i) =>
      u.itemId ∉ singles.placed ∧ p.unassignable.findIdx? (·.itemId = u.itemId) = some i).map (·.1)
    tripTasks := tripTasksOf (resolveSources collate input) input.templateTasks }

end

/-- `reviewKeyOf`. -/
def reviewKeyOf (item : GeneratedItem) : String :=
  item.sourceItemId.text ++ ":" ++ (item.travelerIndex.elim "group" toString)

/-! ## The order of the sources -/

section
variable {κ : Type*} [LinearOrder κ] {collate : String → κ} {input : GenerationInput} {t : Template}

theorem templateById_of_mem_expand {id : String} (h : t ∈ expand collate input id) :
    templateById input.templates t.id = some t := by
  unfold expand at h
  split at h
  · cases h
  · next picked hpicked =>
    obtain rfl | h := List.mem_cons.1 h
    · rwa [templateById_id hpicked]
    · exact templateById_of_mem_included h

theorem foldl_addSource {sources l : List Template}
    (h : ∀ t ∈ sources ++ l, templateById input.templates t.id = some t) :
    l.foldl addSource sources = l.foldl Insertion.add sources := by
  induction l generalizing sources with
  | nil => rfl
  | cons t l ih =>
    have hstep : addSource sources t = Insertion.add sources t := by
      unfold addSource Insertion.add
      refine if_congr ?_ rfl rfl
      constructor
      · intro hid
        obtain ⟨t', ht', heq⟩ := List.mem_map.1 hid
        have hsome := (h t' (List.mem_append_left _ ht')).symm.trans (heq ▸ h t (by simp))
        exact Option.some.inj hsome ▸ ht'
      · exact fun ht => List.mem_map_of_mem ht
    rw [List.foldl_cons, List.foldl_cons, hstep]
    refine ih fun t' ht' => h t' ?_
    obtain ht' | ht' := List.mem_append.1 ht'
    · obtain ht' | rfl := Insertion.mem_add.1 ht'
      · exact List.mem_append_left _ ht'
      · simp
    · exact List.mem_append_right _ (List.mem_cons_of_mem _ ht')

/-- The sources are the templates that the picks expand to, each once, in their order. -/
theorem resolveSources_eq :
    resolveSources collate input = Insertion.ofList (input.selectedTemplateIds.flatMap (expand collate input)) := by
  unfold resolveSources
  rw [← List.foldl_flatMap, foldl_addSource, Insertion.ofList]
  intro t ht
  obtain ⟨id, -, ht⟩ := List.mem_flatMap.1 (by simpa using ht)
  exact templateById_of_mem_expand ht

/-! ## What the loops place -/

def Placing.contributions : Placing → List Contribution
  | .placed contributions => contributions
  | _ => []

def Placing.excludedItem : Placing → Option ExcludedItem
  | .excluded e => some e
  | _ => none

def Placing.unassignableItem : Placing → Option UnassignableItem
  | .unassignable u => some u
  | _ => none

/-- The positions of the sources, as the loops come to them. -/
def resolvedPositions (collate : String → κ) (input : GenerationInput) : List (Template × TemplateItem) :=
  contributions (resolveSources collate input) input.templateItems

/-- The contributions, as the loops place them. -/
def placedContributions (collate : String → κ) (input : GenerationInput) : List Contribution :=
  (resolvedPositions collate input).flatMap fun c => (placing input c.1 c.2).contributions

/-- The contributions to one key. -/
def contributionsTo (collate : String → κ) (input : GenerationInput) (k : ItemId × Option ℕ) : List Contribution :=
  (placedContributions collate input).filter (·.key = k)

theorem placed_eq : placed collate input =
    ⟨Grouping.group Contribution.key (Contribution.entry input.travelers) PlacedEntry.merge
        (placedContributions collate input),
      (resolvedPositions collate input).filterMap fun c => (placing input c.1 c.2).excludedItem,
      (resolvedPositions collate input).filterMap fun c => (placing input c.1 c.2).unassignableItem⟩ := by
  unfold placed placedContributions
  rw [← resolvedPositions]
  induction resolvedPositions collate input using List.reverseRecOn with
  | nil => rfl
  | append_singleton cs c ih =>
    rw [List.foldl_append, ih, List.flatMap_append, List.filterMap_append, List.filterMap_append]
    simp only [List.foldl_cons, List.foldl_nil, Placed.place, List.flatMap_singleton, List.filterMap_cons,
      List.filterMap_nil]
    cases placing input c.1 c.2 with
    | missing | excluded _ | unassignable _ =>
      simp [Placing.contributions, Placing.excludedItem, Placing.unassignableItem]
    | placed contributions =>
      simp [Placing.contributions, Placing.excludedItem, Placing.unassignableItem, Grouping.group]

/-! ## What a position contributes to -/

/-- The position contributes to the row of a key: its item is known and is that of the key, its conditions hold, and
the key is for one of those it is for. -/
def TemplateItem.Contributes (input : GenerationInput) (k : ItemId × Option ℕ) (ti : TemplateItem) : Prop :=
  (itemsByID input.masterItems ti.itemId).isSome ∧ conditionFailure ti.conditions input.attributes = none ∧
    ti.itemId = k.1 ∧ k.2 ∈ targets ti.assignment input.travelers

instance (input : GenerationInput) (k : ItemId × Option ℕ) (ti : TemplateItem) : Decidable (ti.Contributes input k) :=
  inferInstanceAs (Decidable (_ ∧ _))

/-- What a position of a source contributes to a key. -/
def contribution (input : GenerationInput) (k : ItemId × Option ℕ) (c : Template × TemplateItem) :
    Option Contribution :=
  if c.2.Contributes input k then
    (itemsByID input.masterItems c.2.itemId).map
      (⟨c.1, c.2, ·, tasksOf input.templateItemTasks c.2.id, k.2⟩)
  else none

theorem nodup_targets (assignment : TemplateAssignment) (travelers : List GenerationTraveler) :
    (targets assignment travelers).Nodup := by
  cases assignment with
  | perPerson => exact List.nodup_range.map (Option.some_injective _)
  | tripGlobal => exact List.nodup_singleton _

theorem filter_contributions (source : Template) (ti : TemplateItem) (k : ItemId × Option ℕ) :
    (placing input source ti).contributions.filter (·.key = k) = (contribution input k (source, ti)).toList := by
  obtain hnone | ⟨master, hmaster⟩ := Option.eq_none_or_eq_some (itemsByID input.masterItems ti.itemId)
  · have hno : ¬ ti.Contributes input k := fun h => by simpa [hnone] using h.1
    simp [placing, contribution, hnone, hno, Placing.contributions]
  obtain hholds | ⟨failure, hfailure⟩ := Option.eq_none_or_eq_some (conditionFailure ti.conditions input.attributes)
  swap
  · have hno : ¬ ti.Contributes input k := fun h => by simpa [hfailure] using h.2.1
    simp [placing, contribution, hmaster, hfailure, hno, Placing.contributions]
  by_cases hnobody : ti.assignment = .perPerson ∧ input.travelers = []
  · have hno : ¬ ti.Contributes input k := fun h => by simpa [targets, hnobody.1, hnobody.2] using h.2.2.2
    simp [placing, contribution, hmaster, hholds, hnobody, hno, Placing.contributions]
  simp only [placing, contribution, hmaster, hholds, hnobody, if_false, Placing.contributions, List.filter_map,
    Option.map_some]
  by_cases hc : ti.Contributes input k
  · -- The targets of a position are distinct, so only one of its contributions has the key.
    have hone : (targets ti.assignment input.travelers).filter
        ((fun c : Contribution => decide (c.key = k)) ∘
          (⟨source, ti, master, tasksOf input.templateItemTasks ti.id, ·⟩)) = [k.2] := by
      have hfilter : (targets ti.assignment input.travelers).filter (· = k.2) = [k.2] := by
        rw [List.filter_eq, List.count_eq_one_of_mem (nodup_targets _ _) hc.2.2.2]
        rfl
      refine (List.filter_congr fun t _ => ?_).trans hfilter
      simp [Contribution.key, Prod.ext_iff, hc.2.2.1]
    rw [hone, if_pos hc]
    rfl
  · rw [if_neg hc, List.filter_eq_nil_iff.2]
    · rfl
    · intro t ht hkey
      obtain rfl : (ti.itemId, t) = k := of_decide_eq_true hkey
      exact hc ⟨by simp [hmaster], hholds, rfl, ht⟩

theorem contributionsTo_eq (k : ItemId × Option ℕ) :
    contributionsTo collate input k = (resolvedPositions collate input).filterMap (contribution input k) := by
  unfold contributionsTo placedContributions
  rw [List.filter_flatMap, List.filterMap_eq_flatMap_toList]
  exact List.flatMap_congr fun c _ => filter_contributions c.1 c.2 k

/-! ## The row of a key -/

/-- The amount that a contribution asks for. -/
def Contribution.amount (c : Contribution) : ℕ := computeQuantity (some c.position.quantity)

/-- The row of the contributions to one key. -/
def rowOf (travelers : List GenerationTraveler) (cs : List Contribution) : Option GeneratedItem :=
  (Grouping.gather (Contribution.entry travelers) PlacedEntry.merge cs).map PlacedEntry.settle

variable {travelers : List GenerationTraveler}

theorem gather_contributions (c : Contribution) (cs : List Contribution) :
    Grouping.gather (Contribution.entry travelers) PlacedEntry.merge (c :: cs) = some
      ⟨{ (c.entry travelers).item with tasks := (cs.flatMap (·.tasks)).foldl Insertion.add c.tasks },
        (c :: cs).map (·.position.dedup), (c :: cs).map (·.amount), (c :: cs).map (·.source)⟩ := by
  induction cs using List.reverseRecOn with
  | nil => rfl
  | append_singleton cs d ih =>
    rw [← List.cons_append, Grouping.gather_append_singleton, ih]
    simp [PlacedEntry.merge, Contribution.amount]

/-- **A row takes its attributes from the first contribution to its key**, its amount from all of them. -/
theorem rowOf_cons (c : Contribution) (cs : List Contribution) : rowOf travelers (c :: cs) = some
    { (c.entry travelers).item with
      quantity := mergeAmount ((c :: cs).map (·.position.dedup)) ((c :: cs).map (·.amount))
      tasks := if mergeAmount ((c :: cs).map (·.position.dedup)) ((c :: cs).map (·.amount)) = 0 then []
        else (cs.flatMap (·.tasks)).foldl Insertion.add c.tasks } := by
  unfold rowOf
  rw [gather_contributions]
  cases cs with
  | nil => simp [PlacedEntry.settle, Contribution.entry, Contribution.amount, mergeAmount_singleton]
  | cons d cs => simp [PlacedEntry.settle]

theorem rowOf_eq_none {cs : List Contribution} : rowOf travelers cs = none ↔ cs = [] := by
  simp [rowOf]

/-- The key that a row stands for. -/
def GeneratedItem.key (i : GeneratedItem) : ItemId × Option ℕ :=
  (i.sourceItemId, if i.perPerson then i.travelerIndex else none)

theorem key_of_rowOf {cs : List Contribution} {i : GeneratedItem} {k : ItemId × Option ℕ}
    (h : rowOf travelers cs = some i) (hk : ∀ c ∈ cs, c.key = k) : i.key = k := by
  cases cs with
  | nil => cases h
  | cons c cs =>
    rw [rowOf_cons] at h
    obtain rfl := Option.some.inj h
    rw [← hk c List.mem_cons_self]
    unfold GeneratedItem.key Contribution.key Contribution.entry
    cases c.travelerIndex <;> simp

/-- The rows of the templates: one for each key that a position contributes to. -/
def placedRows (collate : String → κ) (input : GenerationInput) : List GeneratedItem :=
  (Insertion.ofList ((placedContributions collate input).map (·.key))).filterMap fun k =>
    rowOf input.travelers (contributionsTo collate input k)

theorem rows_placed : (placed collate input).byKey.map (·.2.settle) = placedRows collate input := by
  rw [placed_eq, Grouping.group_eq, List.map_filterMap]
  refine List.filterMap_congr fun k _ => ?_
  rw [Option.map_map]
  rfl

theorem mem_keys_placed {k : ItemId × Option ℕ} :
    k ∈ Insertion.ofList ((placedContributions collate input).map (·.key)) ↔ contributionsTo collate input k ≠ [] := by
  unfold contributionsTo
  rw [Insertion.mem_ofList, List.mem_map, Ne, List.filter_eq_nil_iff]
  simp

theorem keys_placedRows : (placedRows collate input).map (·.key) =
    Insertion.ofList ((placedContributions collate input).map (·.key)) := by
  unfold placedRows
  rw [List.map_filterMap]
  refine (List.filterMap_congr fun k hk => ?_).trans List.filterMap_some
  cases hrow : rowOf input.travelers (contributionsTo collate input k) with
  | none =>
    exact absurd (rowOf_eq_none.1 hrow) (mem_keys_placed.1 hk)
  | some i =>
    exact congrArg some (key_of_rowOf hrow fun c hc => of_decide_eq_true (List.mem_filter.1 hc).2)

theorem mem_placedRows {i : GeneratedItem} :
    i ∈ placedRows collate input ↔ rowOf input.travelers (contributionsTo collate input i.key) = some i := by
  unfold placedRows
  rw [List.mem_filterMap]
  constructor
  · rintro ⟨k, -, h⟩
    rwa [key_of_rowOf h fun c hc => of_decide_eq_true (List.mem_filter.1 hc).2]
  · intro h
    exact ⟨i.key, mem_keys_placed.2 fun hnil => by simp [hnil, rowOf_eq_none.2] at h, h⟩

/-! ## The single items -/

/-- The row of a picked single item, if the items with these ids are not there yet. -/
def singleRow (input : GenerationInput) (ids : List ItemId) (x : ItemId) : Option GeneratedItem :=
  if x ∈ ids then none else (itemsByID input.masterItems x).map (singleItem input x)

theorem sourceItemId_singleRow {ids : List ItemId} {x : ItemId} {i : GeneratedItem}
    (h : singleRow input ids x = some i) : i.sourceItemId = x := by
  unfold singleRow at h
  split at h
  · cases h
  · obtain ⟨_, -, rfl⟩ := Option.map_eq_some_iff.1 h
    rfl

theorem singles_foldl (input : GenerationInput) (rows : List GeneratedItem) {l : List ItemId} (hl : l.Nodup) :
    (l.foldl (Singles.add input) ⟨rows, rows.map (·.sourceItemId), []⟩).items =
        rows ++ l.filterMap (singleRow input (rows.map (·.sourceItemId))) ∧
      (l.foldl (Singles.add input) ⟨rows, rows.map (·.sourceItemId), []⟩).placed =
        (l.foldl (Singles.add input) ⟨rows, rows.map (·.sourceItemId), []⟩).items.map (·.sourceItemId) := by
  induction l using List.reverseRecOn with
  | nil => simp
  | append_singleton l x ih =>
    obtain ⟨hnodup, -, hdisjoint⟩ := List.nodup_append.1 hl
    obtain ⟨hitems, hplaced⟩ := ih hnodup
    have hnew : x ∈ (l.foldl (Singles.add input) ⟨rows, rows.map (·.sourceItemId), []⟩).placed ↔
        x ∈ rows.map (·.sourceItemId) := by
      rw [hplaced, hitems, List.map_append, List.mem_append, or_iff_left]
      intro hx
      obtain ⟨i, hi, rfl⟩ := List.mem_map.1 hx
      obtain ⟨y, hy, hrow⟩ := List.mem_filterMap.1 hi
      exact hdisjoint y hy _ (List.mem_singleton_self _) (sourceItemId_singleRow hrow).symm
    rw [List.foldl_append, List.filterMap_append]
    simp only [List.foldl_cons, List.foldl_nil, Singles.add, hnew, List.filterMap_cons, List.filterMap_nil, singleRow]
    cases itemsByID input.masterItems x with
    | none => simp [hitems, hplaced]
    | some master =>
      by_cases hx : x ∈ rows.map (·.sourceItemId)
      · simp only [if_pos hx, List.append_nil]
        exact ⟨hitems, hplaced⟩
      · simp [hx, hitems, hplaced, singleItem]

/-- The rows of the single items that the templates do not bring. -/
def singleRows (collate : String → κ) (input : GenerationInput) : List GeneratedItem :=
  (Insertion.ofList input.singleItemIds).filterMap
    (singleRow input ((placedRows collate input).map (·.sourceItemId)))

/-- **The items are the rows of the templates and those of the single items.** -/
theorem items_eq :
    (generateTripItems collate input).items = placedRows collate input ++ singleRows collate input := by
  unfold generateTripItems
  dsimp only
  rw [rows_placed]
  exact (singles_foldl input _ (Insertion.nodup_ofList _)).1

theorem singles_placed : ((Insertion.ofList input.singleItemIds).foldl (Singles.add input)
      ⟨placedRows collate input, (placedRows collate input).map (·.sourceItemId), []⟩).placed =
    (generateTripItems collate input).items.map (·.sourceItemId) := by
  rw [(singles_foldl input _ (Insertion.nodup_ofList _)).2]
  unfold generateTripItems
  dsimp only
  rw [rows_placed]

theorem mem_excluded {e : ExcludedItem} : e ∈ (generateTripItems collate input).excluded ↔
    (∃ c ∈ resolvedPositions collate input, (placing input c.1 c.2).excludedItem = some e) ∧
      e.itemId ∉ (generateTripItems collate input).items.map (·.sourceItemId) := by
  rw [← singles_placed]
  unfold generateTripItems
  dsimp only
  rw [rows_placed, placed_eq, List.mem_filter, List.mem_filterMap, decide_eq_true_eq]

/-- The items that nobody can be given are reported, each by its first position. -/
theorem mem_unassignable {u : UnassignableItem} : u ∈ (generateTripItems collate input).unassignable ↔
    ((resolvedPositions collate input).filterMap fun c => (placing input c.1 c.2).unassignableItem).find?
        (·.itemId = u.itemId) = some u ∧
      u.itemId ∉ (generateTripItems collate input).items.map (·.sourceItemId) := by
  rw [← singles_placed]
  unfold generateTripItems
  dsimp only
  rw [rows_placed, placed_eq]
  generalize ((resolvedPositions collate input).filterMap fun c => (placing input c.1 c.2).unassignableItem) = l
  simp only [List.mem_map, List.mem_filter, Prod.exists, List.mem_zipIdx_iff_getElem?, decide_eq_true_eq,
    exists_and_right, exists_eq_right, List.find?_eq_bind_findIdx?_getElem?, Option.bind_eq_some_iff]
  constructor
  · rintro ⟨i, hi, hplaced, hfirst⟩
    exact ⟨⟨i, hfirst, hi⟩, hplaced⟩
  · rintro ⟨⟨i, hfirst, hi⟩, hplaced⟩
    exact ⟨i, hi, hplaced, hfirst⟩

end

end JitPack
