import JitPack.Lib.Lines
import JitPack.Client.ExcursionGroup

/-!
# A trip saved as a template

The rows of a trip are recognised as those of the groups they came from, and what came from no group is loose, a line
for each item or name (`recognised_perm`). The rows that a group does not hold are written to it, or to the new
template, and the loose lines that are checked to a new group, or to the new template.

A line is resolved to an item: its own, the one of its name, or a new one, and no name is new twice (`Invented`). What
is written to one template is distinct whatever is chosen, since each draft is kept for its item once, and a group holds
none of the items that it gets, since a row of one of its items would be no addition (`Plan.Sound`).
-/

namespace JitPack

namespace TripTemplate

open Excursion (MasterItem normalizeName itemNamed)
open Lines (Line lines firsts)

/-! ## Rows and templates -/

/-- `TripItem`, as far as it is read here. -/
structure TripItem where
  id : String
  name : String
  sourceItemId : Option String
  sourceTemplateId : Option String
  assignedTravelerId : Option String

/-- `TemplateKind`. -/
inductive TemplateKind where
  | group
  | template
  deriving DecidableEq

/-- `Template`. -/
structure Template where
  id : String
  name : String
  kind : TemplateKind

/-- `TemplateItem`, as far as it is read here. -/
structure TemplateItem where
  templateId : String
  itemId : String

/-- `RecognitionInput`. -/
structure RecognitionInput where
  tripItems : List TripItem
  templates : List Template
  positions : List TemplateItem
  masterItems : List MasterItem

/-- `RecognisedGroup`. -/
structure RecognisedGroup where
  group : Template
  tripItems : List TripItem
  added : List TripItem
  absent : List String

/-- `LooseReason`. -/
inductive LooseReason where
  | adHoc
  | fromTemplate
  deriving DecidableEq

/-- `LooseRow`. Its rows are a line, and the first is its `tripItem`. -/
structure LooseRow where
  tripItems : Line TripItem
  reason : LooseReason
  sourceTemplate : Option Template

/-- `TripComposition`. -/
structure TripComposition where
  groups : List RecognisedGroup
  loose : List LooseRow

/-- What rows are folded by: an item, or a name that is normalized. -/
inductive LineKey where
  | item (id : String)
  | name (name : String)
  deriving DecidableEq

/-! ## Recognition -/

section
variable {κ : Type*} [LinearOrder κ] (toLowerCase : String → String) (collate : String → κ)

/-- `namesMatch`. -/
def namesMatch (a b : String) : Prop := normalizeName toLowerCase a = normalizeName toLowerCase b

instance (a b : String) : Decidable (namesMatch toLowerCase a b) := inferInstanceAs (Decidable (_ = _))

/-- The key of `foldRows`. No id begins with `name:`. -/
def lineKey (row : TripItem) : LineKey :=
  match row.sourceItemId with
  | some id => .item id
  | none => .name (normalizeName toLowerCase row.name)

/-- `foldRows`. -/
def foldRows (rows : List TripItem) : List (Line TripItem) := lines (lineKey toLowerCase) rows

/-- `carries`. -/
def carries (row : TripItem) (position : TemplateItem) (names : List MasterItem) : Bool :=
  match row.sourceItemId with
  | some id => id = position.itemId
  | none => (Keyed.last MasterItem.id names position.itemId).any fun item => namesMatch toLowerCase item.name row.name

/-- The template that a row came from, if it is there. -/
def sourceOf (templates : List Template) (row : TripItem) : Option Template :=
  row.sourceTemplateId.bind (Keyed.last Template.id templates)

/-- The group that a row came from. -/
def groupOf (templates : List Template) (row : TripItem) : Option Template :=
  (sourceOf templates row).filter (·.kind = .group)

/-- `rowsByGroup`. The rows of one group have its id for the template they came from. -/
def rowsByGroup (input : RecognitionInput) : List (Line TripItem) :=
  lines (·.sourceTemplateId) (input.tripItems.filter fun row => (groupOf input.templates row).isSome)

/-- One group, and the rows that came from it. -/
def recognised (input : RecognitionInput) (group : Template) (tripItems : List TripItem) : RecognisedGroup :=
  let positions := input.positions.filter (·.templateId = group.id)
  { group := group
    tripItems := tripItems
    added := tripItems.filter fun row => !positions.any fun p => carries toLowerCase row p input.masterItems
    absent :=
      (positions.filter fun p => !tripItems.any fun row => carries toLowerCase row p input.masterItems).filterMap
        fun p => (Keyed.last MasterItem.id input.masterItems p.itemId).map (·.name) }

/-- A loose line. -/
def looseRow (templates : List Template) (line : Line TripItem) : LooseRow where
  tripItems := line
  reason := if (sourceOf templates line.first).isSome then .fromTemplate else .adHoc
  sourceTemplate := sourceOf templates line.first

/-- `recogniseTripComposition`. -/
def recogniseTripComposition (input : RecognitionInput) : TripComposition :=
  let groups := (rowsByGroup input).filterMap fun line =>
    (groupOf input.templates line.first).map fun group => recognised toLowerCase input group line.rows
  let looseRows := input.tripItems.filter fun row => !(groupOf input.templates row).isSome
  { groups := Ranked.byRank (collate ·.group.name) groups
    loose := (foldRows toLowerCase looseRows).map (looseRow input.templates) }

end

/-! ## The plan -/

/-- `DeviationChoice`. -/
inductive DeviationChoice where
  | update
  | own
  deriving DecidableEq

/-- `WritePlanInput`, without the composition and the inventory. -/
structure Answers where
  templateName : String
  choices : String → Option DeviationChoice
  checkedLooseIds : List String
  bundleName : Option String

/-- `PositionDraft`. -/
structure PositionDraft where
  name : String
  itemId : Option String
  assignment : TemplateAssignment
  deriving DecidableEq

/-- `GroupUpdate`. -/
structure GroupUpdate where
  groupId : String
  groupName : String
  positions : List PositionDraft

/-- `newGroup`, in `TemplateFromTripWrites`. -/
structure NewGroup where
  name : String
  positions : List PositionDraft

/-- `TemplateFromTripWrites`. -/
structure TemplateFromTripWrites where
  newMasterItems : List String
  groupUpdates : List GroupUpdate
  newGroup : Option NewGroup
  templateName : String
  positions : List PositionDraft
  includeGroupIds : List String

/-- `travelerIdsOf`. -/
def travelerIdsOf (rows : List TripItem) : List String := Insertion.ofList (rows.filterMap (·.assignedTravelerId))

/-- `assignmentOf`, with `MIN_TRAVELERS_FOR_PER_PERSON`. -/
def assignmentOf (rows : List TripItem) : TemplateAssignment :=
  if (travelerIdsOf rows).length ≥ 2 then .perPerson else .tripGlobal

/-- What `samePosition` compares: an item, or a name that waits for its item. -/
def PositionDraft.key (draft : PositionDraft) : LineKey :=
  match draft.itemId with
  | some id => .item id
  | none => .name draft.name

/-- `distinct`. -/
def distinct (positions : List PositionDraft) : List PositionDraft := firsts PositionDraft.key positions

section
variable {κ : Type*} [LinearOrder κ] (toLowerCase : String → String) (masterItems : List MasterItem)

/-- `fold`, in `masterFold`: a line, and the names created so far. No id is empty. -/
def fold (created : List String) (line : Line TripItem) : PositionDraft × List String :=
  let row := line.first
  let assignment := assignmentOf line.rows
  match row.sourceItemId with
  | some id => (⟨row.name, some id, assignment⟩, created)
  | none =>
    match itemNamed toLowerCase masterItems row.name with
    | some existing => (⟨existing.name, some existing.id, assignment⟩, created)
    | none =>
      match created.find? (namesMatch toLowerCase · row.name) with
      | some invented => (⟨invented, none, assignment⟩, created)
      | none => (⟨row.name, none, assignment⟩, created ++ [row.name])

/-- Lines folded one after the other. -/
def foldAll (created : List String) : List (Line TripItem) → List PositionDraft × List String
  | [] => ([], created)
  | line :: rest =>
    let (draft, created) := fold toLowerCase masterItems created line
    let (drafts, created) := foldAll created rest
    (draft :: drafts, created)

/-- The writes of the groups so far. -/
structure Plan where
  created : List String
  groupUpdates : List GroupUpdate
  ownPositions : List PositionDraft

/-- What is chosen for a group. -/
def Answers.choice (answers : Answers) (group : RecognisedGroup) : DeviationChoice :=
  (answers.choices group.group.id).getD .update

/-- One group. -/
def Plan.group (answers : Answers) (plan : Plan) (group : RecognisedGroup) : Plan :=
  if group.added = [] then plan
  else
    let (drafts, created) := foldAll toLowerCase masterItems plan.created (foldRows toLowerCase group.added)
    let positions := distinct drafts
    match answers.choice group with
    | .update => { plan with
        created := created
        groupUpdates := plan.groupUpdates ++ [⟨group.group.id, group.group.name, positions⟩] }
    | .own => { plan with created := created, ownPositions := plan.ownPositions ++ positions }

/-- The loose rows that are checked. -/
def Answers.checked (answers : Answers) (loose : List LooseRow) : List LooseRow :=
  loose.filter (·.tripItems.first.id ∈ answers.checkedLooseIds)

/-- `planTemplateFromTrip`. -/
def planTemplateFromTrip (composition : TripComposition) (answers : Answers) : TemplateFromTripWrites :=
  let plan := composition.groups.foldl (Plan.group toLowerCase masterItems answers) ⟨[], [], []⟩
  let (drafts, created) :=
    foldAll toLowerCase masterItems plan.created ((answers.checked composition.loose).map (·.tripItems))
  let loosePositions := distinct drafts
  let newGroup := if loosePositions = [] then none else answers.bundleName.map (⟨·, loosePositions⟩)
  let ownPositions := if newGroup.isSome then plan.ownPositions else plan.ownPositions ++ loosePositions
  { newMasterItems := created
    groupUpdates := plan.groupUpdates
    newGroup := newGroup
    templateName := answers.templateName
    positions := distinct ownPositions
    includeGroupIds := composition.groups.map (·.group.id) }

end

/-! ## Every row is recognised or loose -/

section
variable {κ : Type*} [LinearOrder κ] {toLowerCase : String → String} {collate : String → κ} {input : RecognitionInput}
  {group : RecognisedGroup} {row : TripItem} {p : TemplateItem}

/-- The group of some rows is there. -/
theorem exists_groupOf {line : Line TripItem} (h : line ∈ rowsByGroup input) :
    ∃ group, groupOf input.templates line.first = some group := by
  have hfirst := ((Lines.mem_rows h).1 line.first_mem).1
  exact Option.isSome_iff_exists.1 (List.mem_filter.1 hfirst).2

theorem mem_groups (h : group ∈ (recogniseTripComposition toLowerCase collate input).groups) :
    ∃ line ∈ rowsByGroup input, ∃ template, group = recognised toLowerCase input template line.rows := by
  have hmem := Ranked.mem_byRank.1 h
  obtain ⟨line, hline, hgroup⟩ := List.mem_filterMap.1 hmem
  obtain ⟨template, -, rfl⟩ := Option.map_eq_some_iff.1 hgroup
  exact ⟨line, hline, template, rfl⟩

/-- No position of the group carries a row that was added. -/
theorem not_carries (h : group ∈ (recogniseTripComposition toLowerCase collate input).groups) (hrow : row ∈ group.added)
    (hp : p ∈ input.positions) (hgroup : p.templateId = group.group.id) :
    carries toLowerCase row p input.masterItems = false := by
  obtain ⟨line, -, template, rfl⟩ := mem_groups h
  have hnone := (List.mem_filter.1 hrow).2
  rw [Bool.not_eq_true', List.any_eq_false] at hnone
  exact Bool.eq_false_iff.2 (hnone p (List.mem_filter.2 ⟨hp, decide_eq_true hgroup⟩))

/-- **Every row is in one recognised group or in one loose line.** -/
theorem recognised_perm (input : RecognitionInput) :
    ((recogniseTripComposition toLowerCase collate input).groups.flatMap (·.tripItems) ++
      (recogniseTripComposition toLowerCase collate input).loose.flatMap (·.tripItems.rows)).Perm input.tripItems := by
  have hgroups : ((recogniseTripComposition toLowerCase collate input).groups.flatMap (·.tripItems)).Perm
      (input.tripItems.filter fun row => (groupOf input.templates row).isSome) := by
    refine ((Ranked.byRank_perm _ _).flatMap_right _).trans ?_
    have hrows : ∀ part : List (Line TripItem), (∀ line ∈ part, line ∈ rowsByGroup input) →
        (part.filterMap fun line => (groupOf input.templates line.first).map fun group =>
          recognised toLowerCase input group line.rows).flatMap (·.tripItems) = part.flatMap (·.rows) := by
      intro part hpart
      induction part with
      | nil => rfl
      | cons line part ih =>
        obtain ⟨group, hgroup⟩ := exists_groupOf (hpart line List.mem_cons_self)
        have hsome : (groupOf input.templates line.first).map (fun group =>
            recognised toLowerCase input group line.rows) = some (recognised toLowerCase input group line.rows) := by
          rw [hgroup]
          rfl
        rw [List.filterMap_cons, hsome, List.flatMap_cons, List.flatMap_cons,
          ih fun line hline => hpart line (List.mem_cons_of_mem _ hline)]
        rfl
    rw [hrows _ fun _ h => h]
    exact Lines.flatMap_rows_perm _
  have hloose : ((recogniseTripComposition toLowerCase collate input).loose.flatMap (·.tripItems.rows)).Perm
      (input.tripItems.filter fun row => !(groupOf input.templates row).isSome) := by
    unfold recogniseTripComposition
    rw [List.flatMap_map]
    exact Lines.flatMap_rows_perm _
  exact (hgroups.append hloose).trans (List.filter_append_perm _ _)

end

/-! ## What a line is resolved to -/

section
variable (toLowerCase : String → String) (masterItems : List MasterItem)

/-- The item that a row stands for, if there is one. -/
def itemOf (row : TripItem) : Option String :=
  match row.sourceItemId with
  | some id => some id
  | none => (itemNamed toLowerCase masterItems row.name).map (·.id)

/-- A draft is of the row's item, or of its name if there is none. -/
def Represents (draft : PositionDraft) (row : TripItem) : Prop :=
  draft.itemId = itemOf toLowerCase masterItems row ∧
    (draft.itemId = none → namesMatch toLowerCase draft.name row.name)

/-- The names that are created: each once, and none that an item has. -/
structure Invented (created : List String) : Prop where
  once : (created.map (normalizeName toLowerCase)).Nodup
  unknown : ∀ name ∈ created, ∀ item ∈ masterItems, ¬ namesMatch toLowerCase item.name name

end

section
variable {toLowerCase : String → String} {masterItems : List MasterItem} {created : List String} {row row' : TripItem}
  {draft draft' : PositionDraft} {line : Line TripItem}

theorem itemNamed_eq_none {name : String} : itemNamed toLowerCase masterItems name = none ↔
    ∀ item ∈ masterItems, ¬ namesMatch toLowerCase item.name name := by
  simp [itemNamed, namesMatch]

/-- Rows of one key stand for the same. -/
theorem Represents.congr (hrow : lineKey toLowerCase row' = lineKey toLowerCase row)
    (h : Represents toLowerCase masterItems draft row) : Represents toLowerCase masterItems draft row' := by
  unfold lineKey at hrow
  unfold Represents itemOf at *
  cases hid : row.sourceItemId with
  | some id =>
    cases hid' : row'.sourceItemId with
    | some id' =>
      simp only [hid, hid', LineKey.item.injEq] at hrow h ⊢
      exact ⟨hrow ▸ h.1, fun hnone => nomatch hnone.symm.trans h.1⟩
    | none => simp [hid, hid'] at hrow
  | none =>
    cases hid' : row'.sourceItemId with
    | some id' => simp [hid, hid'] at hrow
    | none =>
      simp only [hid, hid', LineKey.name.injEq] at hrow h ⊢
      refine ⟨h.1.trans ?_, fun hnone => (h.2 hnone).trans hrow.symm⟩
      simp only [itemNamed, hrow]

/-- Drafts of one key represent the same. -/
theorem Represents.of_key (hkey : draft'.key = draft.key) (h : Represents toLowerCase masterItems draft row) :
    Represents toLowerCase masterItems draft' row := by
  unfold PositionDraft.key at hkey
  cases hid : draft.itemId with
  | some id =>
    cases hid' : draft'.itemId with
    | some id' =>
      simp only [hid, hid', LineKey.item.injEq] at hkey
      exact ⟨by rw [hid', hkey, ← hid]; exact h.1, fun hnone => nomatch hid'.symm.trans hnone⟩
    | none => simp [hid, hid'] at hkey
  | none =>
    cases hid' : draft'.itemId with
    | some id' => simp [hid, hid'] at hkey
    | none =>
      simp only [hid, hid', LineKey.name.injEq] at hkey
      exact ⟨by rw [hid', ← hid]; exact h.1, fun _ => hkey ▸ h.2 hid⟩

/-- What folding lines does to the names that are created. -/
structure Folded (toLowerCase : String → String) (masterItems : List MasterItem) (created : List String)
    (lines : List (Line TripItem)) (drafts : List PositionDraft) (created' : List String) : Prop where
  invented : Invented toLowerCase masterItems created → Invented toLowerCase masterItems created'
  grows : created ⊆ created'
  named : ∀ draft ∈ drafts, draft.itemId = none → draft.name ∈ created'
  represented : ∀ line ∈ lines, ∃ draft ∈ drafts, ∀ row, lineKey toLowerCase row = lineKey toLowerCase line.first →
    Represents toLowerCase masterItems draft row
  source : ∀ draft ∈ drafts, ∃ line ∈ lines, Represents toLowerCase masterItems draft line.first

/-- A line is folded to what its first row stands for. -/
theorem represents_fold (created : List String) (line : Line TripItem) :
    Represents toLowerCase masterItems (fold toLowerCase masterItems created line).1 line.first := by
  unfold Represents itemOf fold
  dsimp only
  split
  case h_1 id hid => exact ⟨rfl, fun hnone => nomatch hnone⟩
  case h_2 hid =>
    split
    case h_1 existing hitem => exact ⟨by rw [hitem]; rfl, fun hnone => nomatch hnone⟩
    case h_2 hitem =>
      split
      case h_1 invented hfind =>
        have hname := List.find?_some hfind
        exact ⟨by rw [hitem]; rfl, fun _ => of_decide_eq_true hname⟩
      case h_2 => exact ⟨by rw [hitem]; rfl, fun _ => rfl⟩

theorem folded_fold (created : List String) (line : Line TripItem) :
    Folded toLowerCase masterItems created [line] [(fold toLowerCase masterItems created line).1]
      (fold toLowerCase masterItems created line).2 := by
  have hrep := @represents_fold toLowerCase masterItems created line
  have hnames : (Invented toLowerCase masterItems created →
      Invented toLowerCase masterItems (fold toLowerCase masterItems created line).2) ∧
        created ⊆ (fold toLowerCase masterItems created line).2 ∧
          ((fold toLowerCase masterItems created line).1.itemId = none →
            (fold toLowerCase masterItems created line).1.name ∈ (fold toLowerCase masterItems created line).2) := by
    unfold fold
    dsimp only
    split
    case h_1 id hid => exact ⟨fun h => h, fun _ h => h, fun hnone => nomatch hnone⟩
    case h_2 hid =>
      split
      case h_1 existing hitem => exact ⟨fun h => h, fun _ h => h, fun hnone => nomatch hnone⟩
      case h_2 hitem =>
        split
        case h_1 invented hfind => exact ⟨fun h => h, fun _ h => h, fun _ => List.mem_of_find?_eq_some hfind⟩
        case h_2 hnew =>
          refine ⟨fun h => ⟨?_, ?_⟩, List.subset_append_left _ _, fun _ => by simp⟩
          · rw [List.map_append, List.nodup_append]
            refine ⟨h.once, by simp, ?_⟩
            rintro _ hold _ hname rfl
            obtain ⟨name, hmem, hsame⟩ := List.mem_map.1 hold
            rw [List.map_singleton, List.mem_singleton] at hname
            exact of_decide_eq_false (Bool.eq_false_iff.2 (List.find?_eq_none.1 hnew name hmem)) (hsame.trans hname)
          · intro name hname
            rcases List.mem_append.1 hname with hname | hname
            · exact h.unknown name hname
            · rw [List.mem_singleton.1 hname]
              exact itemNamed_eq_none.1 hitem
  refine ⟨hnames.1, hnames.2.1, ?_, ?_, ?_⟩
  · simpa using hnames.2.2
  · simpa using fun row (hrow : lineKey toLowerCase row = lineKey toLowerCase line.first) => hrep.congr hrow
  · simpa using hrep

theorem folded_foldAll (created : List String) (lines : List (Line TripItem)) :
    Folded toLowerCase masterItems created lines (foldAll toLowerCase masterItems created lines).1
      (foldAll toLowerCase masterItems created lines).2 := by
  induction lines generalizing created with
  | nil => exact ⟨fun h => h, fun _ h => h, fun _ h => (nomatch h), fun _ h => (nomatch h), fun _ h => nomatch h⟩
  | cons line rest ih =>
    have hline := @folded_fold toLowerCase masterItems created line
    have hrest := ih (fold toLowerCase masterItems created line).2
    rw [foldAll]
    dsimp only
    refine ⟨fun h => hrest.invented (hline.invented h), fun _ h => hrest.grows (hline.grows h), ?_, ?_, ?_⟩
    · intro draft hdraft hnone
      rcases List.mem_cons.1 hdraft with rfl | hdraft
      · exact hrest.grows (hline.named _ (List.mem_singleton_self _) hnone)
      · exact hrest.named draft hdraft hnone
    · intro l hl
      rcases List.mem_cons.1 hl with rfl | hl
      · exact ⟨_, List.mem_cons_self, fun row hrow => (represents_fold created l).congr hrow⟩
      · obtain ⟨draft, hdraft, hrows⟩ := hrest.represented l hl
        exact ⟨draft, List.mem_cons_of_mem _ hdraft, hrows⟩
    · intro draft hdraft
      rcases List.mem_cons.1 hdraft with rfl | hdraft
      · exact ⟨line, List.mem_cons_self, represents_fold created line⟩
      · obtain ⟨l, hl, hrep⟩ := hrest.source draft hdraft
        exact ⟨l, List.mem_cons_of_mem _ hl, hrep⟩

/-- What is represented by some drafts is represented by the distinct ones. -/
theorem exists_distinct {drafts : List PositionDraft}
    (h : ∃ draft ∈ drafts, Represents toLowerCase masterItems draft row) :
    ∃ draft ∈ distinct drafts, Represents toLowerCase masterItems draft row := by
  obtain ⟨draft, hdraft, hrep⟩ := h
  obtain ⟨kept, hkept, hkey⟩ : ∃ kept ∈ distinct drafts, kept.key = draft.key := Lines.exists_mem_firsts hdraft
  exact ⟨kept, hkept, hrep.of_key hkey⟩

end

/-! ## What the groups get -/

section
variable {toLowerCase : String → String} {masterItems : List MasterItem} {answers : Answers} {plan : Plan}
  {groups : List RecognisedGroup} {group : RecognisedGroup} {row : TripItem} {drafts : List PositionDraft}

/-- Some drafts represent a row. -/
def Represented (toLowerCase : String → String) (masterItems : List MasterItem) (drafts : List PositionDraft)
    (row : TripItem) : Prop :=
  ∃ draft ∈ drafts, Represents toLowerCase masterItems draft row

theorem Represented.append_left (h : Represented toLowerCase masterItems drafts row) (more : List PositionDraft) :
    Represented toLowerCase masterItems (drafts ++ more) row :=
  h.imp fun _ hdraft => hdraft.imp_left (List.mem_append_left _)

theorem Represented.append_right (h : Represented toLowerCase masterItems drafts row) (more : List PositionDraft) :
    Represented toLowerCase masterItems (more ++ drafts) row :=
  h.imp fun _ hdraft => hdraft.imp_left (List.mem_append_right _)

/-- What holds of the writes of some groups. -/
structure Plan.Sound (toLowerCase : String → String) (masterItems : List MasterItem) (answers : Answers)
    (groups : List RecognisedGroup) (plan : Plan) : Prop where
  invented : Invented toLowerCase masterItems plan.created
  named : ∀ draft, (draft ∈ plan.ownPositions ∨ ∃ update ∈ plan.groupUpdates, draft ∈ update.positions) →
    draft.itemId = none → draft.name ∈ plan.created
  apart : ∀ update ∈ plan.groupUpdates, update.positions.Pairwise fun a b => a.key ≠ b.key
  source : ∀ update ∈ plan.groupUpdates, ∃ group ∈ groups, update.groupId = group.group.id ∧
    ∀ draft ∈ update.positions, ∃ row ∈ group.added, Represents toLowerCase masterItems draft row
  updated : ∀ group ∈ groups, answers.choice group = .update → ∀ row ∈ group.added,
    ∃ update ∈ plan.groupUpdates, update.groupId = group.group.id ∧
      Represented toLowerCase masterItems update.positions row
  owned : ∀ group ∈ groups, answers.choice group = .own → ∀ row ∈ group.added,
    Represented toLowerCase masterItems plan.ownPositions row

/-- The positions of a group's additions represent them, and nothing else. -/
theorem folded_added (created : List String) (rows : List TripItem) :
    (∀ row ∈ rows, Represented toLowerCase masterItems
      (distinct (foldAll toLowerCase masterItems created (foldRows toLowerCase rows)).1) row) ∧
    ∀ draft ∈ distinct (foldAll toLowerCase masterItems created (foldRows toLowerCase rows)).1,
      ∃ row ∈ rows, Represents toLowerCase masterItems draft row := by
  have hfolded := @folded_foldAll toLowerCase masterItems created (foldRows toLowerCase rows)
  constructor
  · intro row hrow
    obtain ⟨line, hline, hmem⟩ : ∃ line ∈ foldRows toLowerCase rows, row ∈ line.rows := Lines.exists_mem_lines hrow
    obtain ⟨draft, hdraft, hrep⟩ := hfolded.represented line hline
    exact exists_distinct ⟨draft, hdraft, hrep row ((Lines.mem_rows hline).1 hmem).2⟩
  · intro draft hdraft
    obtain ⟨line, hline, hrep⟩ := hfolded.source draft (Lines.mem_of_mem_firsts hdraft)
    exact ⟨line.first, ((Lines.mem_rows hline).1 line.first_mem).1, hrep⟩

/-- One group keeps what holds. -/
theorem Plan.Sound.step (h : plan.Sound toLowerCase masterItems answers groups) (group : RecognisedGroup) :
    (plan.group toLowerCase masterItems answers group).Sound toLowerCase masterItems answers (groups ++ [group]) := by
  unfold Plan.group
  split
  case isTrue hnone =>
    refine ⟨h.invented, h.named, h.apart, fun update hupdate => ?_, fun g hg hchoice row hrow => ?_,
      fun g hg hchoice row hrow => ?_⟩
    · obtain ⟨g, hg, hsource⟩ := h.source update hupdate
      exact ⟨g, List.mem_append_left _ hg, hsource⟩
    all_goals
      rcases List.mem_append.1 hg with hg | hg
    · exact h.updated g hg hchoice row hrow
    · rw [List.mem_singleton.1 hg, hnone] at hrow
      cases hrow
    · exact h.owned g hg hchoice row hrow
    · rw [List.mem_singleton.1 hg, hnone] at hrow
      cases hrow
  case isFalse =>
    have hfolded := @folded_foldAll toLowerCase masterItems plan.created (foldRows toLowerCase group.added)
    obtain ⟨hadded, hsource⟩ := @folded_added toLowerCase masterItems plan.created group.added
    dsimp only
    generalize foldAll toLowerCase masterItems plan.created (foldRows toLowerCase group.added) = result at *
    have hnamed : ∀ draft ∈ distinct result.1, draft.itemId = none → draft.name ∈ result.2 := fun draft hdraft =>
      hfolded.named draft (Lines.mem_of_mem_firsts hdraft)
    split
    case h_1 hchoice =>
      refine ⟨hfolded.invented h.invented, ?_, fun update hupdate => ?_, fun update hupdate => ?_,
        fun g hg hupdate row hrow => ?_, fun g hg hown row hrow => ?_⟩
      · rintro draft (hdraft | ⟨update, hupdate, hdraft⟩) hnone
        · exact hfolded.grows (h.named draft (.inl hdraft) hnone)
        · rcases List.mem_append.1 hupdate with hupdate | hupdate
          · exact hfolded.grows (h.named draft (.inr ⟨update, hupdate, hdraft⟩) hnone)
          · rw [List.mem_singleton.1 hupdate] at hdraft
            exact hnamed draft hdraft hnone
      · rcases List.mem_append.1 hupdate with hupdate | hupdate
        · exact h.apart update hupdate
        · rw [List.mem_singleton.1 hupdate]
          exact Lines.pairwise_firsts _
      · rcases List.mem_append.1 hupdate with hupdate | hupdate
        · obtain ⟨g, hg, hrows⟩ := h.source update hupdate
          exact ⟨g, List.mem_append_left _ hg, hrows⟩
        · rw [List.mem_singleton.1 hupdate]
          exact ⟨group, by simp, rfl, hsource⟩
      · rcases List.mem_append.1 hg with hg | hg
        · obtain ⟨update, hmem, hrows⟩ := h.updated g hg hupdate row hrow
          exact ⟨update, List.mem_append_left _ hmem, hrows⟩
        · rw [List.mem_singleton.1 hg] at hrow ⊢
          exact ⟨_, List.mem_append_right _ (List.mem_singleton_self _), rfl, hadded row hrow⟩
      · rcases List.mem_append.1 hg with hg | hg
        · exact h.owned g hg hown row hrow
        · rw [List.mem_singleton.1 hg, hchoice] at hown
          cases hown
    case h_2 hchoice =>
      refine ⟨hfolded.invented h.invented, ?_, h.apart, fun update hupdate => ?_,
        fun g hg hupdate row hrow => ?_, fun g hg hown row hrow => ?_⟩
      · rintro draft (hdraft | hdraft) hnone
        · rcases List.mem_append.1 hdraft with hdraft | hdraft
          · exact hfolded.grows (h.named draft (.inl hdraft) hnone)
          · exact hnamed draft hdraft hnone
        · exact hfolded.grows (h.named draft (.inr hdraft) hnone)
      · obtain ⟨g, hg, hrows⟩ := h.source update hupdate
        exact ⟨g, List.mem_append_left _ hg, hrows⟩
      · rcases List.mem_append.1 hg with hg | hg
        · exact h.updated g hg hupdate row hrow
        · rw [List.mem_singleton.1 hg, hchoice] at hupdate
          cases hupdate
      · rcases List.mem_append.1 hg with hg | hg
        · exact (h.owned g hg hown row hrow).append_left _
        · rw [List.mem_singleton.1 hg] at hrow
          exact Represented.append_right (hadded row hrow) _

theorem sound_foldl (groups : List RecognisedGroup) :
    (groups.foldl (Plan.group toLowerCase masterItems answers) ⟨[], [], []⟩).Sound toLowerCase masterItems answers
      groups := by
  induction groups using List.reverseRecOn with
  | nil =>
    refine ⟨⟨by simp, fun _ h => (nomatch h)⟩, ?_, fun _ h => (nomatch h), fun _ h => (nomatch h),
      fun _ h => (nomatch h), fun _ h => nomatch h⟩
    rintro draft (h | ⟨update, h, -⟩) <;> cases h
  | append_singleton groups group ih =>
    rw [List.foldl_append]
    exact ih.step group

end

/-! ## The whole plan -/

/-- The lists of positions that are written, one for each template. -/
def TemplateFromTripWrites.written (writes : TemplateFromTripWrites) : List (List PositionDraft) :=
  writes.groupUpdates.map (·.positions) ++ writes.newGroup.toList.map (·.positions) ++ [writes.positions]

section
variable {κ : Type*} [LinearOrder κ] (toLowerCase : String → String) (input : RecognitionInput)
  (composition : TripComposition) (answers : Answers) (writes : TemplateFromTripWrites)

/-- What the writes of a trip are to be. -/
structure Planned : Prop where
  /-- One position for each item or new name, in each template. -/
  apart : ∀ positions ∈ writes.written, positions.Pairwise fun a b => a.key ≠ b.key
  /-- A group gets no item that it has. -/
  fresh : ∀ update ∈ writes.groupUpdates, ∀ draft ∈ update.positions, ∀ p ∈ input.positions,
    p.templateId = update.groupId → draft.itemId ≠ some p.itemId
  updated : ∀ group ∈ composition.groups, answers.choice group = .update → ∀ row ∈ group.added,
    ∃ update ∈ writes.groupUpdates, update.groupId = group.group.id ∧
      Represented toLowerCase input.masterItems update.positions row
  owned : ∀ group ∈ composition.groups, answers.choice group = .own → ∀ row ∈ group.added,
    Represented toLowerCase input.masterItems writes.positions row
  loose : ∀ line ∈ composition.loose, line.tripItems.first.id ∈ answers.checkedLooseIds → ∀ row ∈ line.tripItems.rows,
    Represented toLowerCase input.masterItems ((writes.newGroup.map (·.positions)).getD writes.positions) row
  /-- A position without an item is of a new name. -/
  named : ∀ positions ∈ writes.written, ∀ draft ∈ positions, draft.itemId = none → draft.name ∈ writes.newMasterItems
  invented : Invented toLowerCase input.masterItems writes.newMasterItems

end

section
variable {κ : Type*} [LinearOrder κ] {toLowerCase : String → String} {collate : String → κ} {input : RecognitionInput}
  {answers : Answers} {row : TripItem} {p : TemplateItem} {draft : PositionDraft}

/-- A row that stands for the item of a position is carried by it. -/
theorem carries_of_represents (hitems : (input.masterItems.map (·.id)).Nodup)
    (h : Represents toLowerCase input.masterItems draft row) (hdraft : draft.itemId = some p.itemId) :
    carries toLowerCase row p input.masterItems = true := by
  have hitem := h.1.symm.trans hdraft
  unfold itemOf at hitem
  unfold carries
  split at hitem
  case h_1 id hid =>
    exact decide_eq_true (Option.some_inj.1 hitem)
  case h_2 hid =>
    obtain ⟨item, hnamed, hsame⟩ := Option.map_eq_some_iff.1 hitem
    have hmem : item ∈ input.masterItems := List.mem_of_find?_eq_some hnamed
    have hname := List.find?_some hnamed
    rw [(Keyed.last_eq_some_iff hitems).2 ⟨hmem, hsame⟩]
    exact hname

/-- A loose line of the trip is a line of rows of one key. -/
theorem mem_loose {line : LooseRow} (h : line ∈ (recogniseTripComposition toLowerCase collate input).loose)
    (hrow : row ∈ line.tripItems.rows) : lineKey toLowerCase row = lineKey toLowerCase line.tripItems.first := by
  obtain ⟨line, hline, rfl⟩ := List.mem_map.1 h
  exact ((Lines.mem_rows hline).1 hrow).2

theorem planned_planTemplateFromTrip (hitems : (input.masterItems.map (·.id)).Nodup) (answers : Answers) :
    Planned toLowerCase input (recogniseTripComposition toLowerCase collate input) answers
      (planTemplateFromTrip toLowerCase input.masterItems (recogniseTripComposition toLowerCase collate input)
        answers) := by
  have hnot := fun group hgroup row hrow p hp => @not_carries κ _ toLowerCase collate input group row p hgroup hrow hp
  have hkeys := fun line hline row hrow => @mem_loose κ _ toLowerCase collate input row line hline hrow
  generalize recogniseTripComposition toLowerCase collate input = composition at *
  have hsound := @sound_foldl toLowerCase input.masterItems answers composition.groups
  unfold planTemplateFromTrip
  generalize composition.groups.foldl (Plan.group toLowerCase input.masterItems answers) ⟨[], [], []⟩ = plan at *
  have hfolded := @folded_foldAll toLowerCase input.masterItems plan.created
    ((answers.checked composition.loose).map (·.tripItems))
  dsimp only
  generalize foldAll toLowerCase input.masterItems plan.created
    ((answers.checked composition.loose).map (·.tripItems)) = result at *
  have hloose : ∀ line ∈ composition.loose, line.tripItems.first.id ∈ answers.checkedLooseIds →
      ∀ row ∈ line.tripItems.rows, Represented toLowerCase input.masterItems (distinct result.1) row := by
    intro line hline hchecked row hrow
    have hmem : line.tripItems ∈ (answers.checked composition.loose).map (·.tripItems) :=
      List.mem_map_of_mem (List.mem_filter.2 ⟨hline, decide_eq_true hchecked⟩)
    obtain ⟨draft, hdraft, hrep⟩ := hfolded.represented _ hmem
    exact exists_distinct ⟨draft, hdraft, hrep row (hkeys line hline row hrow)⟩
  have hnamed : ∀ draft ∈ distinct result.1, draft.itemId = none → draft.name ∈ result.2 := fun draft hdraft =>
    hfolded.named draft (Lines.mem_of_mem_firsts hdraft)
  -- the new template keeps its own positions, with the loose ones where they are not bundled
  have hown : ∀ (bundled : Option NewGroup) (draft : PositionDraft),
      draft ∈ (if bundled.isSome then plan.ownPositions else plan.ownPositions ++ distinct result.1) →
        draft.itemId = none → draft.name ∈ result.2 := by
    intro bundled draft hdraft hnone
    split at hdraft
    · exact hfolded.grows (hsound.named draft (.inl hdraft) hnone)
    · rcases List.mem_append.1 hdraft with hdraft | hdraft
      · exact hfolded.grows (hsound.named draft (.inl hdraft) hnone)
      · exact hnamed draft hdraft hnone
  have hbundled : ∀ group, (if distinct result.1 = [] then none else
      answers.bundleName.map (⟨·, distinct result.1⟩ : String → NewGroup)) = some group →
        group.positions = distinct result.1 := by
    intro group hgroup
    split at hgroup
    · cases hgroup
    · obtain ⟨name, -, rfl⟩ := Option.map_eq_some_iff.1 hgroup
      rfl
  generalize (if distinct result.1 = [] then none else
    answers.bundleName.map (⟨·, distinct result.1⟩ : String → NewGroup)) = bundled at *
  have hbundle : ∀ positions ∈ bundled.toList.map (·.positions), positions = distinct result.1 := by
    intro positions hpositions
    obtain ⟨group, hgroup, rfl⟩ := List.mem_map.1 hpositions
    exact hbundled group (Option.mem_toList.1 hgroup)
  have hwritten : ∀ {positions : List PositionDraft} {updates : List GroupUpdate} {own : List PositionDraft},
      positions ∈ updates.map (·.positions) ++ bundled.toList.map (·.positions) ++ [own] →
        (∃ update ∈ updates, update.positions = positions) ∨ positions = distinct result.1 ∨ positions = own := by
    intro positions updates own hpositions
    rcases List.mem_append.1 hpositions with hpositions | hpositions
    · rcases List.mem_append.1 hpositions with hpositions | hpositions
      · exact .inl (List.mem_map.1 hpositions)
      · exact .inr (.inl (hbundle positions hpositions))
    · exact .inr (.inr (List.mem_singleton.1 hpositions))
  refine ⟨fun positions hpositions => ?_, fun update hupdate draft hdraft p hp hgroup hitem => ?_, hsound.updated,
    fun group hgroup hchoice row hrow => ?_, fun line hline hchecked row hrow => ?_,
    fun positions hpositions draft hdraft hnone => ?_, hfolded.invented hsound.invented⟩
  · rcases hwritten hpositions with ⟨update, hupdate, rfl⟩ | rfl | rfl
    · exact hsound.apart update hupdate
    · exact Lines.pairwise_firsts _
    · exact Lines.pairwise_firsts _
  · obtain ⟨group, hmem, hid, hsource⟩ := hsound.source update hupdate
    obtain ⟨row, hrow, hrep⟩ := hsource draft hdraft
    have hcarries := carries_of_represents hitems hrep hitem
    rw [hnot group hmem row hrow p hp (hgroup.trans hid)] at hcarries
    cases hcarries
  · refine exists_distinct ?_
    have howned := hsound.owned group hgroup hchoice row hrow
    split
    · exact howned
    · exact howned.append_left _
  · have hrep := hloose line hline hchecked row hrow
    cases bundled with
    | some group =>
      have hgroup : group.positions = distinct result.1 := hbundled group rfl
      simpa only [Option.map_some, Option.getD_some, hgroup] using hrep
    | none => exact exists_distinct (hrep.append_right _)
  · rcases hwritten hpositions with ⟨update, hupdate, rfl⟩ | rfl | rfl
    · exact hfolded.grows (hsound.named draft (.inr ⟨update, hupdate, hdraft⟩) hnone)
    · exact hnamed draft hdraft hnone
    · exact hown bundled draft (Lines.mem_of_mem_firsts hdraft) hnone

end

/-- **A trip saved as a template.** -/
theorem trip_template_spec {κ : Type*} [LinearOrder κ] (toLowerCase : String → String) (collate : String → κ)
    {input : RecognitionInput} (hitems : (input.masterItems.map (·.id)).Nodup) :
    ((recogniseTripComposition toLowerCase collate input).groups.flatMap (·.tripItems) ++
      (recogniseTripComposition toLowerCase collate input).loose.flatMap (·.tripItems.rows)).Perm input.tripItems ∧
    ∀ answers, Planned toLowerCase input (recogniseTripComposition toLowerCase collate input) answers
      (planTemplateFromTrip toLowerCase input.masterItems (recogniseTripComposition toLowerCase collate input)
        answers) :=
  ⟨recognised_perm input, planned_planTemplateFromTrip hitems⟩

/-- A trip with a group of cameras, to which a tripod and twice a gimbal were added. -/
def photoTrip : RecognitionInput where
  tripItems := [⟨"r1", "camera", some "i1", some "g", none⟩, ⟨"r2", "tripod", some "i2", some "g", none⟩,
    ⟨"r3", "gimbal", none, some "g", none⟩, ⟨"r4", "Gimbal ", none, none, some "anna"⟩]
  templates := [⟨"g", "cameras", .group⟩]
  positions := [⟨"g", "i1"⟩]
  masterItems := [⟨"i1", "camera"⟩, ⟨"i2", "tripod"⟩]

theorem photo_saved :
    ((recogniseTripComposition String.toLower String.length photoTrip).groups.flatMap (·.tripItems) ++
      (recogniseTripComposition String.toLower String.length photoTrip).loose.flatMap (·.tripItems.rows)).Perm
        photoTrip.tripItems ∧
    ∀ answers, Planned String.toLower photoTrip
      (recogniseTripComposition String.toLower String.length photoTrip) answers
      (planTemplateFromTrip String.toLower photoTrip.masterItems
        (recogniseTripComposition String.toLower String.length photoTrip) answers) :=
  trip_template_spec String.toLower String.length (by decide)

end TripTemplate

end JitPack
