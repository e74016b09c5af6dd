import JitPack.Client.Placement

/-!
# The group refresh

`domain/refresh.ts`: a trip follows the templates it was generated from. `planRefresh` resolves them again and compares
the result with the rows of the trip, by way of the ledger of what generation last produced. The plan is an offer: it is
written (`applyRefreshPlan`), or only its ledger half is (`declinePlan`).

A row that is not what the ledger says is the user's (`isProtected`). The ledger has one entry for each position, but
nothing keeps two entries from naming one row: a row that is assigned to somebody else is taken for the row of another
position. What protects it under one entry is then rewritten under the other.
-/

namespace JitPack

/-! ## Rows -/

/-- `ItemState`. -/
inductive ItemState where
  | opened
  | packingNow
  | partlyPacked
  | packed
  | skipped
  deriving DecidableEq

/-- `PROPAGATED_FIELDS`: what a group may overwrite on a row. -/
@[ext]
structure PropagatedFields where
  name : String
  quantity : ℕ
  mode : ItemMode
  latePacker : Bool
  weightGrams : Option ℚ
  valueCents : Option ℚ
  categoryName : Option String
  deriving DecidableEq

/-- `TripItem`, as far as the refresh reads and writes it. -/
structure TripItem extends PropagatedFields where
  id : String
  tripId : String
  sourceItemId : Option ItemId
  sourceTemplateId : Option String
  packedCount : ℕ
  state : ItemState
  assignedTravelerId : Option String
  deriving DecidableEq

/-- `GeneratedPosition`: an entry of the ledger. -/
structure GeneratedPosition extends PropagatedFields where
  id : String
  tripId : String
  tripItemId : String
  sourceTemplateId : String
  sourceItemId : ItemId
  travelerId : String
  tasks : List String
  deriving DecidableEq

/-- `Traveler`. -/
structure Traveler where
  id : String
  name : String
  linkedUserId : Option String
  deriving DecidableEq

/-- `TripTemplateSource`. -/
structure TripTemplateSource where
  id : String
  templateId : String

/-- `Trip`, as far as the refresh reads it. Its days are ISO texts. -/
structure Trip where
  id : String
  status : TripStatus
  endDate : Option String
  attributes : Option JsonRecord

/-- `RefreshInput`. -/
structure RefreshInput where
  trip : Trip
  sources : List TripTemplateSource
  templates : List Template
  includes : List TemplateInclude
  templateItems : List TemplateItem
  templateItemTasks : List TemplateItemTask
  masterItems : List CategorisedMasterItem
  travelers : List Traveler
  items : List TripItem
  prepTasks : List PrepTask
  ledger : List GeneratedPosition
  today : String

/-! ## The plan -/

/-- `PlannedAdd`. -/
structure PlannedAdd where
  generated : GeneratedItem
  travelerId : Option String
  tripItemId : String
  ledger : GeneratedPosition

/-- `GeneratedTripItemEdit`: a field that is `none` is left alone. -/
structure GeneratedTripItemEdit where
  name : Option String
  quantity : Option ℕ
  mode : Option ItemMode
  latePacker : Option Bool
  weightGrams : Option (Option ℚ)
  valueCents : Option (Option ℚ)
  categoryName : Option (Option String)
  deriving DecidableEq

/-- `PlannedUpdate`. -/
structure PlannedUpdate where
  item : TripItem
  fields : GeneratedTripItemEdit
  addTasks : List String
  removePrepTasks : List PrepTask
  ledger : GeneratedPosition

/-- `PlannedRemoval`. -/
structure PlannedRemoval where
  item : TripItem
  ledger : GeneratedPosition

/-- `AppliedChangeKind`. -/
inductive AppliedChangeKind where
  | added
  | removed
  | changed
  deriving DecidableEq

inductive DetailValue where
  | null
  | text (s : String)
  | number (n : ℚ)
  | flag (b : Bool)
  deriving DecidableEq

/-- `ChangeDetail`. -/
structure ChangeDetail where
  field : String
  fromValue : DetailValue
  toValue : DetailValue

/-- `AppliedChange`, without what is drawn when it is written. -/
structure AppliedChange where
  tripId : String
  sourceTemplateId : String
  sourceTemplateName : String
  kind : AppliedChangeKind
  itemName : String
  detail : Option ChangeDetail

/-- `RefreshPlan`. -/
structure RefreshPlan where
  add : List PlannedAdd := []
  update : List PlannedUpdate := []
  remove : List PlannedRemoval := []
  ledgerUpsert : List GeneratedPosition := []
  ledgerDelete : List String := []
  log : List AppliedChange := []

namespace Refresh

/-- `isEmptyPlan`. -/
def isEmptyPlan (plan : RefreshPlan) : Bool :=
  plan.add.isEmpty && plan.update.isEmpty && plan.remove.isEmpty && plan.ledgerUpsert.isEmpty &&
    plan.ledgerDelete.isEmpty

/-- `proposedChangeCount`. -/
def proposedChangeCount (plan : RefreshPlan) : ℕ := plan.add.length + plan.update.length + plan.remove.length

/-- `declinePlan`. -/
def declinePlan (plan : RefreshPlan) : RefreshPlan :=
  { ledgerUpsert := plan.ledgerUpsert, ledgerDelete := plan.ledgerDelete }

/-- One plan pushed after another. -/
def push (plan more : RefreshPlan) : RefreshPlan :=
  ⟨plan.add ++ more.add, plan.update ++ more.update, plan.remove ++ more.remove,
    plan.ledgerUpsert ++ more.ledgerUpsert, plan.ledgerDelete ++ more.ledgerDelete, plan.log ++ more.log⟩

/-! ## Ids -/

/-- `positionKey`. -/
def positionKey (sourceItemId : ItemId) (travelerId : String) : String := sourceItemId.text ++ "|" ++ travelerId

/-- The code units of a character. -/
def codeUnits (c : Char) : List ℕ :=
  if c.toNat < 0x10000 then [c.toNat]
  else [0xD800 + (c.toNat - 0x10000) / 0x400, 0xDC00 + (c.toNat - 0x10000) % 0x400]

/-- `fnv1a`. -/
def fnv1a (input : String) (seed : ℕ) : ℕ :=
  (input.toList.flatMap codeUnits).foldl (fun hash unit => (hash ^^^ unit) * 0x01000193 % 2 ^ 32) (seed % 2 ^ 32)

/-- `deriveId`. -/
def deriveId (namespaceName tripId key : String) : String :=
  String.join ([0x811c9dc5, 0x01000193, 0x9e3779b9, 0x85ebca6b].map fun seed =>
    String.ofList ((Nat.toDigits 16 (fnv1a (namespaceName ++ ":" ++ tripId ++ ":" ++ key) seed)).leftpad 8 '0'))

/-- `propagatedItemId`. -/
def propagatedItemId (tripId : String) (sourceItemId : ItemId) (travelerId : String) : String :=
  deriveId "item" tripId (positionKey sourceItemId travelerId)

/-- `ledgerId`. -/
def ledgerId (tripId : String) (sourceItemId : ItemId) (travelerId : String) : String :=
  deriveId "ledger" tripId (positionKey sourceItemId travelerId)

/-! ## Rows against the ledger -/

/-- `isProtected`: the row is not the template's to change. -/
def isProtected (row : TripItem) (entry : GeneratedPosition) : Prop :=
  row.state = .skipped ∨ 0 < row.packedCount ∨ row.name ≠ entry.name ∨ row.quantity ≠ entry.quantity ∨
    row.mode ≠ entry.mode ∨ row.latePacker ≠ entry.latePacker ∨ row.weightGrams ≠ entry.weightGrams ∨
    row.valueCents ≠ entry.valueCents ∨ row.categoryName ≠ entry.categoryName

instance (row : TripItem) (entry : GeneratedPosition) : Decidable (isProtected row entry) :=
  inferInstanceAs (Decidable (_ ∨ _))

/-- The new value of a field, if it is another one. -/
def changed {α : Type*} [DecidableEq α] (before after : α) : Option α := if before ≠ after then some after else none

/-- `changedFields`. -/
def changedFields (before after : PropagatedFields) : GeneratedTripItemEdit where
  name := changed before.name after.name
  quantity := changed before.quantity after.quantity
  mode := changed before.mode after.mode
  latePacker := changed before.latePacker after.latePacker
  weightGrams := changed before.weightGrams after.weightGrams
  valueCents := changed before.valueCents after.valueCents
  categoryName := changed before.categoryName after.categoryName

/-- The edit that leaves every field alone. -/
def noEdit : GeneratedTripItemEdit := ⟨none, none, none, none, none, none, none⟩

/-- The text that stands for a mode. -/
def modeText : ItemMode → String
  | .pack => "pack"
  | .buyBefore => "buy_before"
  | .buyLocal => "buy_local"

/-- The fields under their names, in the order of `PROPAGATED_FIELDS`. -/
def fieldValues (f : PropagatedFields) : List (String × DetailValue) :=
  [("name", .text f.name), ("quantity", .number f.quantity), ("mode", .text (modeText f.mode)),
    ("late_packer", .flag f.latePacker), ("weight_grams", f.weightGrams.elim .null .number),
    ("value_cents", f.valueCents.elim .null .number), ("category_name", f.categoryName.elim .null .text)]

/-- `describeFieldChanges`. -/
def describeFieldChanges (before after : PropagatedFields) : List ChangeDetail :=
  ((fieldValues before).zip (fieldValues after)).filterMap fun (b, a) =>
    if b.2 ≠ a.2 then some ⟨b.1, b.2, a.2⟩ else none

/-! ## What the templates ask for -/

/-- A generated row that can be placed, with its template and the traveler it is for. -/
structure Position where
  generated : GeneratedItem
  sourceTemplateId : String
  traveler : Option Traveler

namespace Position

variable (p : Position)

/-- `traveler?.id ?? ''`. -/
def travelerId : String := (p.traveler.map (·.id)).getD ""

def key : String := positionKey p.generated.sourceItemId p.travelerId

def fields : PropagatedFields where
  name := p.generated.name
  quantity := p.generated.quantity
  mode := p.generated.mode
  latePacker := p.generated.latePacker
  weightGrams := p.generated.weightGrams
  valueCents := p.generated.valueCents
  categoryName := p.generated.categoryName

end Position

/-- `positionKey(entry.source_item_id, entry.traveler_id)`. -/
def entryKey (entry : GeneratedPosition) : String := positionKey entry.sourceItemId entry.travelerId

/-- `snapshotOf`. -/
def snapshotOf (tripId tripItemId : String) (p : Position) (id : String) : GeneratedPosition :=
  { p.fields with
    id, tripId, tripItemId, sourceTemplateId := p.sourceTemplateId, sourceItemId := p.generated.sourceItemId
    travelerId := p.travelerId, tasks := p.generated.tasks }

/-- The position of a generated row: none without a template, or when its traveler is gone. -/
def positionOf (travelers : List Traveler) (g : GeneratedItem) : Option Position :=
  match g.travelerIndex with
  | none => g.sourceTemplateId.map (⟨g, ·, none⟩)
  | some i => travelers[i]?.bind fun traveler => g.sourceTemplateId.map (⟨g, ·, some traveler⟩)

/-- `followsGroups`. -/
def followsGroups (trip : Trip) (today : String) : Bool :=
  trip.status ≠ .archived && trip.endDate.all fun endDate => decide (today ≤ endDate)

/-- What the refresh has generated: the travelers come without their accounts. -/
def generation (s : RefreshInput) : GenerationInput where
  templates := s.templates
  selectedTemplateIds := s.sources.map (·.templateId)
  includes := s.includes
  templateItemTasks := s.templateItemTasks
  templateTasks := []
  templateItems := s.templateItems
  masterItems := s.masterItems
  attributes := s.trip.attributes
  travelers := s.travelers.map fun t => ⟨t.name, none⟩
  singleItemIds := []

/-- The key under which the row of a position is looked for. -/
def rowKey (item : TripItem) : Option String :=
  match item.sourceItemId with
  | none => none
  | some id => if id.text = "" then none else some (positionKey id (item.assignedTravelerId.getD ""))

section
variable {κ : Type*} [LinearOrder κ] (collate : String → κ) (s : RefreshInput)

/-- The positions that the templates of the trip ask for. -/
def positions : List Position :=
  (generateTripItems collate (generation s)).items.filterMap (positionOf s.travelers)

/-- `ledgerByKey.get(key)`. -/
def entryOf (key : String) : Option GeneratedPosition := Keyed.last entryKey s.ledger key

/-- `itemsById.get(id)`. -/
def rowById (id : String) : Option TripItem := Keyed.last (·.id) s.items id

/-- `rowsByKey.get(key)`. -/
def rowOfKey (key : String) : Option TripItem := s.items.find? (rowKey · = some key)

/-- `templateNames.get(id) ?? ''`. -/
def groupName (id : String) : String := ((templateById s.templates id).map (·.name)).getD ""

/-! ## Planning -/

/-- What the log says of a position. -/
def logged (p : Position) (kind : AppliedChangeKind) (detail : Option ChangeDetail) : AppliedChange :=
  ⟨s.trip.id, p.sourceTemplateId, groupName s p.sourceTemplateId, kind, p.generated.name, detail⟩

/-- The tasks that the position gained since the entry was written. -/
def gainedTasks (entry : GeneratedPosition) (p : Position) : List String :=
  p.generated.tasks.filter (· ∉ entry.tasks)

/-- The open preparations of the row whose task the position lost. -/
def lostPrepTasks (row : TripItem) (entry : GeneratedPosition) (p : Position) : List PrepTask :=
  s.prepTasks.filter fun task =>
    task.tripItemId = row.id ∧ task.taskState = .opened ∧
      task.body ∈ entry.tasks.filter (· ∉ p.generated.tasks)

/-- What a position pushes that has no entry. -/
def planUnrecorded (p : Position) : RefreshPlan :=
  let id := ledgerId s.trip.id p.generated.sourceItemId p.travelerId
  match rowOfKey s p.key with
  | some existing => { ledgerUpsert := [snapshotOf s.trip.id existing.id p id] }
  | none =>
    let tripItemId := propagatedItemId s.trip.id p.generated.sourceItemId p.travelerId
    let entry := snapshotOf s.trip.id tripItemId p id
    { add := [⟨p.generated, p.traveler.map (·.id), tripItemId, entry⟩], ledgerUpsert := [entry]
      log := [logged s p .added none] }

/-- What a position pushes for the row that its entry names. -/
def planRow (p : Position) (entry : GeneratedPosition) (row : TripItem) : RefreshPlan :=
  if isProtected row entry then {} else
    let next := snapshotOf s.trip.id row.id p entry.id
    let fields := changedFields entry.toPropagatedFields next.toPropagatedFields
    let addTasks := gainedTasks entry p
    let removePrepTasks := lostPrepTasks s row entry p
    if fields = noEdit ∧ addTasks = [] ∧ removePrepTasks.isEmpty then {} else
      { update := [⟨row, fields, addTasks, removePrepTasks, next⟩], ledgerUpsert := [next]
        log := (describeFieldChanges entry.toPropagatedFields next.toPropagatedFields).map
            (fun detail => logged s p .changed (some detail)) ++
          if addTasks ≠ [] ∨ ¬ removePrepTasks.isEmpty then
            [logged s p .changed (some ⟨"tasks", .number entry.tasks.length, .number next.tasks.length⟩)]
          else [] }

/-- The first loop at a position. -/
def planPosition (p : Position) : RefreshPlan :=
  match entryOf s p.key with
  | none => planUnrecorded s p
  | some entry =>
    match rowById s entry.tripItemId with
    | none => {}
    | some row => planRow s p entry row

/-- The second loop at an entry whose position is gone. -/
def planGone (entry : GeneratedPosition) : RefreshPlan :=
  match rowById s entry.tripItemId with
  | none => { ledgerDelete := [entry.id] }
  | some row =>
    if isProtected row entry then {} else
      { remove := [⟨row, entry⟩], ledgerDelete := [entry.id]
        log := [⟨entry.tripId, entry.sourceTemplateId, groupName s entry.sourceTemplateId, .removed, entry.name,
          none⟩] }

/-- The entries whose position is gone. -/
def goneEntries : List GeneratedPosition :=
  s.ledger.filter (entryKey · ∉ (positions collate s).map Position.key)

/-- `planRefresh`. -/
def planRefresh : RefreshPlan :=
  if followsGroups s.trip s.today ∧ s.sources ≠ [] then
    ((positions collate s).map (planPosition s) ++ (goneEntries collate s).map (planGone s)).foldl push {}
  else {}

/-! ## Writing a plan -/

end

/-- A mutation that the refresh makes. -/
inductive Write where
  | addGeneratedTripItem (row : TripItem)
  | addPrepTask (tripItemId body : String)
  | updateGeneratedTripItem (id : String) (fields : GeneratedTripItemEdit)
  | deleteTask (id : String)
  | deleteTripItem (id : String)
  | writeGeneratedPosition (entry : GeneratedPosition)
  | deleteGeneratedPosition (id : String)

/-- The row that `addGeneratedTripItem` inserts. -/
def addedRow (tripId : String) (a : PlannedAdd) : TripItem where
  id := a.tripItemId
  tripId := tripId
  name := a.generated.name
  sourceItemId := some a.generated.sourceItemId
  sourceTemplateId := a.generated.sourceTemplateId
  categoryName := a.generated.categoryName
  weightGrams := a.generated.weightGrams
  valueCents := a.generated.valueCents
  quantity := a.generated.quantity
  packedCount := 0
  state := if a.generated.quantity = 0 then .skipped else .opened
  mode := a.generated.mode
  latePacker := a.generated.latePacker
  assignedTravelerId := a.travelerId

/-- The row with the fields of an edit. -/
def edited (fields : GeneratedTripItemEdit) (row : TripItem) : TripItem :=
  { row with
    name := fields.name.getD row.name, quantity := fields.quantity.getD row.quantity
    mode := fields.mode.getD row.mode, latePacker := fields.latePacker.getD row.latePacker
    weightGrams := fields.weightGrams.getD row.weightGrams, valueCents := fields.valueCents.getD row.valueCents
    categoryName := fields.categoryName.getD row.categoryName }

/-- The writes of an addition. -/
def addWrites (tripId : String) (a : PlannedAdd) : List Write :=
  .addGeneratedTripItem (addedRow tripId a) :: a.generated.tasks.map (.addPrepTask a.tripItemId)

/-- The writes of an update. -/
def updateWrites (u : PlannedUpdate) : List Write :=
  (if u.fields = noEdit then [] else [.updateGeneratedTripItem u.item.id u.fields]) ++
    u.addTasks.map (.addPrepTask u.item.id) ++ u.removePrepTasks.map fun task => .deleteTask task.id

/-- The writes to the rows. -/
def rowWrites (tripId : String) (plan : RefreshPlan) : List Write :=
  plan.add.flatMap (addWrites tripId) ++ plan.update.flatMap updateWrites ++
    plan.remove.map fun removal => .deleteTripItem removal.item.id

/-- The writes of a plan, without its log, which nothing on the trip reads. -/
def planWrites (tripId : String) (plan : RefreshPlan) : List Write :=
  rowWrites tripId plan ++ plan.ledgerUpsert.map .writeGeneratedPosition ++
    plan.ledgerDelete.map .deleteGeneratedPosition

/-- A write, as the stores take it. What is drawn is the id of a new preparation and the facts that come with it. -/
def write (drawn : String × TaskFacts) (s : RefreshInput) : Write → RefreshInput
  | .addGeneratedTripItem row => { s with items := Keyed.put (·.id) s.items row }
  | .addPrepTask tripItemId body => { s with
      prepTasks := Keyed.put (·.id) s.prepTasks { drawn.2 with
        id := drawn.1, tripId := s.trip.id, tripItemId, authorId := "current-user", body, taskState := .opened } }
  | .updateGeneratedTripItem id fields => { s with
      items := s.items.map fun row => if row.id = id then edited fields row else row }
  | .deleteTask id => { s with prepTasks := Keyed.drop (·.id) s.prepTasks id }
  | .deleteTripItem id => { s with
      items := Keyed.drop (·.id) s.items id
      prepTasks := if id ∈ s.items.map (·.id) then Keyed.drop (·.tripItemId) s.prepTasks id else s.prepTasks }
  | .writeGeneratedPosition entry => { s with ledger := Keyed.put (·.id) s.ledger entry }
  | .deleteGeneratedPosition id => { s with ledger := Keyed.drop (·.id) s.ledger id }

def writeAll (drawn : ℕ → String × TaskFacts) : List Write → RefreshInput → RefreshInput
  | [], s => s
  | w :: ws, s => writeAll (fun n => drawn (n + 1)) ws (write (drawn 0) s w)

/-- `applyRefreshPlan`. -/
def applyRefreshPlan (drawn : ℕ → String × TaskFacts) (plan : RefreshPlan) (s : RefreshInput) : RefreshInput :=
  if isEmptyPlan plan then s else writeAll drawn (planWrites s.trip.id plan) s

/-! ## What a plan says -/

/-- What generation produced: the fields, and the tasks as a set. -/
def content (entry : GeneratedPosition) : PropagatedFields × Finset String :=
  (entry.toPropagatedFields, entry.tasks.toFinset)

def Position.content (p : Position) : PropagatedFields × Finset String := (p.fields, p.generated.tasks.toFinset)

@[simp] theorem content_snapshotOf (tripId tripItemId : String) (p : Position) (id : String) :
    content (snapshotOf tripId tripItemId p id) = p.content := rfl

@[simp] theorem entryKey_snapshotOf (tripId tripItemId : String) (p : Position) (id : String) :
    entryKey (snapshotOf tripId tripItemId p id) = p.key := rfl

section
variable {κ : Type*} [LinearOrder κ] {collate : String → κ} {s s' : RefreshInput} {p : Position}
variable {entry e x : GeneratedPosition} {row : TripItem}

theorem changed_eq_none {α : Type*} [DecidableEq α] {before after : α} : changed before after = none ↔ before = after := by
  simp [changed]

theorem changedFields_eq_noEdit {before after : PropagatedFields} :
    changedFields before after = noEdit ↔ before = after := by
  simp only [changedFields, noEdit, GeneratedTripItemEdit.mk.injEq, changed_eq_none, PropagatedFields.ext_iff]

theorem gainedTasks_eq_nil : gainedTasks entry p = [] ↔ ∀ t ∈ p.generated.tasks, t ∈ entry.tasks := by
  simp [gainedTasks, List.filter_eq_nil_iff]

theorem mem_lostPrepTasks {task : PrepTask} : task ∈ lostPrepTasks s row entry p ↔ task ∈ s.prepTasks ∧
    task.tripItemId = row.id ∧ task.taskState = .opened ∧ task.body ∈ entry.tasks ∧
      task.body ∉ p.generated.tasks := by
  simp [lostPrepTasks, List.mem_filter]

/-- Nothing about the position moved that the row of the entry would have to follow. -/
def UpToDate (s : RefreshInput) (p : Position) (entry : GeneratedPosition) (row : TripItem) : Prop :=
  entry.toPropagatedFields = p.fields ∧ gainedTasks entry p = [] ∧ lostPrepTasks s row entry p = []

/-- The row of an entry is left alone if it is protected, or if nothing moved. -/
theorem planRow_eq_empty : planRow s p entry row = {} ↔ isProtected row entry ∨ UpToDate s p entry row := by
  have hsame : (changedFields entry.toPropagatedFields
      (snapshotOf s.trip.id row.id p entry.id).toPropagatedFields = noEdit ∧ gainedTasks entry p = [] ∧
        (lostPrepTasks s row entry p).isEmpty) ↔ UpToDate s p entry row := by
    rw [changedFields_eq_noEdit, List.isEmpty_iff]
    rfl
  unfold planRow
  split
  · next hprotected => exact iff_of_true rfl (.inl hprotected)
  · next hprotected =>
    rw [or_iff_right hprotected, ← hsame]
    dsimp only
    split
    · next h => exact iff_of_true rfl h
    · next h => exact iff_of_false (fun heq => by cases heq) h

theorem planPosition_missing (h : entryOf s p.key = some entry) (hrow : rowById s entry.tripItemId = none) :
    planPosition s p = {} := by
  simp only [planPosition, h, hrow]

theorem planPosition_row (h : entryOf s p.key = some entry) (hrow : rowById s entry.tripItemId = some row) :
    planPosition s p = planRow s p entry row := by
  simp only [planPosition, h, hrow]

theorem upToDate_of_content (h : content entry = p.content) : UpToDate s p entry row := by
  obtain ⟨hfields, htasks⟩ := Prod.ext_iff.1 h
  have htask : ∀ t, t ∈ entry.tasks ↔ t ∈ p.generated.tasks := fun t => by
    rw [← List.mem_toFinset, ← List.mem_toFinset]
    exact Finset.ext_iff.1 htasks t
  refine ⟨hfields, gainedTasks_eq_nil.2 fun t ht => (htask t).2 ht, ?_⟩
  refine List.eq_nil_iff_forall_not_mem.2 fun task ht => ?_
  obtain ⟨-, -, -, hin, hnot⟩ := mem_lostPrepTasks.1 ht
  exact hnot ((htask _).1 hin)

/-- A position whose entry says what it says pushes nothing. -/
theorem planPosition_settled (h : entryOf s p.key = some entry) (hc : content entry = p.content) :
    planPosition s p = {} := by
  cases hrow : rowById s entry.tripItemId with
  | none => exact planPosition_missing h hrow
  | some row =>
    rw [planPosition_row h hrow]
    exact planRow_eq_empty.2 (.inr (upToDate_of_content hc))

/-- What a position pushes: an entry for the row it adopts, a new row with its entry, a change of its row with the
entry that says so, or nothing. -/
theorem planPosition_cases (s : RefreshInput) (p : Position) :
    (entryOf s p.key = none ∧ ∃ existing, rowOfKey s p.key = some existing ∧ planPosition s p =
      { ledgerUpsert := [snapshotOf s.trip.id existing.id p (deriveId "ledger" s.trip.id p.key)] }) ∨
    (entryOf s p.key = none ∧ rowOfKey s p.key = none ∧ ∃ a, a.tripItemId = deriveId "item" s.trip.id p.key ∧
      a.ledger = snapshotOf s.trip.id a.tripItemId p (deriveId "ledger" s.trip.id p.key) ∧
      planPosition s p = { add := [a], ledgerUpsert := [a.ledger], log := [logged s p .added none] }) ∨
    (∃ entry, entryOf s p.key = some entry ∧ planPosition s p = {} ∧
      ∀ row, rowById s entry.tripItemId = some row → planRow s p entry row = {}) ∨
    ∃ entry row, entryOf s p.key = some entry ∧ rowById s entry.tripItemId = some row ∧ ¬ isProtected row entry ∧
      ¬ UpToDate s p entry row ∧ ∃ u log, u.item = row ∧ u.ledger = snapshotOf s.trip.id row.id p entry.id ∧
        planPosition s p = { update := [u], ledgerUpsert := [u.ledger], log := log } := by
  cases hentry : entryOf s p.key with
  | none =>
    cases hrow : rowOfKey s p.key with
    | some existing =>
      refine .inl ⟨rfl, existing, rfl, ?_⟩
      simp only [planPosition, hentry, planUnrecorded, hrow]
      rfl
    | none =>
      let tripItemId := deriveId "item" s.trip.id p.key
      refine .inr (.inl ⟨rfl, rfl, ⟨p.generated, p.traveler.map (·.id), tripItemId,
        snapshotOf s.trip.id tripItemId p (deriveId "ledger" s.trip.id p.key)⟩, rfl, rfl, ?_⟩)
      simp only [planPosition, hentry, planUnrecorded, hrow]
      rfl
  | some entry =>
    refine .inr (.inr ?_)
    cases hrow : rowById s entry.tripItemId with
    | none => exact .inl ⟨entry, rfl, planPosition_missing hentry hrow, fun row h => by simp [hrow] at h⟩
    | some row =>
      have hplan := planPosition_row hentry hrow
      by_cases hempty : planRow s p entry row = {}
      · refine .inl ⟨entry, rfl, hplan.trans hempty, fun row' h => ?_⟩
        obtain rfl := Option.some.inj (hrow.symm.trans h)
        exact hempty
      · refine .inr ⟨entry, row, rfl, hrow, fun hp => hempty (planRow_eq_empty.2 (.inl hp)),
          fun hsame => hempty (planRow_eq_empty.2 (.inr hsame)), ?_⟩
        rw [hplan]
        unfold planRow at hempty ⊢
        split at hempty
        · exact absurd rfl hempty
        · next hprotected =>
          rw [if_neg hprotected]
          dsimp only at hempty ⊢
          split at hempty
          · exact absurd rfl hempty
          · next hmoved =>
            rw [if_neg hmoved]
            exact ⟨⟨row, _, _, _, _⟩, _, rfl, rfl, rfl⟩

theorem remove_planPosition : (planPosition s p).remove = [] := by
  obtain ⟨-, _, -, h⟩ | ⟨-, -, _, -, -, h⟩ | ⟨_, -, h, -⟩ | ⟨_, _, -, -, -, -, _, _, -, -, h⟩ :=
    planPosition_cases s p <;> rw [h]

theorem ledgerDelete_planPosition : (planPosition s p).ledgerDelete = [] := by
  obtain ⟨-, _, -, h⟩ | ⟨-, -, _, -, -, h⟩ | ⟨_, -, h, -⟩ | ⟨_, _, -, -, -, -, _, _, -, -, h⟩ :=
    planPosition_cases s p <;> rw [h]

/-- What an entry pushes whose position is gone: its removal if its row is gone as well, or with its row if it is not
protected, or nothing. -/
theorem planGone_cases (s : RefreshInput) (entry : GeneratedPosition) :
    (rowById s entry.tripItemId = none ∧ planGone s entry = { ledgerDelete := [entry.id] }) ∨
    (∃ row, rowById s entry.tripItemId = some row ∧ isProtected row entry ∧ planGone s entry = {}) ∨
    ∃ row log, rowById s entry.tripItemId = some row ∧ ¬ isProtected row entry ∧
      planGone s entry = { remove := [⟨row, entry⟩], ledgerDelete := [entry.id], log := log } := by
  unfold planGone
  cases hrow : rowById s entry.tripItemId with
  | none => exact .inl ⟨rfl, rfl⟩
  | some row =>
    by_cases hprotected : isProtected row entry
    · exact .inr (.inl ⟨row, rfl, hprotected, if_pos hprotected⟩)
    · exact .inr (.inr ⟨row, _, rfl, hprotected, if_neg hprotected⟩)

theorem planGone_pushes : (planGone s entry).add = [] ∧ (planGone s entry).update = [] ∧
    (planGone s entry).ledgerUpsert = [] := by
  obtain ⟨-, h⟩ | ⟨_, -, -, h⟩ | ⟨_, _, -, -, h⟩ := planGone_cases s entry <;> simp [h]

/-! ## The plan as a whole -/

/-- The refresh plans something for the trip. -/
def Follows (s : RefreshInput) : Prop := followsGroups s.trip s.today ∧ s.sources ≠ []

instance (s : RefreshInput) : Decidable (Follows s) := inferInstanceAs (Decidable (_ ∧ _ ≠ []))

theorem foldl_push {α : Type*} (f : RefreshPlan → List α) (hpush : ∀ a b, f (push a b) = f a ++ f b)
    (plans : List RefreshPlan) (plan : RefreshPlan) :
    f (plans.foldl push plan) = f plan ++ plans.flatMap f := by
  induction plans generalizing plan with
  | nil => simp
  | cons more plans ih => rw [List.foldl_cons, ih, hpush, List.flatMap_cons, List.append_assoc]

/-- A list of the plan has what the two loops pushed to it. -/
theorem mem_planRefresh {α : Type*} {a : α} (f : RefreshPlan → List α) (hnil : f {} = [])
    (hpush : ∀ a b, f (push a b) = f a ++ f b) : a ∈ f (planRefresh collate s) ↔ Follows s ∧
      ((∃ p ∈ positions collate s, a ∈ f (planPosition s p)) ∨ ∃ e ∈ goneEntries collate s, a ∈ f (planGone s e)) := by
  unfold planRefresh
  split
  · next h =>
    rw [foldl_push f hpush, hnil, List.nil_append, List.flatMap_append, List.mem_append]
    simp only [List.flatMap_map, List.mem_flatMap, Follows, h, ne_eq, not_false_eq_true, and_self, true_and]
  · next h => simp only [hnil, List.not_mem_nil, show ¬ Follows s from h, false_and]

theorem mem_add {a : PlannedAdd} : a ∈ (planRefresh collate s).add ↔
    Follows s ∧ ∃ p ∈ positions collate s, a ∈ (planPosition s p).add := by
  rw [mem_planRefresh (·.add) rfl fun _ _ => rfl]
  simp [planGone_pushes]

theorem mem_update {u : PlannedUpdate} : u ∈ (planRefresh collate s).update ↔
    Follows s ∧ ∃ p ∈ positions collate s, u ∈ (planPosition s p).update := by
  rw [mem_planRefresh (·.update) rfl fun _ _ => rfl]
  simp [planGone_pushes]

theorem mem_remove {r : PlannedRemoval} : r ∈ (planRefresh collate s).remove ↔
    Follows s ∧ ∃ e ∈ goneEntries collate s, r ∈ (planGone s e).remove := by
  rw [mem_planRefresh (·.remove) rfl fun _ _ => rfl]
  simp [remove_planPosition]

theorem mem_ledgerUpsert : x ∈ (planRefresh collate s).ledgerUpsert ↔
    Follows s ∧ ∃ p ∈ positions collate s, x ∈ (planPosition s p).ledgerUpsert := by
  rw [mem_planRefresh (·.ledgerUpsert) rfl fun _ _ => rfl]
  simp [planGone_pushes]

theorem mem_ledgerDelete {id : String} : id ∈ (planRefresh collate s).ledgerDelete ↔
    Follows s ∧ ∃ e ∈ goneEntries collate s, id ∈ (planGone s e).ledgerDelete := by
  rw [mem_planRefresh (·.ledgerDelete) rfl fun _ _ => rfl]
  simp [ledgerDelete_planPosition]

theorem planRefresh_eq_empty (hp : ∀ p ∈ positions collate s, planPosition s p = {})
    (he : ∀ e ∈ goneEntries collate s, planGone s e = {}) : planRefresh collate s = {} := by
  have hnone : ∀ plans : List RefreshPlan, (∀ plan ∈ plans, plan = {}) → plans.foldl push {} = {} := by
    intro plans
    induction plans with
    | nil => exact fun _ => rfl
    | cons plan plans ih =>
      intro h
      rw [List.foldl_cons, h plan List.mem_cons_self]
      exact ih fun more hmore => h more (List.mem_cons_of_mem _ hmore)
  unfold planRefresh
  split
  · refine hnone _ fun plan hplan => ?_
    obtain hplan | hplan := List.mem_append.1 hplan
    · obtain ⟨p, hmem, rfl⟩ := List.mem_map.1 hplan
      exact hp p hmem
    · obtain ⟨e, hmem, rfl⟩ := List.mem_map.1 hplan
      exact he e hmem
  · rfl

/-! ## What the writes change -/

/-- The row that a write changes, or gives a preparation to. -/
def Write.target : Write → Option String
  | .addGeneratedTripItem row => some row.id
  | .addPrepTask id _ | .updateGeneratedTripItem id _ | .deleteTripItem id => some id
  | .deleteTask _ | .writeGeneratedPosition _ | .deleteGeneratedPosition _ => none

/-- The ledger after a write. -/
def ledgerWrite (ledger : List GeneratedPosition) : Write → List GeneratedPosition
  | .writeGeneratedPosition entry => Keyed.put (·.id) ledger entry
  | .deleteGeneratedPosition id => Keyed.drop (·.id) ledger id
  | _ => ledger

/-- The rows that a plan is about. -/
def plannedRows (plan : RefreshPlan) : Set String :=
  {id | (∃ a ∈ plan.add, a.tripItemId = id) ∨ (∃ u ∈ plan.update, u.item.id = id) ∨ ∃ r ∈ plan.remove, r.item.id = id}

variable {drawn : ℕ → String × TaskFacts} {w : Write} {ws : List Write} {plan : RefreshPlan} {id : String}

theorem write_frame (d : String × TaskFacts) (s : RefreshInput) (w : Write) :
    ∃ items prepTasks, write d s w = { s with items, prepTasks, ledger := ledgerWrite s.ledger w } := by
  cases w <;> exact ⟨_, _, rfl⟩

/-- The writes change the rows, their preparations and the ledger, and nothing else. -/
theorem writeAll_frame (drawn : ℕ → String × TaskFacts) (ws : List Write) (s : RefreshInput) :
    ∃ items prepTasks, writeAll drawn ws s = { s with items, prepTasks, ledger := ws.foldl ledgerWrite s.ledger } := by
  induction ws generalizing drawn s with
  | nil => exact ⟨_, _, rfl⟩
  | cons w ws ih =>
    obtain ⟨items, prepTasks, hw⟩ := write_frame (drawn 0) s w
    obtain ⟨items', prepTasks', hws⟩ := ih (fun n => drawn (n + 1)) (write (drawn 0) s w)
    exact ⟨items', prepTasks', by rw [writeAll, hws, hw, List.foldl_cons]⟩

/-- A row that a write is not about stays as it is. -/
theorem rowById_write {d : String × TaskFacts} (h : w.target ≠ some id) : rowById (write d s w) id = rowById s id := by
  have hne : ∀ {id'}, w.target = some id' → id' ≠ id := fun hrow heq => h (heq ▸ hrow)
  unfold rowById
  cases w with
  | addGeneratedTripItem row => exact Keyed.last_congr (Keyed.filter_put (hne rfl))
  | updateGeneratedTripItem id' fields =>
    refine Keyed.last_congr (Keyed.filter_map_of_fix (fun row _ => ?_) fun row _ hrow => if_neg fun heq => ?_)
    · split <;> rfl
    · exact hne rfl (heq.symm.trans (of_decide_eq_true hrow))
  | deleteTripItem id' => exact Keyed.last_congr (Keyed.filter_drop (hne rfl))
  | addPrepTask _ _ | deleteTask _ | writeGeneratedPosition _ | deleteGeneratedPosition _ => rfl

/-- A write gives a preparation to its own row only. -/
theorem prepTasks_write {d : String × TaskFacts} {task : PrepTask} (h : task ∈ (write d s w).prepTasks) :
    task ∈ s.prepTasks ∨ w.target = some task.tripItemId := by
  cases w with
  | addPrepTask id body =>
    obtain rfl | ⟨hmem, -⟩ := Keyed.mem_put.1 h
    · exact .inr rfl
    · exact .inl hmem
  | deleteTask id => exact .inl (Keyed.mem_drop.1 h).1
  | deleteTripItem id =>
    dsimp only [write] at h
    split at h
    · exact .inl (Keyed.mem_drop.1 h).1
    · exact .inl h
  | addGeneratedTripItem _ | updateGeneratedTripItem _ _ | writeGeneratedPosition _ | deleteGeneratedPosition _ =>
    exact .inl h

theorem rowById_writeAll (h : ∀ w ∈ ws, w.target ≠ some id) : rowById (writeAll drawn ws s) id = rowById s id := by
  induction ws generalizing drawn s with
  | nil => rfl
  | cons w ws ih =>
    rw [writeAll, ih fun w' hw' => h w' (List.mem_cons_of_mem _ hw'), rowById_write (h w List.mem_cons_self)]

theorem prepTasks_writeAll {task : PrepTask} (h : task ∈ (writeAll drawn ws s).prepTasks) :
    task ∈ s.prepTasks ∨ ∃ w ∈ ws, w.target = some task.tripItemId := by
  induction ws generalizing drawn s with
  | nil => exact .inl h
  | cons w ws ih =>
    obtain hmem | ⟨w', hw', hrow⟩ := ih h
    · exact (prepTasks_write hmem).imp_right fun hrow => ⟨w, List.mem_cons_self, hrow⟩
    · exact .inr ⟨w', List.mem_cons_of_mem _ hw', hrow⟩

/-- The writes to the rows are about those of the plan. -/
theorem mem_rowWrites {tripId : String} (h : w ∈ rowWrites tripId plan) :
    (∃ id ∈ plannedRows plan, w.target = some id) ∨ ∃ id, w = .deleteTask id := by
  simp only [rowWrites, List.mem_append, List.mem_flatMap, List.mem_map, addWrites, updateWrites, List.mem_cons] at h
  obtain (⟨a, ha, rfl | ⟨_, -, rfl⟩⟩ | ⟨u, hu, (hw | ⟨_, -, rfl⟩) | ⟨task, -, rfl⟩⟩) | ⟨r, hr, rfl⟩ := h
  · exact .inl ⟨_, .inl ⟨a, ha, rfl⟩, rfl⟩
  · exact .inl ⟨_, .inl ⟨a, ha, rfl⟩, rfl⟩
  · split at hw
    · cases hw
    · obtain rfl := List.mem_singleton.1 hw
      exact .inl ⟨_, .inr (.inl ⟨u, hu, rfl⟩), rfl⟩
  · exact .inl ⟨_, .inr (.inl ⟨u, hu, rfl⟩), rfl⟩
  · exact .inr ⟨task.id, rfl⟩
  · exact .inl ⟨_, .inr (.inr ⟨r, hr, rfl⟩), rfl⟩

theorem target_of_mem_planWrites {tripId : String} (hw : w ∈ planWrites tripId plan) (htarget : w.target = some id) :
    id ∈ plannedRows plan := by
  obtain hw | hw := List.mem_append.1 hw
  · obtain hw | hw := List.mem_append.1 hw
    · obtain ⟨id', hid, htarget'⟩ | ⟨_, rfl⟩ := mem_rowWrites hw
      · rwa [← Option.some.inj (htarget'.symm.trans htarget)]
      · cases htarget
    · obtain ⟨_, -, rfl⟩ := List.mem_map.1 hw
      cases htarget
  · obtain ⟨_, -, rfl⟩ := List.mem_map.1 hw
    cases htarget

/-- The ledger half of a plan, written out. -/
def answeredLedger (plan : RefreshPlan) (ledger : List GeneratedPosition) : List GeneratedPosition :=
  plan.ledgerDelete.foldl (Keyed.drop (·.id)) (plan.ledgerUpsert.foldl (Keyed.put (·.id)) ledger)

theorem foldl_ledgerWrite {ledger : List GeneratedPosition} (h : ∀ w ∈ ws, ledgerWrite ledger w = ledger) :
    ws.foldl ledgerWrite ledger = ledger := by
  induction ws with
  | nil => rfl
  | cons w ws ih =>
    rw [List.foldl_cons, h w List.mem_cons_self]
    exact ih fun w' hw' => h w' (List.mem_cons_of_mem _ hw')

theorem ledger_planWrites {tripId : String} {ledger : List GeneratedPosition} :
    (planWrites tripId plan).foldl ledgerWrite ledger = answeredLedger plan ledger := by
  have hrows : (rowWrites tripId plan).foldl ledgerWrite ledger = ledger := by
    refine foldl_ledgerWrite fun w hw => ?_
    obtain ⟨id, -, htarget⟩ | ⟨_, rfl⟩ := mem_rowWrites hw
    · cases w <;> first | rfl | cases htarget
    · rfl
  rw [planWrites, List.foldl_append, List.foldl_append, hrows, List.foldl_map, List.foldl_map]
  rfl

end

end Refresh

end JitPack
