import JitPack.Lib.Calendar

/-!
# When a task is due

The rule is written twice: in the SQL of `DueTasks` (`internal/store/taskdue.go`), which the reminders are sent
by, and in `tripTasks` (`domain/tripTasks.ts`), which every list of tasks is drawn from. `due_agrees_iff` says
exactly for which rows the two read the same day and the same time.

A date column holds a day or nothing, which is what the date fields write. A day that is computed is held by its
number (`Day.number_injective`).
-/

namespace JitPack

/-! ## Rows -/

inductive TripStatus where
  | planning
  | active
  | repack
  | archived
  deriving DecidableEq

inductive IdeaState where
  | idea
  | shortlisted
  | done
  | dropped
  deriving DecidableEq

/-- `task_state`: `open` or `resolved`. -/
inductive TaskState where
  | opened
  | resolved
  deriving DecidableEq

inductive TaskPhase where
  | before
  | during
  deriving DecidableEq

/-- A row of `trips`. -/
structure TripRow where
  id : String
  status : TripStatus
  startDate : Option Day

/-- A row of `trip_items`. -/
structure TripItemRow where
  id : String
  tripId : String
  name : String
  sourceItemId : Option String

/-- A row of `ideas`. -/
structure IdeaRow where
  id : String
  tripId : String
  state : IdeaState
  plannedOn : Option Day

/-- A row of `day_entries`. -/
structure DayEntryRow where
  id : String
  tripId : String
  onDate : Day

/-- A row of `comments`, without what only a note has. -/
structure CommentRow where
  id : String
  tripId : String
  tripItemId : Option String
  authorId : String
  body : String
  isTask : Bool
  taskState : Option TaskState
  assigneeUserId : Option String
  taskTagId : Option String
  phase : Option TaskPhase
  dueDate : Option Day
  dueTime : Option String
  resolvedAt : Option String
  resolvedByUserId : Option String
  position : Option Int
  ideaId : Option String
  /-- What the column holds is free. -/
  anchorKind : Option String
  anchorLeadDays : Option Int
  dayEntryId : Option String
  destinationTaskId : Option String
  createdAt : String

/-- The tables that the rule reads. -/
structure TaskTables where
  trips : List TripRow
  tripItems : List TripItemRow
  comments : List CommentRow
  ideas : List IdeaRow
  dayEntries : List DayEntryRow
  trip_unique : (trips.map (·.id)).Nodup
  comment_unique : (comments.map (·.id)).Nodup
  idea_unique : (ideas.map (·.id)).Nodup
  dayEntry_unique : (dayEntries.map (·.id)).Nodup
  /-- `validIdeaResult`. -/
  idea_trip : ∀ c ∈ comments, ∀ idea ∈ ideas, c.ideaId = some idea.id → idea.tripId = c.tripId
  /-- `validEntryStep`. -/
  dayEntry_trip : ∀ c ∈ comments, ∀ entry ∈ dayEntries, c.dayEntryId = some entry.id → entry.tripId = c.tripId

def anchorKindIdea : String := "idea"
def anchorKindEntry : String := "entry"
def anchorKindTripStart : String := "trip_start"

/-! ## The reminders -/

/-- SQLite's `date(day, '-' || lead || ' days')`, where it is a day. A lead below zero makes a modifier with two
signs, which is none. -/
def date (day : Day) (lead : Int) : Option Int :=
  if 0 ≤ lead ∧ lead ≤ day.number then some (day.number - lead) else none

/-- `DueTask`. -/
structure DueTask where
  id : String
  tripId : String
  body : String
  dueDate : Int
  dueTime : String
  assignee : String

/-- The order in which `DueTasks` returns them. -/
def DueTask.le (a b : DueTask) : Bool :=
  a.tripId < b.tripId ∨ a.tripId = b.tripId ∧
    (a.dueDate < b.dueDate ∨ a.dueDate = b.dueDate ∧ a.id ≤ b.id)

namespace TaskTables

variable (db : TaskTables)

/-- The row that the comment's `idea_id` joins. -/
def ideaOf (c : CommentRow) : Option IdeaRow := c.ideaId.bind fun id => db.ideas.find? (·.id = id)

/-- The row that the comment's `day_entry_id` joins. -/
def dayEntryOf (c : CommentRow) : Option DayEntryRow := c.dayEntryId.bind fun id => db.dayEntries.find? (·.id = id)

/-- The column `due` of the query in `DueTasks`. -/
def due (t : TripRow) (c : CommentRow) : Option Int :=
  let stored := c.dueDate.map fun day => (day.number : Int)
  match c.anchorLeadDays with
  | none => stored
  | some lead =>
    if c.anchorKind = some anchorKindTripStart then t.startDate.bind (date · lead)
    else if c.anchorKind = some anchorKindIdea ∧ c.ideaId.isSome then
      if (db.ideaOf c).any (·.state = .dropped) then none
      else (db.ideaOf c).bind fun idea => idea.plannedOn.bind (date · lead)
    else if c.anchorKind = some anchorKindEntry ∧ c.dayEntryId.isSome then
      (db.dayEntryOf c).bind fun entry => date entry.onDate lead
    else stored

end TaskTables

/-- The anchor is an idea or an entry, and the task names one of the two. -/
def CommentRow.NamesStep (c : CommentRow) : Prop :=
  (c.anchorKind = some anchorKindIdea ∨ c.anchorKind = some anchorKindEntry) ∧ (c.ideaId.isSome ∨ c.dayEntryId.isSome)

instance (c : CommentRow) : Decidable c.NamesStep := inferInstanceAs (Decidable (_ ∧ _))

/-- The column `due_time` of the query in `DueTasks`. -/
def CommentRow.readTime (c : CommentRow) : String := if c.NamesStep then "" else c.dueTime.getD ""

/-- `DueTasks`. -/
def TaskTables.dueTasks (db : TaskTables) (days : List Day) : List DueTask :=
  (db.comments.filterMap fun c => do
    let t ← db.trips.find? (·.id = c.tripId)
    let due ← db.due t c
    if c.isTask ∧ c.taskState = some .opened ∧ t.status ≠ .archived ∧ due ∈ days.map fun day => (day.number : Int)
    then some ⟨c.id, c.tripId, c.body, due, c.readTime, c.assigneeUserId.getD ""⟩
    else none).mergeSort DueTask.le

/-! ## The client's list -/

/-- `utcDay`. `Date.UTC` reads a year below 100 as one of the twentieth century. -/
def utcDay (day : Day) : Int := daysTo (if day.year < 100 then 1900 + day.year else day.year) day.month day.day

/-- `addDays`. -/
def addDays (day : Day) (n : Int) : Int := utcDay day + n

/-- `leadBefore`. -/
def leadBefore (anchorDay : Option Day) (lead : Int) : Option Int := anchorDay.map (addDays · (-lead))

/-- `TaskFacts`. -/
structure TaskFacts where
  taskTagId : Option String
  phase : Option TaskPhase
  dueDate : Option Day
  dueTime : Option String
  createdAt : Option String
  assigneeUserId : Option String
  resolvedAt : Option String
  resolvedByUserId : Option String
  position : Option Int

/-- `PrepTask`. -/
structure PrepTask extends TaskFacts where
  id : String
  tripId : String
  tripItemId : String
  authorId : String
  body : String
  taskState : TaskState

/-- `OwnTask`. -/
structure OwnTask extends TaskFacts where
  id : String
  tripId : String
  authorId : String
  body : String
  taskState : TaskState
  ideaId : Option String
  dayEntryId : Option String
  anchorKind : Option String
  anchorLeadDays : Option Int
  destinationTaskId : Option String

/-- `taskFacts`. -/
def CommentRow.taskFacts (c : CommentRow) : TaskFacts :=
  ⟨c.taskTagId, c.phase, c.dueDate, c.dueTime, some c.createdAt, c.assigneeUserId, c.resolvedAt, c.resolvedByUserId,
    c.position⟩

/-- `rowToPrepTask`. -/
def CommentRow.toPrepTask (c : CommentRow) (item : String) : PrepTask :=
  { c.taskFacts with
    id := c.id, tripId := c.tripId, tripItemId := item, authorId := c.authorId, body := c.body
    taskState := c.taskState.getD .opened }

/-- `rowToOwnTask`. A row without a kind has no lead: the columns that `legacyAnchorOfRow` reads are no more. -/
def CommentRow.toOwnTask (c : CommentRow) : OwnTask :=
  { c.taskFacts with
    id := c.id, tripId := c.tripId, authorId := c.authorId, body := c.body
    taskState := c.taskState.getD .opened, ideaId := c.ideaId, dayEntryId := c.dayEntryId
    anchorKind := c.anchorKind, anchorLeadDays := if c.anchorKind.isNone then none else c.anchorLeadDays
    destinationTaskId := c.destinationTaskId }

/-- `TripTaskItem`. -/
structure TripTaskItem where
  id : String
  name : String
  icon : Option String

/-- `TripTask`. -/
structure TripTask where
  id : String
  body : String
  taskState : TaskState
  item : Option TripTaskItem
  assigneeUserId : Option String
  phase : TaskPhase
  authorId : String
  createdAt : Option String
  resolvedAt : Option String
  resolvedByUserId : Option String
  taskTagId : Option String
  dueDate : Option Int
  dueTime : Option String
  position : Option Int
  ideaId : Option String
  dayEntryId : Option String
  anchorKind : Option String
  anchorLeadDays : Option Int
  destinationTaskId : Option String

/-- `IdeaDay`. -/
structure IdeaDay where
  plannedOn : Option Day
  dropped : Bool

/-- `EntryDay`. -/
structure EntryDay where
  onDate : Day

/-- `preparationDue`. -/
def preparationDue (lead : Int) (idea : Option IdeaDay) : Option Int :=
  match idea with
  | none => none
  | some idea => if idea.dropped then none else leadBefore idea.plannedOn lead

/-- `entryStepDue`. -/
def entryStepDue (lead : Int) (entry : Option EntryDay) : Option Int :=
  entry.bind fun entry => leadBefore (some entry.onDate) lead

/-- `seriesTaskDue`. -/
def seriesTaskDue (lead : Int) (tripStartDate : Option Day) : Option Int := leadBefore tripStartDate lead

/-- A task as `tripTasks` projects it before it looks at an anchor. -/
def OwnTask.project (task : OwnTask) : TripTask where
  id := task.id
  body := task.body
  taskState := task.taskState
  item := none
  assigneeUserId := task.assigneeUserId
  phase := task.phase.getD .before
  authorId := task.authorId
  createdAt := task.createdAt
  resolvedAt := task.resolvedAt
  resolvedByUserId := task.resolvedByUserId
  taskTagId := task.taskTagId
  dueDate := task.dueDate.map fun day => (day.number : Int)
  dueTime := task.dueTime
  position := task.position
  ideaId := task.ideaId.filter (· ≠ "")
  dayEntryId := task.dayEntryId.filter (· ≠ "")
  anchorKind := none
  anchorLeadDays := none
  destinationTaskId := task.destinationTaskId.filter (· ≠ "")

/-- The task with a day that is read off its anchor. -/
def OwnTask.projectDue (task : OwnTask) (due : Option Int) : TripTask :=
  { task.project with
    dueDate := due, dueTime := none, anchorKind := task.anchorKind, anchorLeadDays := task.anchorLeadDays }

/-- `hasAnchor`, with the lead. -/
def OwnTask.hasAnchor (task : OwnTask) (kind : String) : Option Int :=
  if task.anchorKind = some kind then task.anchorLeadDays else none

/-- `isPreparationStep`, with the lead and the idea. -/
def OwnTask.isPreparationStep (task : OwnTask) : Option (Int × String) := do
  some (← task.hasAnchor anchorKindIdea, ← task.ideaId)

/-- `isEntryStep`, with the lead and the entry. -/
def OwnTask.isEntryStep (task : OwnTask) : Option (Int × String) := do
  some (← task.hasAnchor anchorKindEntry, ← task.dayEntryId)

/-- `isSeriesTask`, with the lead. -/
def OwnTask.isSeriesTask (task : OwnTask) : Option Int := task.hasAnchor anchorKindTripStart

/-- A turn of the first loop of `tripTasks`. A step that waits is listed nowhere. -/
def OwnTask.listed (task : OwnTask) (ideaOf : String → Option IdeaDay) (tripStartDate : Option Day)
    (entryOf : String → Option EntryDay) : Option TripTask :=
  match task.isPreparationStep, task.isEntryStep, task.isSeriesTask with
  | some (lead, idea), _, _ => (preparationDue lead (ideaOf idea)).map fun due => task.projectDue (some due)
  | none, some (lead, entry), _ => (entryStepDue lead (entryOf entry)).map fun due => task.projectDue (some due)
  | none, none, some lead => some (task.projectDue (seriesTaskDue lead tripStartDate))
  | none, none, none => some task.project

/-- A turn of the second loop of `tripTasks`. -/
def PrepTask.listed (task : PrepTask) (rows : List TripTaskItem) : Option TripTask :=
  (rows.find? (·.id = task.tripItemId)).map fun row =>
    { id := task.id
      body := task.body
      taskState := task.taskState
      item := some row
      assigneeUserId := task.assigneeUserId
      phase := task.phase.getD .before
      authorId := task.authorId
      createdAt := task.createdAt
      resolvedAt := task.resolvedAt
      resolvedByUserId := task.resolvedByUserId
      taskTagId := task.taskTagId
      dueDate := task.dueDate.map fun day => (day.number : Int)
      dueTime := task.dueTime
      position := task.position
      ideaId := none
      dayEntryId := none
      anchorKind := none
      anchorLeadDays := none
      destinationTaskId := none }

/-- `compareTasks`, whether `a` may stand before `b`. -/
def TripTask.le (localeCompare : String → String → Ordering) (a b : TripTask) : Bool :=
  let byState := compare (decide (a.taskState = .resolved)) (decide (b.taskState = .resolved))
  let byRow := match a.item, b.item with
    | some row, some row' => (localeCompare row.name row'.name).then (localeCompare row.id row'.id)
    | _, _ => compare a.item.isSome b.item.isSome
  (byState.then (byRow.then ((localeCompare a.body b.body).then (localeCompare a.id b.id)))) ≠ .gt

/-- `tripTasks`. -/
def tripTasks (localeCompare : String → String → Ordering) (ownTasks : List OwnTask) (prepTasks : List PrepTask)
    (rows : List TripTaskItem) (ideaOf : String → Option IdeaDay) (tripStartDate : Option Day)
    (entryOf : String → Option EntryDay) : List TripTask :=
  (ownTasks.filterMap (·.listed ideaOf tripStartDate entryOf) ++ prepTasks.filterMap (·.listed rows)).mergeSort
    (TripTask.le localeCompare)

section
variable (db : TaskTables) (trip : TripRow)

/-- `getOwnTasks`: the tasks of a trip that are on no row of it. -/
def TaskTables.ownTasks : List OwnTask :=
  db.comments.filterMap fun c =>
    if c.tripId = trip.id ∧ c.isTask ∧ c.tripItemId = none then some c.toOwnTask else none

/-- `getPrepTasks`. -/
def TaskTables.prepTasks : List PrepTask :=
  db.comments.filterMap fun c =>
    if c.tripId = trip.id ∧ c.isTask then c.tripItemId.map c.toPrepTask else none

/-- `rowsOf`, with the marks of the master items. -/
def TaskTables.rowsOf (iconOf : String → Option String) : List TripTaskItem :=
  (db.tripItems.filter (·.tripId = trip.id)).map fun item => ⟨item.id, item.name, item.sourceItemId.bind iconOf⟩

/-- `ideaLookup`, as `tasksOf` asks it. -/
def TaskTables.ideaLookup (id : String) : Option IdeaDay :=
  ((db.ideas.filter (·.tripId = trip.id)).find? (·.id = id)).map fun idea => ⟨idea.plannedOn, idea.state = .dropped⟩

/-- `entryLookup`, as `tasksOf` asks it. -/
def TaskTables.entryLookup (id : String) : Option EntryDay :=
  ((db.dayEntries.filter (·.tripId = trip.id)).find? (·.id = id)).map fun entry => ⟨entry.onDate⟩

/-- `tasksOf`, on a device that holds the trip completely. -/
def TaskTables.tasksOf (localeCompare : String → String → Ordering) (iconOf : String → Option String) :
    List TripTask :=
  tripTasks localeCompare (db.ownTasks trip) (db.prepTasks trip) (db.rowsOf trip iconOf) (db.ideaLookup trip)
    trip.startDate (db.entryLookup trip)

end

/-! ## Where they agree -/

/-- `DueTasks`, asked about every day, reads the task as due. -/
def TaskTables.ServerDue (db : TaskTables) (c : CommentRow) (due : Int) (time : String) : Prop :=
  ∃ days, ∃ task ∈ db.dueTasks days, task.id = c.id ∧ task.dueDate = due ∧ task.dueTime = time

/-- The client's list shows the task as due. -/
def TaskTables.ClientDue (db : TaskTables) (trip : TripRow) (localeCompare : String → String → Ordering)
    (iconOf : String → Option String) (c : CommentRow) (due : Int) (time : String) : Prop :=
  ∃ task ∈ db.tasksOf trip localeCompare iconOf, task.id = c.id ∧ task.dueDate = some due ∧
    task.dueTime.getD "" = time

/-- The lead that a task is due before an anchor, and the day of the anchor. -/
def TaskTables.anchor (db : TaskTables) (trip : TripRow) (c : CommentRow) : Option (Int × Option Day) :=
  match c.anchorLeadDays with
  | none => none
  | some lead =>
    if c.anchorKind = some anchorKindTripStart then some (lead, trip.startDate)
    else if c.anchorKind = some anchorKindIdea ∧ c.ideaId.isSome then
      some (lead, (db.ideaOf c).bind fun idea => if idea.state = .dropped then none else idea.plannedOn)
    else if c.anchorKind = some anchorKindEntry ∧ c.dayEntryId.isSome then
      some (lead, (db.dayEntryOf c).map (·.onDate))
    else none

/-- Both ways of reckoning give the day, a lead before the anchor's. -/
def Regular (day : Day) (lead : Int) : Prop := 0 ≤ lead ∧ lead ≤ day.number ∧ 100 ≤ day.year

/-- A task that has a day, but names a step, has no time. -/
def CommentRow.Untimed (c : CommentRow) : Prop := c.dueDate ≠ none → c.NamesStep → c.dueTime.getD "" = ""

/-- Where the two readings agree. -/
def TaskTables.DueAgrees (db : TaskTables) (trip : TripRow) (c : CommentRow) : Prop :=
  match c.tripItemId, db.anchor trip c with
  | none, some (lead, day) => ∀ p, day = some p → Regular p lead ∧
      (c.anchorKind = some anchorKindTripStart → c.dueTime.getD "" = "")
  | none, none => c.Untimed
  | some item, some (lead, day) =>
    if ∃ row ∈ db.tripItems, row.id = item ∧ row.tripId = trip.id then
      day.bind (date · lead) = c.dueDate.map (fun day => (day.number : Int)) ∧ c.Untimed
    else day.bind (date · lead) = none
  | some item, none =>
    if ∃ row ∈ db.tripItems, row.id = item ∧ row.tripId = trip.id then c.Untimed else c.dueDate = none

section
variable {db : TaskTables} {trip : TripRow} {c : CommentRow} {due : Int} {time : String}

/-! ### Days -/

theorem utcDay_eq_iff (day : Day) : utcDay day = day.number ↔ 100 ≤ day.year := by
  unfold utcDay
  split
  · next hlow =>
    have hlt := daysTo_lt_century day.year day.month day.day day.month_mem.2 (by omega : 2 ≤ 1900)
    constructor
    · intro h
      unfold Day.number at h
      omega
    · intro h
      omega
  · next hhigh => exact ⟨fun _ => by omega, fun _ => rfl⟩

/-- The two sides reckon the same day from a regular one, and from no other. -/
theorem date_eq_addDays_iff {day : Day} {lead : Int} : date day lead = some (addDays day (-lead)) ↔ Regular day lead := by
  have hutc := utcDay_eq_iff day
  unfold date addDays Regular
  constructor
  · intro h
    split at h
    · next hlead =>
      refine ⟨hlead.1, hlead.2, hutc.1 ?_⟩
      have := Option.some.inj h
      omega
    · cases h
  · rintro ⟨hpos, hle, hyear⟩
    rw [if_pos ⟨hpos, hle⟩, hutc.2 hyear, Int.sub_eq_add_neg]

/-- What the server reads as a due day is a day that it can be asked about. -/
theorem date_day {day : Day} {lead : Int} (h : date day lead = some due) : ∃ d : Day, (d.number : Int) = due := by
  unfold date at h
  split at h
  · next hlead =>
    obtain ⟨d, hd⟩ := day.exists_of_le (by omega : (day.number - lead).toNat ≤ day.number)
    refine ⟨d, ?_⟩
    have := Option.some.inj h
    omega
  · cases h

/-! ### The server's reading -/

theorem find_unique {α : Type} {l : List α} {f : α → String} {x : α} (h : (l.map f).Nodup) (hx : x ∈ l) :
    l.find? (f · = f x) = some x := by
  cases hfind : l.find? (f · = f x) with
  | none => exact absurd (List.find?_eq_none.1 hfind x hx) (by simp)
  | some y =>
    have hy : f y = f x := by simpa using List.find?_some hfind
    rw [List.inj_on_of_nodup_map h (List.mem_of_find?_eq_some hfind) hx hy]

theorem due_eq : db.due trip c = match db.anchor trip c with
    | some (lead, day) => day.bind (date · lead)
    | none => c.dueDate.map fun day => (day.number : Int) := by
  unfold TaskTables.due TaskTables.anchor
  cases c.anchorLeadDays with
  | none => rfl
  | some lead =>
    dsimp only
    split
    · rfl
    split
    · cases db.ideaOf c with
      | none => rfl
      | some idea =>
        simp only [Option.any_some, Option.bind_some, decide_eq_true_eq]
        split <;> rfl
    split
    · cases db.dayEntryOf c <;> rfl
    · rfl

theorem due_day (h : db.due trip c = some due) : ∃ d : Day, (d.number : Int) = due := by
  rw [due_eq] at h
  split at h
  · obtain ⟨day, -, hday⟩ := Option.bind_eq_some_iff.1 h
    exact date_day hday
  · obtain ⟨day, -, hday⟩ := Option.map_eq_some_iff.1 h
    exact ⟨day, hday⟩

theorem serverDue_iff (ht : trip ∈ db.trips) (hc : c ∈ db.comments) (hid : c.tripId = trip.id) (htask : c.isTask = true)
    (hopen : c.taskState = some .opened) (hactive : trip.status ≠ .archived) :
    db.ServerDue c due time ↔ db.due trip c = some due ∧ c.readTime = time := by
  have htrip : db.trips.find? (·.id = c.tripId) = some trip := hid ▸ find_unique db.trip_unique ht
  unfold TaskTables.ServerDue TaskTables.dueTasks
  simp only [List.mem_mergeSort, List.mem_filterMap, Option.bind_eq_bind, Option.bind_eq_some_iff]
  constructor
  · rintro ⟨days, task, ⟨c', hc', trip', htrip', due', hdue', htask'⟩, hid', rfl, rfl⟩
    split at htask'
    · cases htask'
      obtain rfl := List.inj_on_of_nodup_map db.comment_unique hc' hc hid'
      rw [htrip] at htrip'
      cases htrip'
      exact ⟨hdue', rfl⟩
    · cases htask'
  · rintro ⟨hdue, rfl⟩
    obtain ⟨day, hday⟩ := due_day hdue
    refine ⟨[day], ⟨c.id, c.tripId, c.body, due, c.readTime, c.assigneeUserId.getD ""⟩, ⟨c, hc, trip, htrip, due, hdue, ?_⟩, rfl, rfl, rfl⟩
    exact if_pos ⟨htask, hopen, hactive, by simp [hday]⟩

/-! ### The client's reading -/

variable {localeCompare : String → String → Ordering} {iconOf : String → Option String}

theorem OwnTask.listed_id {task : OwnTask} {ideas : String → Option IdeaDay} {start : Option Day}
    {entries : String → Option EntryDay} {listed : TripTask} (h : task.listed ideas start entries = some listed) :
    listed.id = task.id := by
  unfold OwnTask.listed at h
  split at h
  · obtain ⟨due, -, rfl⟩ := Option.map_eq_some_iff.1 h
    rfl
  · obtain ⟨due, -, rfl⟩ := Option.map_eq_some_iff.1 h
    rfl
  · cases h
    rfl
  · cases h
    rfl

theorem PrepTask.listed_id {task : PrepTask} {rows : List TripTaskItem} {listed : TripTask}
    (h : task.listed rows = some listed) : listed.id = task.id := by
  obtain ⟨row, -, rfl⟩ := Option.map_eq_some_iff.1 h
  rfl

theorem clientDue_own (hc : c ∈ db.comments) (hid : c.tripId = trip.id) (htask : c.isTask = true)
    (hown : c.tripItemId = none) : db.ClientDue trip localeCompare iconOf c due time ↔
      ∃ task, c.toOwnTask.listed (db.ideaLookup trip) trip.startDate (db.entryLookup trip) = some task ∧
        task.dueDate = some due ∧ task.dueTime.getD "" = time := by
  unfold TaskTables.ClientDue TaskTables.tasksOf tripTasks
  simp only [List.mem_mergeSort, List.mem_append, List.mem_filterMap, TaskTables.ownTasks, TaskTables.prepTasks]
  constructor
  · rintro ⟨task, ⟨own, ⟨c', hc', hown'⟩, hlisted⟩ | ⟨prep, ⟨c', hc', hprep⟩, hlisted⟩, htid, hdue⟩
    · split at hown'
      · cases hown'
        obtain rfl := List.inj_on_of_nodup_map db.comment_unique hc' hc ((OwnTask.listed_id hlisted).symm.trans htid)
        exact ⟨task, hlisted, hdue⟩
      · cases hown'
    · split at hprep
      · obtain ⟨item, hitem, rfl⟩ := Option.map_eq_some_iff.1 hprep
        obtain rfl := List.inj_on_of_nodup_map db.comment_unique hc' hc ((PrepTask.listed_id hlisted).symm.trans htid)
        rw [hown] at hitem
        cases hitem
      · cases hprep
  · rintro ⟨task, hlisted, hdue⟩
    exact ⟨task, .inl ⟨c.toOwnTask, ⟨c, hc, if_pos ⟨hid, htask, hown⟩⟩, hlisted⟩, OwnTask.listed_id hlisted, hdue⟩

theorem clientDue_prep {item : String} (hc : c ∈ db.comments) (hid : c.tripId = trip.id) (htask : c.isTask = true)
    (hitem : c.tripItemId = some item) : db.ClientDue trip localeCompare iconOf c due time ↔
      (∃ row ∈ db.tripItems, row.id = item ∧ row.tripId = trip.id) ∧
        c.dueDate.map (fun day => (day.number : Int)) = some due ∧ c.dueTime.getD "" = time := by
  unfold TaskTables.ClientDue TaskTables.tasksOf tripTasks
  simp only [List.mem_mergeSort, List.mem_append, List.mem_filterMap, TaskTables.ownTasks, TaskTables.prepTasks]
  have hrow : ((db.rowsOf trip iconOf).find? (·.id = item)).isSome ↔
      ∃ row ∈ db.tripItems, row.id = item ∧ row.tripId = trip.id := by
    simp only [TaskTables.rowsOf, List.find?_isSome, List.mem_map, List.mem_filter, decide_eq_true_eq]
    constructor
    · rintro ⟨_, ⟨row, ⟨hrow, htrip⟩, rfl⟩, hid⟩
      exact ⟨row, hrow, hid, htrip⟩
    · rintro ⟨row, hrow, hid, htrip⟩
      exact ⟨_, ⟨row, ⟨hrow, htrip⟩, rfl⟩, hid⟩
  rw [← hrow]
  constructor
  · rintro ⟨task, ⟨own, ⟨c', hc', hown'⟩, hlisted⟩ | ⟨prep, ⟨c', hc', hprep⟩, hlisted⟩, htid, hdue⟩
    · split at hown'
      · next hown =>
        cases hown'
        obtain rfl := List.inj_on_of_nodup_map db.comment_unique hc' hc ((OwnTask.listed_id hlisted).symm.trans htid)
        rw [hitem] at hown
        cases hown.2.2
      · cases hown'
    · split at hprep
      · obtain ⟨item', hitem', rfl⟩ := Option.map_eq_some_iff.1 hprep
        obtain rfl := List.inj_on_of_nodup_map db.comment_unique hc' hc ((PrepTask.listed_id hlisted).symm.trans htid)
        rw [hitem] at hitem'
        cases hitem'
        obtain ⟨row, hfound, rfl⟩ := Option.map_eq_some_iff.1 hlisted
        exact ⟨Option.isSome_iff_exists.2 ⟨row, hfound⟩, hdue⟩
      · cases hprep
  · rintro ⟨hfound, hdue⟩
    obtain ⟨row, hfound⟩ := Option.isSome_iff_exists.1 hfound
    refine ⟨_, .inr ⟨c.toPrepTask item, ⟨c, hc, ?_⟩, Option.map_eq_some_iff.2 ⟨row, hfound, rfl⟩⟩, rfl, hdue⟩
    rw [if_pos ⟨hid, htask⟩, hitem]
    rfl

theorem ideaLookup_eq (hc : c ∈ db.comments) (hid : c.tripId = trip.id) {id : String} (hidea : c.ideaId = some id) :
    db.ideaLookup trip id = (db.ideaOf c).map fun idea => ⟨idea.plannedOn, idea.state = .dropped⟩ := by
  unfold TaskTables.ideaLookup TaskTables.ideaOf
  rw [hidea, Option.bind_some, List.find?_filter]
  congr 1
  refine List.find?_congr fun idea hmem => ?_
  by_cases hsame : idea.id = id
  · have htrip := db.idea_trip c hc idea hmem (hsame ▸ hidea)
    simp [hsame, htrip, hid]
  · simp [hsame]

theorem entryLookup_eq (hc : c ∈ db.comments) (hid : c.tripId = trip.id) {id : String} (hentry : c.dayEntryId = some id) :
    db.entryLookup trip id = (db.dayEntryOf c).map fun entry => ⟨entry.onDate⟩ := by
  unfold TaskTables.entryLookup TaskTables.dayEntryOf
  rw [hentry, Option.bind_some, List.find?_filter]
  congr 1
  refine List.find?_congr fun entry hmem => ?_
  by_cases hsame : entry.id = id
  · have htrip := db.dayEntry_trip c hc entry hmem (hsame ▸ hentry)
    simp [hsame, htrip, hid]
  · simp [hsame]

theorem hasAnchor_eq (kind : String) :
    c.toOwnTask.hasAnchor kind = if c.anchorKind = some kind then c.anchorLeadDays else none := by
  unfold OwnTask.hasAnchor CommentRow.toOwnTask
  dsimp only
  split
  · next h => simp [h]
  · rfl

theorem anchorKind_ne : anchorKindIdea ≠ anchorKindTripStart ∧ anchorKindEntry ≠ anchorKindTripStart ∧
    anchorKindIdea ≠ anchorKindEntry ∧ anchorKindEntry ≠ anchorKindIdea ∧ anchorKindTripStart ≠ anchorKindIdea ∧
    anchorKindTripStart ≠ anchorKindEntry := by
  decide

theorem leadBefore_ideaDay {lead : Int} (idea : Option IdeaRow) :
    preparationDue lead (idea.map fun idea => ⟨idea.plannedOn, idea.state = .dropped⟩) =
      leadBefore (idea.bind fun idea => if idea.state = .dropped then none else idea.plannedOn) lead := by
  cases idea with
  | none => rfl
  | some idea =>
    simp only [preparationDue, Option.map_some, Option.bind_some, decide_eq_true_eq]
    split <;> rfl

theorem leadBefore_entryDay {lead : Int} (entry : Option DayEntryRow) :
    entryStepDue lead (entry.map fun entry => ⟨entry.onDate⟩) = leadBefore (entry.map (·.onDate)) lead := by
  cases entry <;> rfl

/-- How a task of the trip's own is listed: due its lead before the anchor, or as it is stored. -/
theorem listed_eq (hc : c ∈ db.comments) (hid : c.tripId = trip.id) :
    c.toOwnTask.listed (db.ideaLookup trip) trip.startDate (db.entryLookup trip) =
    match db.anchor trip c with
    | none => some c.toOwnTask.project
    | some (lead, day) =>
      if c.anchorKind = some anchorKindTripStart then some (c.toOwnTask.projectDue (leadBefore day lead))
      else (leadBefore day lead).map fun due => c.toOwnTask.projectDue (some due) := by
  have hideaId : c.toOwnTask.ideaId = c.ideaId := rfl
  have hentryId : c.toOwnTask.dayEntryId = c.dayEntryId := rfl
  unfold OwnTask.listed OwnTask.isPreparationStep OwnTask.isEntryStep OwnTask.isSeriesTask TaskTables.anchor
  simp only [hasAnchor_eq, hideaId, hentryId]
  cases hlead : c.anchorLeadDays with
  | none => simp only [ite_self, Option.bind_eq_bind, Option.bind_none]
  | some lead =>
    by_cases hstart : c.anchorKind = some anchorKindTripStart
    · simp [hstart, anchorKind_ne, seriesTaskDue]
    by_cases hidea : c.anchorKind = some anchorKindIdea
    · cases hideaId : c.ideaId with
      | none => simp [hidea, anchorKind_ne]
      | some idea =>
        have hlookup := ideaLookup_eq hc hid hideaId
        simp [hidea, anchorKind_ne, hlookup, leadBefore_ideaDay]
    by_cases hentry : c.anchorKind = some anchorKindEntry
    · cases hentryId : c.dayEntryId with
      | none => simp [hentry, anchorKind_ne]
      | some entry =>
        have hlookup := entryLookup_eq hc hid hentryId
        simp [hentry, anchorKind_ne, hlookup, leadBefore_entryDay]
    · simp [hstart, hidea, hentry]

/-- A task of the trip's own is shown as due its lead before the anchor, without a time, or else as it is stored. -/
theorem listed_iff (hc : c ∈ db.comments) (hid : c.tripId = trip.id) :
    (∃ task, c.toOwnTask.listed (db.ideaLookup trip) trip.startDate (db.entryLookup trip) = some task ∧
      task.dueDate = some due ∧ task.dueTime.getD "" = time) ↔
    match db.anchor trip c with
    | some (lead, day) => leadBefore day lead = some due ∧ "" = time
    | none => c.dueDate.map (fun day => (day.number : Int)) = some due ∧ c.dueTime.getD "" = time := by
  rw [listed_eq hc hid]
  cases db.anchor trip c with
  | none =>
    constructor
    · rintro ⟨task, ⟨⟩, hdue⟩
      exact hdue
    · exact fun hdue => ⟨c.toOwnTask.project, rfl, hdue⟩
  | some anchor =>
    obtain ⟨lead, day⟩ := anchor
    dsimp only
    split
    · constructor
      · rintro ⟨task, ⟨⟩, hdue⟩
        exact hdue
      · exact fun hdue => ⟨c.toOwnTask.projectDue (leadBefore day lead), rfl, hdue⟩
    · constructor
      · rintro ⟨task, htask, hdue, htime⟩
        obtain ⟨due', hday, rfl⟩ := Option.map_eq_some_iff.1 htask
        exact ⟨hday.trans hdue, htime⟩
      · rintro ⟨hday, htime⟩
        exact ⟨c.toOwnTask.projectDue (some due), by rw [hday]; rfl, rfl, htime⟩

/-! ### Both readings -/

/-- Two readings are the same if they have the same day, and for a day the same time. -/
theorem readings_eq_iff {a b : Option Int} {s t : String} :
    (∀ due time, a = some due ∧ s = time ↔ b = some due ∧ t = time) ↔ a = b ∧ (b ≠ none → s = t) := by
  constructor
  · intro h
    refine ⟨Option.ext fun due => ⟨fun ha => ((h due s).1 ⟨ha, rfl⟩).1, fun hb => ((h due t).2 ⟨hb, rfl⟩).1⟩, fun hb => ?_⟩
    obtain ⟨due, hdue⟩ := Option.ne_none_iff_exists'.1 hb
    exact ((h due t).2 ⟨hdue, rfl⟩).2
  · rintro ⟨rfl, htime⟩ due time
    refine and_congr_right fun ha => ?_
    rw [htime (by rw [ha]; nofun)]

theorem unread_iff {a : Option Int} {s : String} : (∀ due time, ¬ (a = some due ∧ s = time)) ↔ a = none := by
  constructor
  · intro h
    by_contra ha
    obtain ⟨due, hdue⟩ := Option.ne_none_iff_exists'.1 ha
    exact h due s ⟨hdue, rfl⟩
  · rintro rfl due time ⟨h, -⟩
    cases h

theorem readTime_eq_iff : c.readTime = c.dueTime.getD "" ↔ (c.NamesStep → c.dueTime.getD "" = "") := by
  unfold CommentRow.readTime
  split
  · next h => exact ⟨fun heq _ => heq.symm, fun heq => (heq h).symm⟩
  · next h => exact ⟨fun _ hstep => absurd hstep h, fun _ => rfl⟩

theorem readTime_eq_nil_iff {lead : Int} {day : Option Day} (h : db.anchor trip c = some (lead, day)) :
    c.readTime = "" ↔ (c.anchorKind = some anchorKindTripStart → c.dueTime.getD "" = "") := by
  unfold TaskTables.anchor at h
  unfold CommentRow.readTime
  split at h
  · cases h
  split at h
  · next hstart =>
    have hplain : ¬ c.NamesStep := by
      rintro ⟨hidea | hentry, -⟩
      · exact anchorKind_ne.1 (Option.some.inj (hidea.symm.trans hstart))
      · exact anchorKind_ne.2.1 (Option.some.inj (hentry.symm.trans hstart))
    rw [if_neg hplain]
    exact ⟨fun heq _ => heq, fun heq => heq hstart⟩
  next hother =>
  split at h
  · next hidea =>
    rw [if_pos ⟨.inl hidea.1, .inl hidea.2⟩]
    exact ⟨fun _ hstart => absurd hstart hother, fun _ => rfl⟩
  split at h
  · next hentry =>
    rw [if_pos ⟨.inr hentry.1, .inr hentry.2⟩]
    exact ⟨fun _ hstart => absurd hstart hother, fun _ => rfl⟩
  · cases h

/-- The two ways of reckoning agree on the day before an anchor. -/
theorem reckoned_eq_iff {lead : Int} {day : Option Day} :
    day.bind (date · lead) = leadBefore day lead ↔ ∀ p, day = some p → Regular p lead := by
  cases day with
  | none => exact ⟨fun _ => nofun, fun _ => rfl⟩
  | some p =>
    rw [Option.bind_some, leadBefore, Option.map_some, date_eq_addDays_iff]
    exact ⟨fun h _ hp => Option.some.inj hp ▸ h, fun h => h p rfl⟩

/-- **The reminder and the task list agree on when an open task is due exactly where `DueAgrees` says.** -/
theorem due_agrees_iff (db : TaskTables) (localeCompare : String → String → Ordering) (iconOf : String → Option String)
    {trip : TripRow} {c : CommentRow} (ht : trip ∈ db.trips) (hc : c ∈ db.comments) (hid : c.tripId = trip.id)
    (htask : c.isTask = true) (hopen : c.taskState = some .opened) (hactive : trip.status ≠ .archived) :
    (∀ due time, db.ServerDue c due time ↔ db.ClientDue trip localeCompare iconOf c due time) ↔
      db.DueAgrees trip c := by
  simp only [serverDue_iff ht hc hid htask hopen hactive, due_eq]
  unfold TaskTables.DueAgrees
  cases hitem : c.tripItemId with
  | none =>
    simp only [clientDue_own hc hid htask hitem, listed_iff hc hid]
    cases hanchor : db.anchor trip c with
    | none =>
      dsimp only
      rw [readings_eq_iff, readTime_eq_iff]
      simp [CommentRow.Untimed]
    | some anchor =>
      obtain ⟨lead, day⟩ := anchor
      dsimp only
      rw [readings_eq_iff, reckoned_eq_iff, readTime_eq_nil_iff hanchor]
      cases day with
      | none => simp [leadBefore]
      | some p => simp [leadBefore]
  | some item =>
    simp only [clientDue_prep hc hid htask hitem]
    by_cases hrow : ∃ row ∈ db.tripItems, row.id = item ∧ row.tripId = trip.id
    · simp only [hrow, true_and, readings_eq_iff, readTime_eq_iff]
      cases db.anchor trip c with
      | none =>
        dsimp only
        rw [if_pos hrow]
        simp [CommentRow.Untimed]
      | some anchor =>
        dsimp only
        rw [if_pos hrow]
        simp [CommentRow.Untimed]
    · simp only [hrow, false_and, iff_false, unread_iff]
      cases db.anchor trip c with
      | none =>
        dsimp only
        rw [if_neg hrow, Option.map_eq_none_iff]
      | some anchor =>
        dsimp only
        rw [if_neg hrow]

end

theorem year_2026_le : 2026 ≤ 9999 := by decide

theorem july_mem : 1 ≤ 7 ∧ 7 ≤ 12 := by decide

/-- A trip that starts on 10 July 2026. -/
def julyTrip : TripRow := ⟨"trip", .active, some ⟨2026, 7, 10, year_2026_le, july_mem, by decide⟩⟩

/-- A task due a week before the trip starts, and the time stored on it. -/
def weekBefore (dueTime : Option String) : CommentRow where
  id := "task"
  tripId := "trip"
  tripItemId := none
  authorId := "user"
  body := "Pass"
  isTask := true
  taskState := some .opened
  assigneeUserId := none
  taskTagId := none
  phase := none
  dueDate := none
  dueTime := dueTime
  resolvedAt := none
  resolvedByUserId := none
  position := none
  ideaId := none
  anchorKind := some anchorKindTripStart
  anchorLeadDays := some 7
  dayEntryId := none
  destinationTaskId := some "series"
  createdAt := "2026-06-01T08:00:00.000Z"

def weekBeforeTables (dueTime : Option String) : TaskTables where
  trips := [julyTrip]
  tripItems := []
  comments := [weekBefore dueTime]
  ideas := []
  dayEntries := []
  trip_unique := List.nodup_singleton _
  comment_unique := List.nodup_singleton _
  idea_unique := List.nodup_nil
  dayEntry_unique := List.nodup_nil
  idea_trip _ _ _ h := absurd h List.not_mem_nil
  dayEntry_trip _ _ _ h := absurd h List.not_mem_nil

/-- Without a stored time both sides have the task due on 3 July. -/
theorem weekBefore_agrees :
    (weekBeforeTables none).ServerDue (weekBefore none) (daysTo 2026 7 3) "" ∧
      (weekBeforeTables none).ClientDue julyTrip compare (fun _ => none) (weekBefore none) (daysTo 2026 7 3) "" := by
  have hagrees := (due_agrees_iff (weekBeforeTables none) compare (fun _ => none) (List.mem_singleton_self julyTrip)
    (List.mem_singleton_self _) rfl rfl rfl (by decide)).2 (by
      rintro _ ⟨⟩
      exact ⟨⟨by decide, by decide, by decide⟩, fun _ => rfl⟩)
  have hserver : (weekBeforeTables none).ServerDue (weekBefore none) (daysTo 2026 7 3) "" :=
    (serverDue_iff (List.mem_singleton_self julyTrip) (List.mem_singleton_self _) rfl rfl rfl (by decide)).2
      ⟨rfl, rfl⟩
  exact ⟨hserver, (hagrees _ _).1 hserver⟩

/-- A time stored on the task is the reminder's, and not the list's. -/
theorem weekBefore_time_differs :
    (weekBeforeTables (some "09:00")).ServerDue (weekBefore (some "09:00")) (daysTo 2026 7 3) "09:00" ∧
      ¬ (weekBeforeTables (some "09:00")).ClientDue julyTrip compare (fun _ => none) (weekBefore (some "09:00"))
        (daysTo 2026 7 3) "09:00" := by
  have hmem := List.mem_singleton_self (weekBefore (some "09:00"))
  refine ⟨(serverDue_iff (List.mem_singleton_self julyTrip) hmem rfl rfl rfl (by decide)).2 ⟨rfl, rfl⟩, fun h => ?_⟩
  have hlisted := (listed_iff hmem rfl).1 ((clientDue_own hmem rfl rfl rfl).1 h)
  exact absurd hlisted.2 (by decide)

end JitPack
