import JitPack.Client.TaskDue
import JitPack.Client.Shopping

/-!
# The task board

A trip's tasks are read as a board: a block with what is due now, and for each phase what is open and what is resolved
(`taskBoard`). Every task stands in one of these lists (`taskBoard_perm`), and an open list is read in groups, one for
each tag and one for each origin a task without a tag has (`taskGroups_perm`). A tag that is not there is none.

A task that is let go in a gap of a group takes the group's tag, and the group's places are written anew around it. The
group is then read with the task in the gap, and nothing else moves (`lands`): the group is read in the order that the
places ask for (`reading_write_home`), and the places of no other group are written (`reading_write_other`).
-/

namespace JitPack

namespace TaskBoard

open HandOrder (rank byHand dropInto renumber without Placement Dropped)
open Shopping (pressingGroupsFirst pressingGroupsFirst_perm)

/-! ## Tasks and groups -/

/-- `TripTask`, as far as the board reads and writes it. `item` is the row the task prepares. -/
structure TripTask where
  id : String
  taskState : TaskState
  item : Option String
  phase : TaskPhase
  taskTagId : Option String
  dueDate : Option Day
  dueTime : Option String
  position : Option ℤ
  deriving DecidableEq

/-- `TaskTag`. -/
structure TaskTag where
  id : String
  name : String
  deriving DecidableEq

/-- `TASK_ORIGIN_PREP` and `TASK_ORIGIN_TRIP`. -/
inductive TaskOrigin where
  | prep
  | trip
  deriving DecidableEq

/-- What a drop names a group by. No tag has an origin's name for its id. -/
inductive GroupKey where
  | tag (id : String)
  | origin (origin : TaskOrigin)
  deriving DecidableEq

/-- `TaskGroup`. -/
structure TaskGroup where
  key : GroupKey
  tag : Option TaskTag
  origin : Option TaskOrigin
  tasks : List TripTask
  deriving DecidableEq

/-- `taskOrigin`. -/
def taskOrigin (task : TripTask) : TaskOrigin := if task.item = none then .trip else .prep

/-- `filedTagOf`. -/
def filedTagOf (task : TripTask) (tags : List TaskTag) : Option String :=
  match task.taskTagId with
  | none => none
  | some id => if tags.any (·.id = id) then some id else none

/-! ## When a task is due -/

/-- `openDueDay`. -/
def openDueDay (task : TripTask) : Option Day := if task.taskState = .opened then task.dueDate else none

/-- `daysBetween`. -/
def daysBetween (today day : Day) : ℤ := day.number - today.number

/-- `isDuePressing`, with `DUE_SOON_DAYS`. -/
def isDuePressing (task : TripTask) (today : Day) : Bool :=
  (openDueDay task).any fun day => daysBetween today day ≤ 2

/-- The order of `byDue`: by the day, and on one day by `byDueTime`. -/
def dueRank (today : Day) (task : TripTask) : WithTop ℤ ×ₗ WithTop String :=
  match openDueDay task with
  | none => toLex (⊤, ⊤)
  | some day => toLex ((daysBetween today day : ℤ), task.dueTime.elim ⊤ WithTop.some)

/-- `byDue`. -/
def byDue (tasks : List TripTask) (today : Day) : List TripTask := Ranked.byRank (dueRank today) tasks

/-! ## The board -/

/-- `PhaseShelf`. -/
structure PhaseShelf where
  opened : List TripTask
  resolved : List TripTask

/-- `TaskBoard`. -/
structure Board where
  due : List TripTask
  before : PhaseShelf
  during : PhaseShelf

section
variable (beforeLocked : Bool) (today : Day)

/-- `pressing`, in `taskBoard`. -/
def pressing (task : TripTask) : Bool :=
  task.taskState = .opened && !(beforeLocked && task.phase = .before) && isDuePressing task today

/-- `shelf`, in `taskBoard`. -/
def shelf (tasks : List TripTask) (phase : TaskPhase) : PhaseShelf :=
  let inPhase := tasks.filter fun task => task.phase = phase && !pressing beforeLocked today task
  ⟨inPhase.filter (·.taskState = .opened), inPhase.filter (·.taskState = .resolved)⟩

/-- `taskBoard`. -/
def taskBoard (tasks : List TripTask) : Board :=
  ⟨byDue (tasks.filter (pressing beforeLocked today)) today, shelf beforeLocked today tasks .before,
    shelf beforeLocked today tasks .during⟩

end

/-- The tasks of a board, list after list. -/
def Board.all (board : Board) : List TripTask :=
  board.due ++ (board.before.opened ++ board.before.resolved) ++ (board.during.opened ++ board.during.resolved)

/-! ## Groups -/

section
variable (tags : List TaskTag) (today : Day)

/-- The groups of `taskGroups` before they are put in order. -/
def filedGroups (tasks : List TripTask) : List TaskGroup :=
  let filed := tasks.map fun task => (task, filedTagOf task tags)
  tags.map (fun tag => ⟨.tag tag.id, some tag, none, (filed.filter (·.2 = some tag.id)).map (·.1)⟩) ++
    [TaskOrigin.prep, .trip].map fun origin => ⟨.origin origin, none, some origin,
      (filed.filter fun f => f.2 = none ∧ taskOrigin f.1 = origin).map (·.1)⟩

/-- A group's tasks in their order: by due day, then by hand. -/
def reading (tasks : List TripTask) : List TripTask := byHand (·.position) (byDue tasks today)

/-- `taskGroups`. -/
def taskGroups (tasks : List TripTask) : List TaskGroup :=
  pressingGroupsFirst
    (((filedGroups tags tasks).filter (·.tasks ≠ [])).map fun group =>
      { group with tasks := reading today group.tasks })
    fun group => group.tasks.any (isDuePressing · today)

end

/-! ## Drops -/

/-- `groupAccepts`. -/
def groupAccepts (group : TaskGroup) (task : TripTask) : Bool :=
  group.origin = none || group.origin = some (taskOrigin task)

/-- `tagForGroup`. -/
def tagForGroup : GroupKey → Option String
  | .tag id => some id
  | .origin _ => none

/-- `placeTaskDrop`. -/
def placeTaskDrop (whole shown : List TripTask) (task : TripTask) (gap : Option ℕ) : List (Placement TripTask) :=
  match dropInto (·.id) whole shown task (gap.getD shown.length) with
  | none => []
  | some ordered => renumber ordered (·.position)

/-- The tasks of the group a key names, if there is one. -/
def tasksOf (groups : List TaskGroup) (key : GroupKey) : List TripTask :=
  ((groups.find? (·.key = key)).map (·.tasks)).getD []

/-- The open tasks of a phase. -/
def openIn (phase : TaskPhase) (tasks : List TripTask) : List TripTask :=
  tasks.filter fun task => task.phase = phase ∧ task.taskState = .opened

/-- `wholeGroup`. -/
def wholeGroup (tags : List TaskTag) (today : Day) (tasks : List TripTask) (phase : TaskPhase) (key : GroupKey) :
    List TripTask :=
  tasksOf (taskGroups tags today (openIn phase tasks)) key

/-- A task after the moved one is filed anew (`retag`) and the placements are written (`place`). -/
def write (moved : TripTask) (phase : TaskPhase) (tag : Option String) (placements : List (Placement TripTask))
    (task : TripTask) : TripTask :=
  let task' := { task with position := HandOrder.placed TripTask.id TripTask.position placements task }
  if task.id = moved.id then { task' with phase := phase, taskTagId := tag } else task'

/-- `onDrop`: the trip's tasks after a task is let go in a gap of a group that is shown. -/
def onDrop (tags : List TaskTag) (today : Day) (tasks : List TripTask) (phase : TaskPhase) (group : TaskGroup)
    (moved : TripTask) (gap : Option ℕ) : List TripTask :=
  let placements := placeTaskDrop (wholeGroup tags today tasks phase group.key) group.tasks moved gap
  tasks.map (write moved phase (tagForGroup group.key) placements)

/-! ## Every task stands in one list -/

section
variable {beforeLocked : Bool} {today : Day} {tasks : List TripTask} {task : TripTask}

/-- The list of the board that a task stands in. -/
inductive Place where
  | due
  | shelf (phase : TaskPhase) (state : TaskState)
  deriving DecidableEq

/-- Due if it is pressing, else the list of its phase and its state. -/
def placeOf (beforeLocked : Bool) (today : Day) (task : TripTask) : Place :=
  if pressing beforeLocked today task then .due else .shelf task.phase task.taskState

theorem shelf_opened (phase : TaskPhase) : (shelf beforeLocked today tasks phase).opened =
    tasks.filter (placeOf beforeLocked today · = .shelf phase .opened) := by
  unfold shelf placeOf
  dsimp only
  rw [List.filter_filter]
  refine List.filter_congr fun task _ => ?_
  cases pressing beforeLocked today task <;> simp [Bool.and_comm]

theorem shelf_resolved (phase : TaskPhase) : (shelf beforeLocked today tasks phase).resolved =
    tasks.filter (placeOf beforeLocked today · = .shelf phase .resolved) := by
  unfold shelf placeOf
  dsimp only
  rw [List.filter_filter]
  refine List.filter_congr fun task _ => ?_
  cases pressing beforeLocked today task <;> simp [Bool.and_comm]

theorem due_perm : (taskBoard beforeLocked today tasks).due.Perm
    (tasks.filter (placeOf beforeLocked today · = .due)) := by
  have hdue : tasks.filter (pressing beforeLocked today) = tasks.filter (placeOf beforeLocked today · = .due) := by
    refine List.filter_congr fun task _ => ?_
    unfold placeOf
    cases pressing beforeLocked today task <;> simp
  rw [← hdue]
  exact Ranked.byRank_perm _ _

/-- **The lists of the board are the tasks**, each as often as it is there. -/
theorem taskBoard_perm (tasks : List TripTask) : (taskBoard beforeLocked today tasks).all.Perm tasks := by
  have hplaces : ([.due, .shelf .before .opened, .shelf .before .resolved, .shelf .during .opened,
      .shelf .during .resolved] : List Place).Nodup := by decide
  have hin : ∀ task ∈ tasks, placeOf beforeLocked today task ∈ ([.due, .shelf .before .opened,
      .shelf .before .resolved, .shelf .during .opened, .shelf .during .resolved] : List Place) := by
    intro task _
    unfold placeOf
    cases pressing beforeLocked today task <;> cases task.phase <;> cases task.taskState <;> decide
  refine List.Perm.trans ?_ (Grouping.flatMap_filter_perm (placeOf beforeLocked today) hplaces hin)
  unfold Board.all
  simp only [List.flatMap_cons, List.flatMap_nil, List.append_nil, ← List.append_assoc]
  simp only [← shelf_opened, ← shelf_resolved]
  exact (((due_perm.append_right _).append_right _).append_right _).append_right _

end

/-! ## Every task stands in one group -/

section
variable {tags : List TaskTag} {today : Day} {tasks : List TripTask} {task : TripTask} {group : TaskGroup}
  {key : GroupKey}

/-- The group a task is filed in. -/
def keyOf (tags : List TaskTag) (task : TripTask) : GroupKey :=
  match filedTagOf task tags with
  | some id => .tag id
  | none => .origin (taskOrigin task)

theorem keyOf_tag {id : String} : keyOf tags task = .tag id ↔ filedTagOf task tags = some id := by
  unfold keyOf
  split <;> simp_all

theorem keyOf_origin {origin : TaskOrigin} :
    keyOf tags task = .origin origin ↔ filedTagOf task tags = none ∧ taskOrigin task = origin := by
  unfold keyOf
  split <;> simp_all

/-- The groups that there can be. -/
def keys (tags : List TaskTag) : List GroupKey := tags.map (.tag ·.id) ++ [.origin .prep, .origin .trip]

theorem nodup_keys (htags : (tags.map (·.id)).Nodup) : (keys tags).Nodup := by
  have htag : (tags.map (GroupKey.tag ·.id)).Nodup := by
    have h := htags.map (f := GroupKey.tag) fun _ _ h => GroupKey.tag.inj h
    rwa [List.map_map] at h
  refine List.nodup_append.2 ⟨htag, by decide, ?_⟩
  rintro _ hmem _ horigin rfl
  obtain ⟨tag, -, rfl⟩ := List.mem_map.1 hmem
  simp at horigin

theorem filedTagOf_mem {id : String} (h : filedTagOf task tags = some id) : ∃ tag ∈ tags, tag.id = id := by
  unfold filedTagOf at h
  split at h
  · cases h
  · split at h
    case isTrue hany => cases h; simpa using hany
    case isFalse => cases h

theorem keyOf_mem_keys (tags : List TaskTag) (task : TripTask) : keyOf tags task ∈ keys tags := by
  unfold keys
  cases hkey : keyOf tags task with
  | tag id =>
    obtain ⟨tag, htag, rfl⟩ := filedTagOf_mem (keyOf_tag.1 hkey)
    exact List.mem_append_left _ (List.mem_map_of_mem htag)
  | origin origin => cases origin <;> simp

theorem keys_filedGroups : (filedGroups tags tasks).map (·.key) = keys tags := by
  simp [filedGroups, keys, Function.comp_def]

/-- A group that can be. -/
structure Filed (tags : List TaskTag) (tasks : List TripTask) (group : TaskGroup) : Prop where
  tasks : group.tasks = tasks.filter (keyOf tags · = group.key)
  origin : ∀ origin, group.key = .origin origin → group.origin = some origin
  tag : ∀ id, group.key = .tag id → ∃ tag ∈ tags, tag.id = id

theorem filed_of_mem (h : group ∈ filedGroups tags tasks) : Filed tags tasks group := by
  unfold filedGroups at h
  rcases List.mem_append.1 h with h | h
  · obtain ⟨tag, htag, rfl⟩ := List.mem_map.1 h
    refine ⟨?_, fun _ he => (nomatch he), fun id he => ⟨tag, htag, GroupKey.tag.inj he⟩⟩
    simp only [List.filter_map, List.map_map, Function.comp_def, List.map_id', keyOf_tag]
  · obtain ⟨origin, -, rfl⟩ := List.mem_map.1 h
    refine ⟨?_, fun _ he => congrArg some (GroupKey.origin.inj he), fun _ he => nomatch he⟩
    simp only [List.filter_map, List.map_map, Function.comp_def, List.map_id', keyOf_origin]

theorem reading_perm (tasks : List TripTask) : (reading today tasks).Perm tasks :=
  (Ranked.byRank_perm _ _).trans (Ranked.byRank_perm _ _)

theorem reading_filter (p : TripTask → Bool) (tasks : List TripTask) :
    (reading today tasks).filter p = reading today (tasks.filter p) := by
  simp only [reading, byHand, byDue, Ranked.filter_byRank]

/-- A group of the list, as it is read. -/
theorem exists_of_mem_taskGroups (h : group ∈ taskGroups tags today tasks) : ∃ group₀ ∈ filedGroups tags tasks,
    group = { group₀ with tasks := reading today (tasks.filter (keyOf tags · = group₀.key)) } := by
  rw [taskGroups, (pressingGroupsFirst_perm _ _).mem_iff, List.mem_map] at h
  obtain ⟨group₀, hmem, rfl⟩ := h
  have hmem := (List.mem_filter.1 hmem).1
  exact ⟨group₀, hmem, by rw [← (filed_of_mem hmem).tasks]⟩

theorem nodup_taskGroups (htags : (tags.map (·.id)).Nodup) : ((taskGroups tags today tasks).map (·.key)).Nodup := by
  rw [taskGroups, ((pressingGroupsFirst_perm _ _).map _).nodup_iff, List.map_map]
  refine List.Nodup.sublist (List.filter_sublist.map _) ?_
  have hkeys : (filedGroups tags tasks).map (·.key) = keys tags := keys_filedGroups
  exact hkeys ▸ nodup_keys htags

/-- **What a list of tasks reads in the group of a key.** -/
theorem tasksOf_taskGroups (tasks : List TripTask) (key : GroupKey) :
    tasksOf (taskGroups tags today tasks) key = reading today (tasks.filter (keyOf tags · = key)) := by
  unfold tasksOf
  cases hfind : (taskGroups tags today tasks).find? (·.key = key) with
  | some group =>
    obtain ⟨group₀, -, rfl⟩ := exists_of_mem_taskGroups (List.mem_of_find?_eq_some hfind)
    have hkey : group₀.key = key := by simpa using List.find?_some hfind
    rw [← hkey]
    rfl
  | none =>
    suffices hnil : tasks.filter (keyOf tags · = key) = [] by rw [hnil]; rfl
    refine List.eq_nil_iff_forall_not_mem.2 fun task htask => ?_
    have hkey : keyOf tags task = key := by simpa using (List.mem_filter.1 htask).2
    have hmem : key ∈ (filedGroups tags tasks).map (·.key) := by
      rw [keys_filedGroups, ← hkey]
      exact keyOf_mem_keys tags task
    obtain ⟨group, hgroup, rfl⟩ := List.mem_map.1 hmem
    refine absurd ?_ (List.find?_eq_none.1 hfind { group with tasks := reading today group.tasks } ?_)
    · simp
    · rw [taskGroups, (pressingGroupsFirst_perm _ _).mem_iff]
      refine List.mem_map.2 ⟨group, List.mem_filter.2 ⟨hgroup, decide_eq_true ?_⟩, rfl⟩
      rw [(filed_of_mem hgroup).tasks]
      exact List.ne_nil_of_mem htask

/-- **The groups of a list are its tasks**, each as often as it is there. -/
theorem taskGroups_perm (htags : (tags.map (·.id)).Nodup) (tasks : List TripTask) :
    ((taskGroups tags today tasks).flatMap (·.tasks)).Perm tasks := by
  rw [taskGroups]
  refine ((pressingGroupsFirst_perm _ _).flatMap_right _).trans ?_
  rw [List.flatMap_map]
  refine (List.Perm.flatMap_left _ fun group _ => reading_perm group.tasks).trans ?_
  have hdrawn : ((filedGroups tags tasks).filter (·.tasks ≠ [])).flatMap (·.tasks) =
      (filedGroups tags tasks).flatMap (·.tasks) := by
    generalize filedGroups tags tasks = groups
    induction groups with
    | nil => rfl
    | cons group groups ih =>
      by_cases hnil : group.tasks = []
      · rw [List.filter_cons_of_neg (by simp [hnil]), ih, List.flatMap_cons, hnil, List.nil_append]
      · rw [List.filter_cons_of_pos (by simp [hnil]), List.flatMap_cons, List.flatMap_cons, ih]
  have hfiled : (filedGroups tags tasks).flatMap (·.tasks) =
      (keys tags).flatMap fun key => tasks.filter (keyOf tags · = key) := by
    rw [← @keys_filedGroups tags tasks, List.flatMap_map]
    exact List.flatMap_congr fun group hgroup => (filed_of_mem hgroup).tasks
  rw [hdrawn, hfiled]
  exact Grouping.flatMap_filter_perm (keyOf tags) (nodup_keys htags) fun task _ => keyOf_mem_keys tags task

end

/-! ## Writing a drop -/

section
variable {tags : List TaskTag} {today : Day} {moved task : TripTask} {phase : TaskPhase} {tag : Option String}
  {placements : List (Placement TripTask)} {rows rows' tasks : List TripTask} {key : GroupKey} {group : TaskGroup}

@[simp] theorem write_id : (write moved phase tag placements task).id = task.id := by
  unfold write
  dsimp only
  split <;> rfl

theorem write_position : (write moved phase tag placements task).position =
    HandOrder.placed TripTask.id TripTask.position placements task := by
  unfold write
  dsimp only
  split <;> rfl

theorem dueRank_write : dueRank today (write moved phase tag placements task) = dueRank today task := by
  unfold write
  dsimp only
  split <;> rfl

theorem keyOf_write_of_ne (h : task.id ≠ moved.id) :
    keyOf tags (write moved phase tag placements task) = keyOf tags task := by
  unfold write
  rw [if_neg h]
  rfl

/-- The moved task is filed in the group that accepts it. -/
theorem keyOf_write_moved (hgroup : Filed tags tasks group) (haccepts : groupAccepts group moved) :
    keyOf tags (write moved phase (tagForGroup group.key) placements moved) = group.key := by
  unfold write
  rw [if_pos rfl]
  cases hkey : group.key with
  | tag id =>
    obtain ⟨tag, htag, rfl⟩ := hgroup.tag id hkey
    refine keyOf_tag.2 ?_
    have hany : tags.any (·.id = tag.id) := List.any_eq_true.2 ⟨tag, htag, decide_eq_true rfl⟩
    simp only [filedTagOf, tagForGroup, hany, if_true]
  | origin origin =>
    have horigin : group.origin = some origin := hgroup.origin origin hkey
    refine keyOf_origin.2 ⟨rfl, ?_⟩
    simpa [groupAccepts, horigin, taskOrigin, eq_comm] using haccepts

/-- Written tasks are read by what is written. -/
theorem reading_write (tasks : List TripTask) : reading today (tasks.map (write moved phase tag placements)) =
    (byHand (HandOrder.placed TripTask.id TripTask.position placements) (byDue tasks today)).map
      (write moved phase tag placements) := by
  have hdue : dueRank today ∘ write moved phase tag placements = dueRank today := funext fun _ => dueRank_write
  have hhand : rank TripTask.position ∘ write moved phase tag placements =
      rank (HandOrder.placed TripTask.id TripTask.position placements) := by
    funext task
    simp only [Function.comp, rank, write_position]
  simp only [reading, byHand, byDue, Ranked.byRank_map, hdue, hhand]

/-- The rows after a drop is written: the moved one is among them already, or it comes from elsewhere. -/
inductive Refiled (w : TripTask → TripTask) (moved : TripTask) : List TripTask → List TripTask → Prop where
  | here {rows : List TripTask} (h : moved ∈ rows) : Refiled w moved rows (rows.map w)
  | come {pre post : List TripTask} (h : moved.id ∉ (pre ++ post).map (·.id)) :
    Refiled w moved (pre ++ post) (pre.map w ++ w moved :: post.map w)

section
variable {w : TripTask → TripTask}

theorem without_map (hid : ∀ task, (w task).id = task.id) (tasks : List TripTask) :
    without TripTask.id moved (tasks.map w) = (without TripTask.id moved tasks).map w := by
  unfold without
  rw [List.filter_map]
  refine congrArg _ (List.filter_congr fun task _ => ?_)
  simp only [Function.comp, hid]

theorem Refiled.without (hid : ∀ task, (w task).id = task.id) (h : Refiled w moved rows rows') :
    HandOrder.without TripTask.id moved rows' = (HandOrder.without TripTask.id moved rows).map w := by
  cases h with
  | here => exact without_map hid _
  | @come pre post hnew =>
    have hmoved : HandOrder.without TripTask.id moved [w moved] = [] := by simp [HandOrder.without, hid]
    rw [HandOrder.without_append, ← List.singleton_append, HandOrder.without_append, hmoved, List.nil_append,
      without_map hid, without_map hid, HandOrder.without_append, List.map_append]

theorem Refiled.mem (h : Refiled w moved rows rows') : w moved ∈ rows' := by
  cases h with
  | here hmem => exact List.mem_map_of_mem hmem
  | come => simp

theorem Refiled.nodup (hid : ∀ task, (w task).id = task.id) (hrows : (rows.map (·.id)).Nodup)
    (h : Refiled w moved rows rows') : (rows'.map (·.id)).Nodup := by
  cases h with
  | here => simpa [Function.comp_def, hid] using hrows
  | @come pre post hnew =>
    rw [List.map_append, List.map_cons, List.nodup_middle, List.nodup_cons]
    simp only [List.map_map, Function.comp_def, hid, ← List.map_append]
    exact ⟨hnew, hrows⟩

/-- The moved task is among the rows, or none of them has its id. -/
theorem Refiled.old (h : Refiled w moved rows rows') : moved ∈ rows ∨ moved.id ∉ rows.map (·.id) := by
  cases h with
  | here hmem => exact .inl hmem
  | come hnew => exact .inr hnew

/-- If the moved task is among the rows, they are written where they stand. -/
theorem Refiled.eq_map (h : Refiled w moved rows rows') (hmem : moved ∈ rows) : rows' = rows.map w := by
  cases h with
  | here => rfl
  | come hnew => exact absurd (List.mem_map_of_mem hmem) hnew

end

/-- The rows of a group. -/
def rowsOf (tags : List TaskTag) (rows : List TripTask) (key : GroupKey) : List TripTask :=
  rows.filter (keyOf tags · = key)

theorem mem_rowsOf : task ∈ rowsOf tags rows key ↔ task ∈ rows ∧ keyOf tags task = key := by simp [rowsOf]

theorem nodup_rowsOf (h : (rows.map (·.id)).Nodup) : ((rowsOf tags rows key).map (·.id)).Nodup :=
  (List.filter_sublist.map _).nodup h

/-- The other rows of every group are written where they stand. -/
theorem Refiled.without_rowsOf (h : Refiled (write moved phase tag placements) moved rows rows') (key : GroupKey) :
    HandOrder.without TripTask.id moved (rowsOf tags rows' key) =
      (HandOrder.without TripTask.id moved (rowsOf tags rows key)).map (write moved phase tag placements) := by
  have hcomm : ∀ rows : List TripTask, HandOrder.without TripTask.id moved (rowsOf tags rows key) =
      (HandOrder.without TripTask.id moved rows).filter (keyOf tags · = key) := by
    intro rows
    rw [rowsOf, HandOrder.without, HandOrder.without, List.filter_filter, List.filter_filter]
    exact List.filter_congr fun _ _ => Bool.and_comm _ _
  rw [hcomm, hcomm, h.without fun _ => write_id, List.filter_map]
  refine congrArg _ (List.filter_congr fun task htask => ?_)
  simp only [Function.comp, keyOf_write_of_ne (HandOrder.mem_without.1 htask).2]

end

/-! ## A drop -/

section
variable {tags : List TaskTag} {today : Day} {moved task : TripTask} {phase : TaskPhase} {tag : Option String}
  {rows rows' shown : List TripTask} {key : GroupKey} {gap : Option ℕ}

/-- The order that a drop gives a group. -/
theorem exists_ordered {whole : List TripTask} (gap : Option ℕ) (hwhole : (whole.map (·.id)).Nodup)
    (hshown : shown.Sublist whole) (hmoved : moved ∈ whole ∨ moved.id ∉ whole.map (·.id)) : ∃ ordered,
      Dropped TripTask.id whole shown moved (gap.getD shown.length) ordered ∧
        (ordered = whole ∧ placeTaskDrop whole shown moved gap = [] ∨
          placeTaskDrop whole shown moved gap = renumber ordered (·.position)) := by
  have hspec := @HandOrder.dropInto_spec _ _ _ TripTask.id _ _ moved (gap.getD shown.length) hwhole hshown hmoved
  unfold placeTaskDrop
  split at hspec
  case h_1 hnone => exact ⟨whole, hspec, .inl ⟨rfl, by rw [hnone]⟩⟩
  case h_2 ordered hsome => exact ⟨ordered, hspec.2, .inr (by rw [hsome])⟩

/-- What a drop does to the groups of some rows: the rows of the group are read in the order that is asked for. -/
structure Asked (tags : List TaskTag) (today : Day) (rows shown : List TripTask) (moved : TripTask) (gap : Option ℕ)
    (key : GroupKey) (placements : List (Placement TripTask)) (ordered : List TripTask) : Prop where
  dropped : Dropped TripTask.id (reading today (rowsOf tags rows key)) shown moved (gap.getD shown.length) ordered
  placements : ordered = reading today (rowsOf tags rows key) ∧ placements = [] ∨
    placements = renumber ordered (·.position)

theorem Asked.mem_moved {placements : List (Placement TripTask)} {ordered : List TripTask}
    (h : Asked tags today rows shown moved gap key placements ordered) : moved ∈ ordered := by
  obtain ⟨pre, post, hordered, -⟩ := h.dropped.between
  simp [hordered]

/-- The tasks of the new order are those of the group and the moved one. -/
theorem Asked.mem {placements : List (Placement TripTask)} {ordered : List TripTask}
    (h : Asked tags today rows shown moved gap key placements ordered) (htask : task ∈ ordered)
    (hne : task.id ≠ moved.id) : task ∈ rowsOf tags rows key := by
  have hwithout : task ∈ without TripTask.id moved ordered := HandOrder.mem_without.2 ⟨htask, hne⟩
  rw [h.dropped.others] at hwithout
  exact (reading_perm _).mem_iff.1 (HandOrder.mem_without.1 hwithout).1

/-- **The group is read in the order that the places ask for.** -/
theorem Asked.reading_home {placements : List (Placement TripTask)} {ordered : List TripTask}
    (hrows : (rows.map (·.id)).Nodup) (h : Asked tags today rows shown moved gap key placements ordered)
    (hre : Refiled (write moved phase tag placements) moved rows rows')
    (hkey : keyOf tags (write moved phase tag placements moved) = key) :
    reading today (rowsOf tags rows' key) = ordered.map (write moved phase tag placements) := by
  have hw : ∀ task, (write moved phase tag placements task).id = task.id := fun _ => write_id
  rcases h.placements with ⟨rfl, rfl⟩ | hplacements
  · -- nothing is placed, and the moved task is in the group already
    obtain ⟨hmem, hold⟩ := mem_rowsOf.1 ((reading_perm _).mem_iff.1 h.mem_moved)
    have hwritten : rowsOf tags rows' key = (rowsOf tags rows key).map (write moved phase tag []) := by
      rw [hre.eq_map hmem, rowsOf, List.filter_map]
      refine congrArg _ (List.filter_congr fun task htask => ?_)
      by_cases hid : task.id = moved.id
      · rw [Keyed.eq_of_key hrows htask hmem hid]
        simp only [Function.comp, hkey, hold]
      · simp only [Function.comp, keyOf_write_of_ne hid]
    rw [hwritten, reading_write]
    rfl
  · refine Ranked.byRank_eq_of_perm ((Ranked.byRank_perm _ _).trans ?_) ?_
    · have hmoved : write moved phase tag placements moved ∈ rowsOf tags rows' key := mem_rowsOf.2 ⟨hre.mem, hkey⟩
      refine (HandOrder.perm_cons_without (nodup_rowsOf (hre.nodup hw hrows)) hmoved (hw moved)).trans ?_
      rw [hre.without_rowsOf]
      have hordered : (moved :: without TripTask.id moved (rowsOf tags rows key)).Perm ordered := by
        refine List.Perm.trans ?_ (HandOrder.perm_cons_without h.dropped.once h.mem_moved rfl).symm
        rw [h.dropped.others]
        exact ((reading_perm _).symm.filter _).cons _
      exact hordered.map _
    · have hrise := @HandOrder.pairwise_placed _ _ _ _ _ TripTask.position h.dropped.once
      rw [← hplacements] at hrise
      refine List.pairwise_map.2 (hrise.imp fun hlt => ?_)
      simpa only [rank, write_position] using hlt

/-- The tasks of the other groups are not placed. -/
theorem Asked.placed_of_ne {placements : List (Placement TripTask)} {ordered : List TripTask}
    (hrows : (rows.map (·.id)).Nodup) (h : Asked tags today rows shown moved gap key placements ordered)
    (htask : task ∈ rows) (hne : task.id ≠ moved.id) (hkey : keyOf tags task ≠ key) :
    HandOrder.placed TripTask.id TripTask.position placements task = task.position := by
  unfold HandOrder.placed
  rw [List.find?_eq_none.2]
  intro placement hplacement
  rw [decide_eq_true_iff]
  intro hid
  rcases h.placements with ⟨-, rfl⟩ | rfl
  · cases hplacement
  · obtain ⟨n, hn, -⟩ := HandOrder.mem_renumber.1 hplacement
    have hitem := mem_rowsOf.1 (h.mem (List.mem_of_getElem? hn) (hid ▸ hne))
    rw [Keyed.eq_of_key hrows hitem.1 htask hid] at hitem
    exact hkey hitem.2

/-- **The other tasks of every group are read as they were.** -/
theorem Asked.reading_without {placements : List (Placement TripTask)} {ordered : List TripTask}
    (hrows : (rows.map (·.id)).Nodup) (h : Asked tags today rows shown moved gap key placements ordered)
    (hre : Refiled (write moved phase tag placements) moved rows rows')
    (hkey : keyOf tags (write moved phase tag placements moved) = key) (key' : GroupKey) :
    without TripTask.id moved (reading today (rowsOf tags rows' key')) =
      (without TripTask.id moved (reading today (rowsOf tags rows key'))).map (write moved phase tag placements) := by
  by_cases hhere : key' = key
  · subst hhere
    rw [h.reading_home hrows hre hkey, without_map fun _ => write_id, h.dropped.others]
  · have hread : ∀ rows : List TripTask, without TripTask.id moved (reading today (rowsOf tags rows key')) =
        reading today (without TripTask.id moved (rowsOf tags rows key')) := fun rows => reading_filter _ _
    rw [hread, hread, hre.without_rowsOf, reading_write]
    refine congrArg _ (Ranked.byRank_congr fun task htask => ?_)
    obtain ⟨htask, hne⟩ := HandOrder.mem_without.1 (Ranked.mem_byRank.1 htask)
    obtain ⟨htask, hin⟩ := mem_rowsOf.1 htask
    rw [rank, rank, h.placed_of_ne hrows htask hne (hin ▸ hhere)]

end

/-! ## The task in the gap -/

section
variable (tags : List TaskTag) (today : Day) (visible : String → Bool) (rows rows' : List TripTask) (group : TaskGroup)
  (moved : TripTask) (gap : Option ℕ)

/-- The moved task is read in the group between the shown neighbours of the gap, in no other group, and whatever is
shown of the rows, the others are read in their groups as they were. -/
structure Lands : Prop where
  between : (tasksOf (taskGroups tags today (rows'.filter fun task => visible task.id ∨ task.id = moved.id))
      group.key).map (·.id) =
    (without TripTask.id moved (group.tasks.take (gap.getD group.tasks.length))).map (·.id) ++
      moved.id :: (without TripTask.id moved (group.tasks.drop (gap.getD group.tasks.length))).map (·.id)
  elsewhere : ∀ key ≠ group.key, moved.id ∉ (tasksOf (taskGroups tags today rows') key).map (·.id)
  others : ∀ (seen : String → Bool) (key : GroupKey),
    (without TripTask.id moved (tasksOf (taskGroups tags today (rows'.filter (seen ·.id))) key)).map (·.id) =
      (without TripTask.id moved (tasksOf (taskGroups tags today (rows.filter (seen ·.id))) key)).map (·.id)

end

section
variable {tags : List TaskTag} {today : Day} {visible : String → Bool} {rows rows' tasks : List TripTask}
  {group : TaskGroup} {moved : TripTask} {phase : TaskPhase} {gap : Option ℕ} {key : GroupKey}

/-- What is shown of a group. -/
theorem tasksOf_filter (p : TripTask → Bool) (rows : List TripTask) (key : GroupKey) :
    tasksOf (taskGroups tags today (rows.filter p)) key = (reading today (rowsOf tags rows key)).filter p := by
  rw [tasksOf_taskGroups, reading_filter, rowsOf, List.filter_filter, List.filter_filter]
  exact congrArg _ (List.filter_congr fun _ _ => Bool.and_comm _ _)

theorem filed_of_mem_taskGroups (h : group ∈ taskGroups tags today tasks) :
    group.tasks = reading today (rowsOf tags tasks group.key) ∧
      (∀ moved phase placements, groupAccepts group moved →
        keyOf tags (write moved phase (tagForGroup group.key) placements moved) = group.key) := by
  obtain ⟨group₀, hmem, rfl⟩ := exists_of_mem_taskGroups h
  refine ⟨rfl, fun moved phase placements haccepts => ?_⟩
  have haccepts : groupAccepts group₀ moved := haccepts
  have hkey : keyOf tags (write moved phase (tagForGroup group₀.key) placements moved) = group₀.key :=
    keyOf_write_moved (filed_of_mem hmem) haccepts
  exact hkey

/-- **A task lands where it is let go.** -/
theorem lands (hrows : (rows.map (·.id)).Nodup) (hgroup : group ∈ taskGroups tags today (rows.filter (visible ·.id)))
    (haccepts : groupAccepts group moved)
    (hre : Refiled (write moved phase (tagForGroup group.key)
      (placeTaskDrop (tasksOf (taskGroups tags today rows) group.key) group.tasks moved gap)) moved rows rows') :
    Lands tags today visible rows rows' group moved gap := by
  obtain ⟨hshown, hfiled⟩ := filed_of_mem_taskGroups hgroup
  rw [tasksOf_taskGroups, ← rowsOf] at hre
  have hkey := hfiled moved phase
    (placeTaskDrop (reading today (rowsOf tags rows group.key)) group.tasks moved gap) haccepts
  have hvisible : group.tasks = (reading today (rowsOf tags rows group.key)).filter (visible ·.id) := by
    rw [hshown, reading_filter, rowsOf, rowsOf, List.filter_filter, List.filter_filter]
    exact congrArg _ (List.filter_congr fun _ _ => Bool.and_comm _ _)
  have hwhole : ((reading today (rowsOf tags rows group.key)).map (·.id)).Nodup :=
    ((reading_perm _).map _).nodup_iff.2 (nodup_rowsOf hrows)
  have hmoved : moved ∈ reading today (rowsOf tags rows group.key) ∨
      moved.id ∉ (reading today (rowsOf tags rows group.key)).map (·.id) := by
    by_cases hin : moved.id ∈ (reading today (rowsOf tags rows group.key)).map (·.id)
    · obtain ⟨task, htask, hid⟩ := List.mem_map.1 hin
      have hold := (mem_rowsOf.1 ((reading_perm _).mem_iff.1 htask)).1
      rcases hre.old with hmem | hnew
      · exact .inl (Keyed.eq_of_key hrows hold hmem hid ▸ htask)
      · exact absurd (hid ▸ List.mem_map_of_mem hold) hnew
    · exact .inr hin
  obtain ⟨ordered, hdropped, hplacements⟩ := exists_ordered gap hwhole
    (hvisible ▸ List.filter_sublist : group.tasks.Sublist _) hmoved
  have hasked : Asked tags today rows group.tasks moved gap group.key
    (placeTaskDrop (reading today (rowsOf tags rows group.key)) group.tasks moved gap) ordered :=
      ⟨hdropped, hplacements⟩
  have hhome := hasked.reading_home hrows hre hkey
  have hrest := fun key => hasked.reading_without hrows hre hkey key
  generalize hw : write moved phase (tagForGroup group.key)
    (placeTaskDrop (reading today (rowsOf tags rows group.key)) group.tasks moved gap) = w at *
  have hid : ∀ task, (w task).id = task.id := fun task => hw ▸ write_id
  -- what is shown of the written tasks
  have hseen : ∀ (seen : String → Bool) (tasks : List TripTask),
      ((tasks.map w).filter (seen ·.id)).map (·.id) = (tasks.filter (seen ·.id)).map (·.id) := by
    intro seen tasks
    simp only [List.filter_map, List.map_map, Function.comp_def, hid]
  refine ⟨?_, fun key hne hin => ?_, fun seen key => ?_⟩
  · have hseen := hseen (fun id => visible id ∨ id = moved.id) ordered
    rw [tasksOf_filter, hhome]
    refine hseen.trans ?_
    rw [hdropped.filter_eq hvisible, List.map_append, List.map_cons]
  · rw [tasksOf_taskGroups] at hin
    obtain ⟨task, htask, hsame⟩ := List.mem_map.1 hin
    obtain ⟨htask, hfiled⟩ := mem_rowsOf.1 ((reading_perm _).mem_iff.1 htask)
    rw [Keyed.eq_of_key (hre.nodup hid hrows) htask hre.mem (hsame.trans (hid moved).symm)] at hfiled
    exact hne (hfiled.symm.trans hkey)
  · have hcomm : ∀ tasks : List TripTask, without TripTask.id moved (tasks.filter (seen ·.id)) =
        (without TripTask.id moved tasks).filter (seen ·.id) := by
      intro tasks
      rw [without, without, List.filter_filter, List.filter_filter]
      exact List.filter_congr fun _ _ => Bool.and_comm _ _
    rw [tasksOf_filter, tasksOf_filter, hcomm, hcomm, hrest]
    exact hseen seen _

/-- What a drop writes, seen in the open tasks of the phase. -/
theorem onDrop_refiled (htasks : (tasks.map (·.id)).Nodup) (hmoved : moved ∈ tasks)
    (hopen : moved.taskState = .opened) : Refiled (write moved phase (tagForGroup group.key)
      (placeTaskDrop (wholeGroup tags today tasks phase group.key) group.tasks moved gap)) moved
      (openIn phase tasks) (openIn phase (onDrop tags today tasks phase group moved gap)) := by
  unfold onDrop
  generalize placeTaskDrop (wholeGroup tags today tasks phase group.key) group.tasks moved gap = placements
  dsimp only
  generalize hw : write moved phase (tagForGroup group.key) placements = w
  have hother : ∀ task : TripTask, task.id ≠ moved.id → ((w task).phase = phase ∧ (w task).taskState = .opened ↔
      task.phase = phase ∧ task.taskState = .opened) := by
    intro task hne
    rw [← hw, write, if_neg hne]
  have hhere : (w moved).phase = phase ∧ (w moved).taskState = .opened := by
    rw [← hw, write, if_pos rfl]
    exact ⟨rfl, hopen⟩
  by_cases hphase : moved.phase = phase
  · have hwritten : openIn phase (tasks.map w) = (openIn phase tasks).map w := by
      unfold openIn
      rw [List.filter_map]
      refine congrArg _ (List.filter_congr fun task htask => ?_)
      by_cases hid : task.id = moved.id
      · rw [Keyed.eq_of_key htasks htask hmoved hid]
        simp [hhere, hphase, hopen]
      · exact decide_eq_decide.2 (hother task hid)
    rw [hwritten]
    exact .here (List.mem_filter.2 ⟨hmoved, decide_eq_true ⟨hphase, hopen⟩⟩)
  · obtain ⟨pre, post, rfl⟩ := List.append_of_mem hmoved
    rw [List.map_append, List.map_cons, List.nodup_middle, List.nodup_cons, ← List.map_append] at htasks
    have hwritten : ∀ part : List TripTask, (∀ task ∈ part, task.id ≠ moved.id) →
        openIn phase (part.map w) = (openIn phase part).map w := by
      intro part hpart
      unfold openIn
      rw [List.filter_map]
      exact congrArg _ (List.filter_congr fun task htask => decide_eq_decide.2 (hother task (hpart task htask)))
    have hne : ∀ task ∈ pre ++ post, task.id ≠ moved.id := fun task htask he =>
      htasks.1 (he ▸ List.mem_map_of_mem htask)
    have hbefore : openIn phase (pre ++ moved :: post) = openIn phase pre ++ openIn phase post := by
      simp [openIn, hphase]
    have hafter : openIn phase ((pre ++ moved :: post).map w) =
        (openIn phase pre).map w ++ w moved :: (openIn phase post).map w := by
      rw [← hwritten pre fun task htask => hne task (List.mem_append_left _ htask),
        ← hwritten post fun task htask => hne task (List.mem_append_right _ htask)]
      simp [openIn, hhere]
    rw [hbefore, hafter]
    refine .come fun hin => htasks.1 ?_
    obtain ⟨task, htask, hid⟩ := List.mem_map.1 hin
    rw [← hid]
    refine List.mem_map_of_mem ?_
    exact (List.filter_sublist.append List.filter_sublist).subset htask

/-- A task of the trip that is open lands where it is let go, in the open tasks of the phase. -/
theorem onDrop_lands (htasks : (tasks.map (·.id)).Nodup) (hmoved : moved ∈ tasks) (hopen : moved.taskState = .opened)
    (hgroup : group ∈ taskGroups tags today ((openIn phase tasks).filter (visible ·.id)))
    (haccepts : groupAccepts group moved) : Lands tags today visible (openIn phase tasks)
      (openIn phase (onDrop tags today tasks phase group moved gap)) group moved gap :=
  lands ((List.filter_sublist.map _).nodup htasks) hgroup haccepts (onDrop_refiled htasks hmoved hopen)

end

/-- **The task board.** A row that is dropped may come from elsewhere, and some rows of its group may not be shown. -/
theorem board_spec {tags : List TaskTag} (htags : (tags.map (·.id)).Nodup) (today : Day) (beforeLocked : Bool) :
    (∀ tasks, (taskBoard beforeLocked today tasks).all.Perm tasks) ∧
      (∀ tasks, ((taskGroups tags today tasks).map (·.key)).Nodup ∧
        ((taskGroups tags today tasks).flatMap (·.tasks)).Perm tasks) ∧
      ∀ (visible : String → Bool) (rows rows' : List TripTask) (group : TaskGroup) (moved : TripTask)
        (phase : TaskPhase) (gap : Option ℕ), (rows.map (·.id)).Nodup →
        group ∈ taskGroups tags today (rows.filter (visible ·.id)) → groupAccepts group moved →
        Refiled (write moved phase (tagForGroup group.key)
          (placeTaskDrop (tasksOf (taskGroups tags today rows) group.key) group.tasks moved gap)) moved rows rows' →
        Lands tags today visible rows rows' group moved gap :=
  ⟨taskBoard_perm, fun tasks => ⟨nodup_taskGroups htags, taskGroups_perm htags tasks⟩,
    fun _ _ _ _ _ _ _ hrows hgroup haccepts hre => lands hrows hgroup haccepts hre⟩

/-- An open task without a due day. -/
def chore (id : String) (tag : Option String) : TripTask := ⟨id, .opened, none, .before, tag, none, none, none⟩

def office : TaskTag := ⟨"office", "Office"⟩

def errands : List TripTask :=
  [chore "pass" (some "office"), chore "mail" (some "office"), chore "bank" (some "office"), chore "visa" none]

/-- What is shown of the tag's group while the mail is hidden. -/
def shownOffice : TaskGroup :=
  ⟨.tag "office", some office, none, [chore "pass" (some "office"), chore "bank" (some "office")]⟩

/-- The untagged task is put between the two that are shown. -/
theorem visa_lands : Lands [office] ⟨2026, 7, 30, by decide, by decide, by decide⟩ (· ≠ "mail") errands
    (errands.map (write (chore "visa" none) .before (some "office") (placeTaskDrop
      (tasksOf (taskGroups [office] ⟨2026, 7, 30, by decide, by decide, by decide⟩ errands) (.tag "office"))
      shownOffice.tasks (chore "visa" none) (some 1)))) shownOffice (chore "visa" none) (some 1) := by
  refine (@board_spec [office] (by decide) _ false).2.2 _ _ _ _ _ .before _ (by decide) ?_ (by decide)
    (.here (by decide))
  decide

end TaskBoard

end JitPack
