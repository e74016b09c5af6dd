import JitPack.Lib.Keyed
import JitPack.Client.PackState
import JitPack.Client.TaskDue

/-!
# Closing the packing

Closing the packing makes a decision of every row that is not decided yet: a row of which nothing is packed is left at
home, and a row that is packed in part is trimmed to what is in the bag. The tasks that were meant for before the trip,
and the rows that were to be bought before it, cross to the time of the trip.

The plan reads a row by its numbers, unless it was skipped (`TripItem.reads`), and so does the test for a finished
packing. Every row of a plan ends up decided (`reads_decidedRow`); what a plan does to the list is
`closeRows_eq`, and the main theorem is `closePacking_spec`.
-/

namespace JitPack

namespace PackingClose

open PackState (PackRow PackFields stateFor closeRowUnpacked closeRowPartlyPacked)

/-! ## Rows, tasks and plans -/

/-- `TripItem`, as far as the close reads and writes it. -/
structure TripItem extends PackRow where
  id : String
  latePacker : Bool
  carriedOverAt : Option String
  deriving DecidableEq

/-- `ClosingTask`: the task of a row, or of the trip itself. -/
structure ClosingTask where
  id : String
  tripItemId : Option String
  taskTagId : Option String
  taskState : TaskState
  phase : Option TaskPhase
  deriving DecidableEq

/-- `ClosePackingPlan`. -/
structure ClosePackingPlan where
  skip : List TripItem
  trim : List TripItem
  rows : List TripItem
  late : ℕ
  claimed : ℕ
  tasks : List ClosingTask
  buyRows : List TripItem
  deriving DecidableEq

/-- A plan by which nothing is done. -/
def ClosePackingPlan.empty : ClosePackingPlan := ⟨[], [], [], 0, 0, [], []⟩

/-- `taskPhaseOf`. -/
def taskPhaseOf (task : ClosingTask) : TaskPhase := task.phase.getD .before

/-- `tasksCrossing`. -/
def tasksCrossing (tasks : List ClosingTask) : List ClosingTask :=
  tasks.filter fun task => task.taskState = .opened ∧ taskPhaseOf task = .before

/-- `rowsCrossingToLocal`. -/
def rowsCrossingToLocal (items : List TripItem) : List TripItem := items.filter (·.mode = .buyBefore)

/-- `tasksToFileAsCarried`. -/
def tasksToFileAsCarried (crossing : List ClosingTask) : List ClosingTask :=
  crossing.filter fun task => task.tripItemId = none ∧ task.taskTagId = none

/-- A row that is decided, with what is counted of it. -/
def ClosePackingPlan.count (isClaimed : TripItem → Bool) (plan : ClosePackingPlan) (item : TripItem) :
    ClosePackingPlan :=
  { plan with
    rows := plan.rows ++ [item]
    late := if item.latePacker then plan.late + 1 else plan.late
    claimed := if isClaimed item then plan.claimed + 1 else plan.claimed }

/-- One row of the loop. -/
def ClosePackingPlan.decide (isClaimed : TripItem → Bool) (plan : ClosePackingPlan) (item : TripItem) :
    ClosePackingPlan :=
  if item.mode ≠ .pack then plan
  else if item.state = .skipped then plan
  else
    match stateFor item.packedCount item.quantity with
    | .opened => { plan with skip := plan.skip ++ [item] }.count isClaimed item
    | .partlyPacked => { plan with trim := plan.trim ++ [item] }.count isClaimed item
    | _ => plan

/-- `planPackingClose`. -/
def planPackingClose (items : List TripItem) (isClaimed : TripItem → Bool) (tasks : List ClosingTask) :
    ClosePackingPlan :=
  { items.foldl (ClosePackingPlan.decide isClaimed) .empty with
    tasks := tasksCrossing tasks
    buyRows := rowsCrossingToLocal items }

/-- The rows that `packingIsFinished` counts. -/
structure Counts where
  packable : ℕ
  packed : ℕ
  opened : ℕ

def Counts.add (n : Counts) (item : TripItem) : Counts :=
  if item.mode ≠ .pack then n
  else
    let n := { n with packable := n.packable + 1 }
    if item.state = .skipped then n
    else
      match stateFor item.packedCount item.quantity with
      | .packed => { n with packed := n.packed + 1 }
      | .skipped => n
      | _ => { n with opened := n.opened + 1 }

/-- `packingIsFinished`. -/
def packingIsFinished (items : List TripItem) : Bool :=
  let n := items.foldl Counts.add ⟨0, 0, 0⟩
  n.packable > 0 ∧ n.opened = 0 ∧ n.packed > 0

/-! ## What is written -/

/-- An upsert of the row of an id. -/
def writeRow (items : List TripItem) (w : String × PackFields) : List TripItem :=
  items.map fun item => if item.id = w.1 then { item with toPackRow := item.toPackRow.paint w.2 } else item

/-- The writes of a plan to the rows that it decides. -/
def ClosePackingPlan.writes (plan : ClosePackingPlan) : List (String × PackFields) :=
  plan.skip.map (fun item => (item.id, closeRowUnpacked)) ++
    plan.trim.map fun item => (item.id, closeRowPartlyPacked item.packedCount)

def ClosePackingPlan.closeRows (plan : ClosePackingPlan) (items : List TripItem) : List TripItem :=
  plan.writes.foldl writeRow items

/-- `carryRowToLocal`. -/
def carryRowToLocal (now : String) (items : List TripItem) (itemId : String) : List TripItem :=
  items.map fun item =>
    if item.id = itemId then { item with mode := .buyLocal, carriedOverAt := some now } else item

def ClosePackingPlan.carryRows (plan : ClosePackingPlan) (now : String) (items : List TripItem) : List TripItem :=
  (plan.buyRows.map (·.id)).foldl (carryRowToLocal now) items

/-- `setTaskPhase`, and `setTaskTag` where the task is filed as carried. -/
def moveTask (toTag : List String) (tagId : Option String) (tasks : List ClosingTask) (taskId : String) :
    List ClosingTask :=
  tasks.map fun task =>
    if task.id = taskId then
      { task with
        phase := some .during
        taskTagId := if taskId ∈ toTag then tagId.or task.taskTagId else task.taskTagId }
    else task

def ClosePackingPlan.moveTasks (plan : ClosePackingPlan) (tagId : Option String) (tasks : List ClosingTask) :
    List ClosingTask :=
  (plan.tasks.map (·.id)).foldl (moveTask ((tasksToFileAsCarried plan.tasks).map (·.id)) tagId) tasks

/-! ## How a row reads -/

/-- A row as the plan and the test for a finished packing read it. -/
def TripItem.reads (item : TripItem) : ItemState :=
  if item.state = .skipped then .skipped else stateFor item.packedCount item.quantity

/-- A row of the packing list that reads so. -/
def Reads (s : ItemState) (item : TripItem) : Prop := item.mode = .pack ∧ item.reads = s

instance (s : ItemState) : DecidablePred (Reads s) := fun _ => inferInstanceAs (Decidable (_ ∧ _))

/-- Nothing less than nothing is packed, and the state is read off the numbers, unless somebody holds the row or it is
skipped. More may be packed than the amount. -/
structure Numbered (row : PackRow) : Prop where
  nonneg : 0 ≤ row.packedCount
  reads : row.state ≠ .packingNow → row.state ≠ .skipped → row.state = stateFor row.packedCount row.quantity

/-- A row once the close has decided it. -/
def TripItem.decidedRow (item : TripItem) : TripItem :=
  if Reads .opened item then { item with toPackRow := item.toPackRow.paint closeRowUnpacked }
  else if Reads .partlyPacked item then
    { item with toPackRow := item.toPackRow.paint (closeRowPartlyPacked item.packedCount) }
  else item

section
variable {item : TripItem} {items : List TripItem} {plan : ClosePackingPlan} {isClaimed : TripItem → Bool}
  {tasks : List ClosingTask}

/-- One row of the loop, by how it reads. -/
theorem decide_eq (plan : ClosePackingPlan) (item : TripItem) : plan.decide isClaimed item =
    if Reads .opened item then { plan with skip := plan.skip ++ [item] }.count isClaimed item
    else if Reads .partlyPacked item then { plan with trim := plan.trim ++ [item] }.count isClaimed item
    else plan := by
  by_cases hmode : item.mode = .pack
  · by_cases hskipped : item.state = .skipped
    · simp [ClosePackingPlan.decide, Reads, TripItem.reads, hmode, hskipped]
    · simp only [ClosePackingPlan.decide, Reads, TripItem.reads, hmode, hskipped, ne_eq, not_true_eq_false, if_false,
        true_and]
      cases stateFor item.packedCount item.quantity <;> rfl
  · simp [ClosePackingPlan.decide, Reads, hmode]

theorem foldl_decide (plan : ClosePackingPlan) (items : List TripItem) :
    items.foldl (ClosePackingPlan.decide isClaimed) plan =
      { plan with
        skip := plan.skip ++ items.filter (Reads .opened ·)
        trim := plan.trim ++ items.filter (Reads .partlyPacked ·)
        rows := plan.rows ++ items.filter fun item => Reads .opened item ∨ Reads .partlyPacked item
        late := plan.late + items.countP fun item =>
          (Reads .opened item ∨ Reads .partlyPacked item) ∧ item.latePacker
        claimed := plan.claimed + items.countP fun item =>
          (Reads .opened item ∨ Reads .partlyPacked item) ∧ isClaimed item } := by
  induction items generalizing plan with
  | nil => simp
  | cons item items ih =>
    rw [List.foldl_cons, ih, decide_eq]
    by_cases hopened : Reads .opened item
    · have hpartly : ¬ Reads .partlyPacked item := fun h => nomatch hopened.2.symm.trans h.2
      cases hlate : item.latePacker <;> cases hclaimed : isClaimed item <;>
        simp [hopened, hpartly, hlate, hclaimed, ClosePackingPlan.count] <;> omega
    · by_cases hpartly : Reads .partlyPacked item
      · cases hlate : item.latePacker <;> cases hclaimed : isClaimed item <;>
          simp [hopened, hpartly, hlate, hclaimed, ClosePackingPlan.count] <;> omega
      · simp [hopened, hpartly]

theorem planPackingClose_eq (items : List TripItem) : planPackingClose items isClaimed tasks =
    { skip := items.filter (Reads .opened ·)
      trim := items.filter (Reads .partlyPacked ·)
      rows := items.filter fun item => Reads .opened item ∨ Reads .partlyPacked item
      late := items.countP fun item => (Reads .opened item ∨ Reads .partlyPacked item) ∧ item.latePacker
      claimed := items.countP fun item => (Reads .opened item ∨ Reads .partlyPacked item) ∧ isClaimed item
      tasks := tasksCrossing tasks
      buyRows := rowsCrossingToLocal items } := by
  rw [planPackingClose, foldl_decide]
  simp [ClosePackingPlan.empty]

/-! ## The finished packing -/

/-- One row of the loop, by how it reads. -/
theorem add_eq (n : Counts) (item : TripItem) : n.add item =
    { packable := n.packable + if item.mode = .pack then 1 else 0
      packed := n.packed + if Reads .packed item then 1 else 0
      opened := n.opened + if item.mode = .pack ∧ item.reads ≠ .packed ∧ item.reads ≠ .skipped then 1 else 0 } := by
  by_cases hmode : item.mode = .pack
  · by_cases hskipped : item.state = .skipped
    · simp [Counts.add, Reads, TripItem.reads, hmode, hskipped]
    · simp only [Counts.add, Reads, TripItem.reads, hmode, hskipped, ne_eq, not_true_eq_false, if_false, true_and]
      cases stateFor item.packedCount item.quantity <;> rfl
  · simp [Counts.add, Reads, hmode]

theorem foldl_add (n : Counts) (items : List TripItem) : items.foldl Counts.add n =
    { packable := n.packable + items.countP (·.mode = .pack)
      packed := n.packed + items.countP (Reads .packed ·)
      opened := n.opened + items.countP fun item =>
        item.mode = .pack ∧ item.reads ≠ .packed ∧ item.reads ≠ .skipped } := by
  induction items generalizing n with
  | nil => rfl
  | cons item items ih =>
    rw [List.foldl_cons, ih, add_eq]
    simp only [List.countP_cons, decide_eq_true_eq, Counts.mk.injEq]
    omega

/-- The packing is finished where every row is decided and one of them is packed. -/
theorem packingIsFinished_iff : packingIsFinished items = true ↔
    (∀ item ∈ items, item.mode = .pack → item.reads = .packed ∨ item.reads = .skipped) ∧
      ∃ item ∈ items, Reads .packed item := by
  rw [packingIsFinished, foldl_add]
  simp only [Nat.zero_add, gt_iff_lt, List.countP_eq_zero, List.countP_pos_iff, decide_eq_true_iff, not_and, not_not]
  constructor
  · rintro ⟨-, hopened, hpacked⟩
    exact ⟨fun item hitem hmode => or_iff_not_imp_left.2 (hopened item hitem hmode), hpacked⟩
  · rintro ⟨hdecided, row, hrow, hpacked⟩
    exact ⟨⟨row, hrow, hpacked.1⟩, fun item hitem hmode => or_iff_not_imp_left.1 (hdecided item hitem hmode),
      row, hrow, hpacked⟩

/-! ## The rows that are decided -/

theorem stateFor_ne_packingNow {c q : ℤ} : stateFor c q ≠ .packingNow := by
  unfold stateFor
  dsimp only
  split_ifs <;> simp

theorem Reads.state_ne (h : Reads s item) (hs : s ≠ .skipped) : item.state ≠ .skipped := by
  rintro hstate
  refine hs (h.2.symm.trans ?_)
  exact if_pos hstate

/-- The numbers of a row by how it reads. -/
theorem Reads.stateFor_eq (h : Reads s item) (hs : s ≠ .skipped) : stateFor item.packedCount item.quantity = s := by
  rw [← h.2]
  exact (if_neg (h.state_ne hs)).symm

theorem Reads.packedCount_nonpos (h : Reads .opened item) : item.packedCount ≤ 0 := by
  have hstate := h.stateFor_eq (by decide)
  unfold stateFor at hstate
  dsimp only at hstate
  split_ifs at hstate
  omega

theorem Reads.packedCount_pos (h : Reads .partlyPacked item) : 0 < item.packedCount := by
  have hstate := h.stateFor_eq (by decide)
  unfold stateFor at hstate
  dsimp only at hstate
  split_ifs at hstate
  omega

theorem not_partly_of_opened (h : Reads .opened item) : ¬ Reads .partlyPacked item :=
  fun h' => nomatch h.2.symm.trans h'.2

theorem decidedRow_of_opened (h : Reads .opened item) :
    item.decidedRow = { item with toPackRow := item.toPackRow.paint closeRowUnpacked } :=
  if_pos h

theorem decidedRow_of_partly (h : Reads .partlyPacked item) : item.decidedRow =
    { item with toPackRow := item.toPackRow.paint (closeRowPartlyPacked item.packedCount) } := by
  rw [TripItem.decidedRow, if_neg fun h' => not_partly_of_opened h' h, if_pos h]

theorem decidedRow_of_not (h : ¬ (Reads .opened item ∨ Reads .partlyPacked item)) : item.decidedRow = item := by
  rw [TripItem.decidedRow, if_neg fun h' => h (.inl h'), if_neg fun h' => h (.inr h')]

/-- A row reads open, or partly packed, or the close leaves it. -/
theorem decidedRow_cases (item : TripItem) : Reads .opened item ∨ Reads .partlyPacked item ∨
    ¬ (Reads .opened item ∨ Reads .partlyPacked item) := by
  by_cases h : Reads .opened item
  · exact .inl h
  · by_cases h' : Reads .partlyPacked item
    · exact .inr (.inl h')
    · exact .inr (.inr (not_or.2 ⟨h, h'⟩))

@[simp] theorem id_decidedRow : item.decidedRow.id = item.id := by
  unfold TripItem.decidedRow
  split_ifs <;> rfl

@[simp] theorem mode_decidedRow : item.decidedRow.mode = item.mode := by
  unfold TripItem.decidedRow
  split_ifs <;> rfl

/-- **The close decides every row.** -/
theorem reads_decidedRow : ¬ (Reads .opened item.decidedRow ∨ Reads .partlyPacked item.decidedRow) := by
  rcases decidedRow_cases item with h | h | h
  · rw [decidedRow_of_opened h]
    rintro (h' | h')
    · exact h'.state_ne (by decide) rfl
    · exact h'.state_ne (by decide) rfl
  · have hpos := h.packedCount_pos
    have hpacked : stateFor item.packedCount item.packedCount = .packed :=
      (PackState.stateFor_eq_packed_iff hpos.le le_rfl).2 ⟨rfl, hpos⟩
    rw [decidedRow_of_partly h]
    rintro (h' | h')
    · exact nomatch hpacked.symm.trans (h'.stateFor_eq (by decide))
    · exact nomatch hpacked.symm.trans (h'.stateFor_eq (by decide))
  · rwa [decidedRow_of_not h]

theorem packedCount_decidedRow (h : 0 ≤ item.packedCount) : item.decidedRow.packedCount = item.packedCount := by
  rcases decidedRow_cases item with h' | h' | h'
  · rw [decidedRow_of_opened h']
    exact le_antisymm h h'.packedCount_nonpos
  · rw [decidedRow_of_partly h']
    rfl
  · rw [decidedRow_of_not h']

theorem Numbered.decidedRow (h : Numbered item.toPackRow) : Numbered item.decidedRow.toPackRow := by
  rcases decidedRow_cases item with h' | h' | h'
  · rw [decidedRow_of_opened h']
    exact ⟨le_rfl, fun _ hstate => absurd rfl hstate⟩
  · have hpos := h'.packedCount_pos
    rw [decidedRow_of_partly h']
    exact ⟨hpos.le, fun _ _ => ((PackState.stateFor_eq_packed_iff hpos.le le_rfl).2 ⟨rfl, hpos⟩).symm⟩
  · rwa [decidedRow_of_not h']

/-- A row that is decided does not say that it is open or packed in part. -/
theorem Numbered.state_ne (h : Numbered item.toPackRow) (hmode : item.mode = .pack)
    (hdecided : ¬ (Reads .opened item ∨ Reads .partlyPacked item)) :
    item.state ≠ .opened ∧ item.state ≠ .partlyPacked := by
  have hreads : ∀ s, item.state = s → s ≠ .packingNow → s ≠ .skipped → Reads s item := by
    rintro s rfl hnow hskipped
    exact ⟨hmode, (if_neg hskipped).trans (h.reads hnow hskipped).symm⟩
  exact ⟨fun hs => hdecided (.inl (hreads _ hs (by decide) (by decide))),
    fun hs => hdecided (.inr (hreads _ hs (by decide) (by decide)))⟩

/-! ## The writes -/

theorem mem_writes {w : String × PackFields} : w ∈ (planPackingClose items isClaimed tasks).writes ↔
    (∃ item ∈ items, Reads .opened item ∧ w = (item.id, closeRowUnpacked)) ∨
      ∃ item ∈ items, Reads .partlyPacked item ∧ w = (item.id, closeRowPartlyPacked item.packedCount) := by
  rw [planPackingClose_eq]
  simp [ClosePackingPlan.writes, and_assoc, eq_comm]

/-- The writes to one row. -/
theorem foldl_writes (fields : PackFields)
    (hpaint : ∀ row : PackRow, (row.paint fields).paint fields = row.paint fields)
    {ws : List (String × PackFields)} (hws : ∀ w ∈ ws, w.1 = item.id → w = (item.id, fields)) :
    ws.foldl (fun item w => if item.id = w.1 then { item with toPackRow := item.toPackRow.paint w.2 } else item) item =
      if ∃ w ∈ ws, w.1 = item.id then { item with toPackRow := item.toPackRow.paint fields } else item :=
  Keyed.foldl_agree (f := fun w item => { item with toPackRow := item.toPackRow.paint w.2 }) (fun _ _ => rfl)
    (congrArg (fun row => { item with toPackRow := row }) (hpaint item.toPackRow)) hws

/-- **What the writes make of the list.** -/
theorem closeRows_eq (hids : (items.map (·.id)).Nodup) :
    (planPackingClose items isClaimed tasks).closeRows items = items.map TripItem.decidedRow := by
  refine (Keyed.foldl_map _ _ _).trans (List.map_congr_left fun item hitem => ?_)
  have hone : ∀ other ∈ items, other.id = item.id → other = item :=
    fun other hother hid => List.inj_on_of_nodup_map hids hother hitem hid
  rcases decidedRow_cases item with h | h | h
  · refine (foldl_writes closeRowUnpacked (fun _ => rfl) fun w hw hid => ?_).trans ?_
    · obtain ⟨other, hother, -, rfl⟩ | ⟨other, hother, hpartly, rfl⟩ := mem_writes.1 hw
      · rw [hone other hother hid]
      · rw [hone other hother hid] at hpartly
        exact absurd hpartly (not_partly_of_opened h)
    · rw [if_pos ⟨_, mem_writes.2 (.inl ⟨item, hitem, h, rfl⟩), rfl⟩, decidedRow_of_opened h]
  · refine (foldl_writes (closeRowPartlyPacked item.packedCount) (fun _ => rfl) fun w hw hid => ?_).trans ?_
    · obtain ⟨other, hother, hopened, rfl⟩ | ⟨other, hother, -, rfl⟩ := mem_writes.1 hw
      · rw [hone other hother hid] at hopened
        exact absurd h (not_partly_of_opened hopened)
      · rw [hone other hother hid]
    · rw [if_pos ⟨_, mem_writes.2 (.inr ⟨item, hitem, h, rfl⟩), rfl⟩, decidedRow_of_partly h]
  · have hnone : ∀ w ∈ (planPackingClose items isClaimed tasks).writes, w.1 ≠ item.id := by
      intro w hw hid
      obtain ⟨other, hother, hreads, rfl⟩ | ⟨other, hother, hreads, rfl⟩ := mem_writes.1 hw
      · exact h (.inl (hone other hother hid ▸ hreads))
      · exact h (.inr (hone other hother hid ▸ hreads))
    refine (foldl_writes closeRowUnpacked (fun _ => rfl) fun w hw hid => absurd hid (hnone w hw)).trans ?_
    rw [if_neg fun ⟨w, hw, hid⟩ => hnone w hw hid, decidedRow_of_not h]

/-- The rows that cross. -/
theorem carryRows_eq (plan : ClosePackingPlan) (now : String) (items : List TripItem) : plan.carryRows now items =
    items.map fun item => if item.id ∈ plan.buyRows.map (·.id) then
      { item with mode := .buyLocal, carriedOverAt := some now } else item := by
  refine (Keyed.foldl_map _ _ _).trans (List.map_congr_left fun item _ => ?_)
  have hcarry := Keyed.foldl_agree (f := fun (_ : String) (item : TripItem) =>
    { item with mode := .buyLocal, carriedOverAt := some now }) (fun _ _ => rfl) rfl
    fun w (_ : w ∈ plan.buyRows.map (·.id)) (hid : id w = item.id) => hid
  refine hcarry.trans ?_
  simp

/-- What crossing makes of a task. -/
theorem foldl_moved (tag : String → ClosingTask → Option String) (ids : List String) (task : ClosingTask) :
    let moved := ids.foldl (fun task taskId => if task.id = taskId then
      { task with phase := some .during, taskTagId := tag taskId task } else task) task
    moved.id = task.id ∧ moved.taskState = task.taskState ∧
      moved.phase = if task.id ∈ ids then some .during else task.phase := by
  induction ids generalizing task with
  | nil => simp
  | cons taskId ids ih =>
    rw [List.foldl_cons]
    by_cases hid : task.id = taskId
    · rw [if_pos hid]
      obtain ⟨hid', hstate, hphase⟩ := ih { task with phase := some .during, taskTagId := tag taskId task }
      refine ⟨hid', hstate, hphase.trans ?_⟩
      rw [if_pos (List.mem_cons.2 (.inl hid)), ite_self]
    · rw [if_neg hid]
      simpa [hid] using ih task

/-- The tasks that cross. -/
theorem mem_moveTasks {task : ClosingTask} {tagId : Option String}
    (h : task ∈ plan.moveTasks tagId tasks) : ∃ old ∈ tasks, task.id = old.id ∧ task.taskState = old.taskState ∧
      task.phase = if old.id ∈ plan.tasks.map (·.id) then some .during else old.phase := by
  have hmap := Keyed.foldl_map (fun (taskId : String) (task : ClosingTask) => if task.id = taskId then
    { task with
      phase := some .during
      taskTagId := if taskId ∈ (tasksToFileAsCarried plan.tasks).map (·.id) then tagId.or task.taskTagId
        else task.taskTagId }
    else task) (plan.tasks.map (·.id)) tasks
  have hmem := (congrArg (task ∈ ·) hmap).mp h
  obtain ⟨old, hold, rfl⟩ := List.mem_map.1 hmem
  exact ⟨old, hold, foldl_moved _ _ old⟩

/-! ## The close -/

/-- A list of which the rows of a plan are decided. -/
structure Closed (items : List TripItem) (plan : ClosePackingPlan) (rows : List TripItem) : Prop where
  planned : ∀ item, item ∈ plan.rows ↔ item ∈ plan.skip ∨ item ∈ plan.trim
  length : rows.length = items.length
  decided : ∀ row ∈ rows, row.mode = .pack → row.reads ≠ .opened ∧ row.reads ≠ .partlyPacked ∧
    row.state ≠ .opened ∧ row.state ≠ .partlyPacked
  outside : ∀ (i : ℕ) item, items[i]? = some item → item ∉ plan.rows → rows[i]? = some item
  released : ∀ (i : ℕ) item, items[i]? = some item → item ∈ plan.rows →
    ∃ row, rows[i]? = some row ∧ row.id = item.id ∧ row.packingNowBy = none ∧ row.packingNowAt = none
  total : (rows.map (·.packedCount)).sum = (items.map (·.packedCount)).sum
  finished : packingIsFinished rows = true ↔ ∃ row ∈ rows, Reads .packed row

theorem mem_rows : item ∈ (planPackingClose items isClaimed tasks).rows ↔
    item ∈ items ∧ (Reads .opened item ∨ Reads .partlyPacked item) := by
  rw [planPackingClose_eq]
  simp

/-- Where no row reads open or packed in part, the packing is finished if one is packed. -/
theorem finished_of_decided (h : ∀ item ∈ items, ¬ (Reads .opened item ∨ Reads .partlyPacked item)) :
    packingIsFinished items = true ↔ ∃ item ∈ items, Reads .packed item := by
  refine packingIsFinished_iff.trans (and_iff_right fun item hitem hmode => ?_)
  have hnow : item.reads ≠ .packingNow := by
    unfold TripItem.reads
    split
    · decide
    · exact stateFor_ne_packingNow
  cases hreads : item.reads with
  | opened => exact absurd (.inl ⟨hmode, hreads⟩) (h item hitem)
  | partlyPacked => exact absurd (.inr ⟨hmode, hreads⟩) (h item hitem)
  | packingNow => exact absurd hreads hnow
  | packed => exact .inl rfl
  | skipped => exact .inr rfl

theorem closed_closeRows (hids : (items.map (·.id)).Nodup) (hitems : ∀ item ∈ items, Numbered item.toPackRow) :
    Closed items (planPackingClose items isClaimed tasks)
      ((planPackingClose items isClaimed tasks).closeRows items) := by
  rw [closeRows_eq hids]
  have hdecided : ∀ row ∈ items.map TripItem.decidedRow, ¬ (Reads .opened row ∨ Reads .partlyPacked row) := by
    intro row hrow
    obtain ⟨item, -, rfl⟩ := List.mem_map.1 hrow
    exact reads_decidedRow
  refine
    { planned := fun item => ?_
      length := List.length_map _
      decided := fun row hrow hmode => ?_
      outside := fun i item hitem hnot => ?_
      released := fun i item hitem hplan => ?_
      total := ?_
      finished := finished_of_decided hdecided }
  · rw [mem_rows, planPackingClose_eq]
    simp [and_or_left]
  · obtain ⟨item, hitem, rfl⟩ := List.mem_map.1 hrow
    obtain ⟨hopened, hpartly⟩ := (hitems item hitem).decidedRow.state_ne hmode reads_decidedRow
    exact ⟨fun hreads => reads_decidedRow (.inl ⟨hmode, hreads⟩), fun hreads => reads_decidedRow (.inr ⟨hmode, hreads⟩),
      hopened, hpartly⟩
  · rw [List.getElem?_map, hitem, Option.map_some,
      decidedRow_of_not fun hreads => hnot (mem_rows.2 ⟨List.mem_of_getElem? hitem, hreads⟩)]
  · refine ⟨item.decidedRow, by rw [List.getElem?_map, hitem, Option.map_some], id_decidedRow, ?_⟩
    rcases (mem_rows.1 hplan).2 with hreads | hreads
    · rw [decidedRow_of_opened hreads]
      exact ⟨rfl, rfl⟩
    · rw [decidedRow_of_partly hreads]
      exact ⟨rfl, rfl⟩
  · rw [List.map_map]
    exact congrArg List.sum (List.map_congr_left fun item hitem => packedCount_decidedRow (hitems item hitem).nonneg)

end

/-- **Closing the packing.** Afterwards no row of the packing list is open or packed in part, what is outside the plan
is as it was, nothing that is packed is lost and nobody holds a row that was decided; once tasks and rows have crossed as
well, there is nothing left to plan, and the packing is finished if anything is packed. -/
theorem closePacking_spec (items : List TripItem) (tasks : List ClosingTask) (isClaimed isClaimed' : TripItem → Bool)
    (tagId : Option String) (now : String) (hids : (items.map (·.id)).Nodup)
    (hitems : ∀ item ∈ items, Numbered item.toPackRow) :
    let plan := planPackingClose items isClaimed tasks
    let rows := plan.closeRows items
    let carried := plan.carryRows now rows
    Closed items plan rows ∧ planPackingClose carried isClaimed' (plan.moveTasks tagId tasks) = .empty ∧
      (packingIsFinished carried = true ↔ ∃ row ∈ carried, Reads .packed row) := by
  intro plan rows carried
  have hcarried : ∀ row ∈ carried, ¬ (Reads .opened row ∨ Reads .partlyPacked row) ∧ row.mode ≠ .buyBefore := by
    intro row hrow
    rw [show carried = _ from carryRows_eq plan now rows, show rows = _ from closeRows_eq hids] at hrow
    simp only [List.mem_map, exists_exists_and_eq_and] at hrow
    obtain ⟨item, hitem, rfl⟩ := hrow
    split
    · refine ⟨?_, nofun⟩
      rintro (h | h) <;> cases h.1
    · next hnot =>
      refine ⟨reads_decidedRow, fun hmode => hnot ?_⟩
      rw [mode_decidedRow] at hmode
      rw [id_decidedRow]
      exact ⟨item, List.mem_filter.2 ⟨hitem, decide_eq_true hmode⟩, rfl⟩
  have htasks : tasksCrossing (plan.moveTasks tagId tasks) = [] := by
    refine List.filter_eq_nil_iff.2 fun task htask hcrossing => ?_
    obtain ⟨old, hold, -, hstate, hphase⟩ := mem_moveTasks htask
    obtain ⟨hopened, hbefore⟩ := of_decide_eq_true hcrossing
    rw [taskPhaseOf, hphase] at hbefore
    split at hbefore
    · cases hbefore
    · next hnot =>
      refine hnot (List.mem_map_of_mem (List.mem_filter.2 ⟨hold, decide_eq_true ⟨hstate.symm.trans hopened, hbefore⟩⟩))
  refine ⟨closed_closeRows hids hitems, ?_, finished_of_decided fun row hrow => (hcarried row hrow).1⟩
  have hnone : ∀ p : TripItem → Prop, (h : DecidablePred p) →
      (∀ row, p row → (Reads .opened row ∨ Reads .partlyPacked row) ∨ row.mode = .buyBefore) →
      carried.filter (p ·) = [] := by
    intro p _ hp
    refine List.filter_eq_nil_iff.2 fun row hrow h => ?_
    rcases hp row (of_decide_eq_true h) with hreads | hmode
    · exact (hcarried row hrow).1 hreads
    · exact (hcarried row hrow).2 hmode
  simp only [planPackingClose_eq, htasks, rowsCrossingToLocal, List.countP_eq_length_filter]
  rw [hnone _ _ fun row h => .inl (.inl h), hnone _ _ fun row h => .inl (.inr h), hnone _ _ fun row h => .inl h,
    hnone _ _ fun row h => .inl h.1, hnone _ _ fun row h => .inl h.1, hnone _ _ fun row h => .inr h]
  rfl

/-- Six socks of which four are packed; ben holds them. -/
def socks : TripItem where
  id := "socks"
  latePacker := false
  carriedOverAt := none
  quantity := 6
  packedCount := 4
  state := .packingNow
  mode := .pack
  packedAt := none
  packingNowBy := some "ben"
  packingNowAt := some "08:00"
  boughtFrom := none
  boughtAt := none
  boughtByUserId := none

theorem socks_closed :
    let plan := planPackingClose [socks] (fun _ => true) []
    let rows := plan.closeRows [socks]
    let carried := plan.carryRows "09:00" rows
    Closed [socks] plan rows ∧ planPackingClose carried (fun _ => false) (plan.moveTasks none []) = .empty ∧
      (packingIsFinished carried = true ↔ ∃ row ∈ carried, Reads .packed row) :=
  closePacking_spec [socks] [] (fun _ => true) (fun _ => false) none "09:00" (by decide) fun item hitem => by
    rw [List.mem_singleton.1 hitem]
    exact ⟨by decide, fun hnow => absurd rfl hnow⟩

end PackingClose

end JitPack
