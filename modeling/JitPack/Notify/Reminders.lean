import JitPack.Lib.Machine
import JitPack.Notify.Due

/-!
# The runs of the reminders

`remindTimed` of `internal/notify/timed.go` and `remindDue` of `due.go`, with the two rows of `server_keys` they go
by: the mark that the timed run advances, and the day that the daily run claims. Both write before they look up what
is due. A run takes what it needs from outside: the instant, the answers of the store, and which lookups fail.

A timed task is planned by the first run that reads its moment or a later one, and by no other (`mem_planned`). A
day is claimed anew whenever the run before it was on another one (`sentRuns_eq`).
-/

namespace JitPack

/-- What the store answers to a write: it is done, it is not done, or it is done and the answer is an error. -/
inductive StoreWrite where
  | done
  | failed
  | unconfirmed
  deriving DecidableEq

/-! ## The timed run -/

/-- `AdvanceTimedReminderMark`: where the mark stood, whether there is something to send, and where it stands. -/
def advanceTimedReminderMark (mark : Option String) (moment : String) : String × Bool × Option String :=
  match mark with
  | none => ("", false, some moment)
  | some since => if moment ≤ since then (since, false, some since) else (since, since ≠ "", some moment)

/-- What a timed run takes from outside. -/
structure TimedRun where
  now : Int
  mark : StoreWrite
  tasksFail : Bool
  membersFail : String → Bool

section
variable (z : Zone) (db : TaskTables) (members : String → Members)

/-- `tripMembers`: a list that cannot be read is empty. -/
def readMembers (membersFail : String → Bool) (trip : String) : List MemberName :=
  if membersFail trip then [] else (members trip).list

/-- The moment that the clock of the run shows. -/
def TimedRun.moment (r : TimedRun) : String := (z.wall r.now).moment

/-- `remindTimed`. -/
def remindTimed (mark : Option String) (r : TimedRun) : List PlannedNotification × Option String :=
  let today := (z.wall r.now).day
  match r.mark, advanceTimedReminderMark mark (r.moment z) with
  | .failed, _ => ([], mark)
  | .unconfirmed, (_, _, mark) => ([], mark)
  | .done, (_, false, mark) => ([], mark)
  | .done, (since, true, mark) =>
    if r.tasksFail then ([], mark)
    else (planTimedTaskDue (db.dueTasks [today]) today (since, r.moment z) (readMembers members r.membersFail), mark)

/-- The timed runs, on the mark. -/
def timedReminders : Machine (Option String) TimedRun (List PlannedNotification) where
  step mark r := remindTimed z db members mark r

/-- What the runs on a server that is new to the feature plan together. -/
def plannedTimed (runs : List TimedRun) : List PlannedNotification :=
  ((timedReminders z db members).outputs none runs).flatten

end

/-- The mark is where the run puts it. -/
def TimedRun.lands (r : TimedRun) : Bool := r.mark ≠ .failed

/-- The run can read what it needs for a trip. -/
def TimedRun.works (r : TimedRun) (trip : String) : Bool := r.mark = .done && !r.tasksFail && !r.membersFail trip

/-- The first run that reads a moment or a later one. -/
def caughtBy (z : Zone) (moment : String) (runs : List TimedRun) : Option TimedRun :=
  runs.find? fun r => r.lands && moment ≤ r.moment z

/-- The reminder of a task is owed: its moment lies after the first run, and a run that works reads it or a later one
on its day. -/
structure ReminderOwed (z : Zone) (runs : List TimedRun) (day : Day) (task : DueTask) : Prop where
  after_first : ∃ first, runs.find? (·.lands) = some first ∧ first.moment z < day.at task.dueTime
  run : ∃ r ∈ runs, r.works task.tripId ∧ (z.wall r.now).day = day ∧ day.at task.dueTime ≤ r.moment z

/-- Timed reminders go out once: nobody is reminded of a task twice, and everybody a task is for is reminded of it
if its reminder is owed. -/
structure TimedOnce (z : Zone) (db : TaskTables) (members : String → Members) (runs : List TimedRun) : Prop where
  once : ((plannedTimed z db members runs).map (·.reminder)).Nodup
  owed : ∀ day, ∀ task ∈ db.dueTasks [day], task.dueTime ≠ "" → ReminderOwed z runs day task →
    ∀ user ∈ dueRecipients task.assignee (members task.tripId).list,
      (user, some task.id) ∈ (plannedTimed z db members runs).map (·.reminder)

/-! ### Tasks -/

section
variable {db : TaskTables} {d d' : Day} {task task' : DueTask}

theorem mem_dueTasks (h : task ∈ db.dueTasks [d]) :
    ∃ c ∈ db.comments, ∃ t, db.trips.find? (·.id = c.tripId) = some t ∧ db.due t c = some (d.number : Int) ∧
      task = ⟨c.id, c.tripId, c.body, d.number, c.readTime, c.assigneeUserId.getD ""⟩ := by
  simp only [TaskTables.dueTasks, List.mem_mergeSort, List.mem_filterMap, Option.bind_eq_bind,
    Option.bind_eq_some_iff] at h
  obtain ⟨c, hc, t, ht, due, hdue, htask⟩ := h
  split at htask
  · next hread =>
    obtain rfl : due = d.number := by simpa using hread.2.2.2
    exact ⟨c, hc, t, ht, hdue, (Option.some.inj htask).symm⟩
  · cases htask

/-- A task is due on one day only. -/
theorem dueTasks_unique (h : task ∈ db.dueTasks [d]) (h' : task' ∈ db.dueTasks [d']) (hid : task.id = task'.id) :
    d = d' ∧ task = task' := by
  obtain ⟨c, hc, t, ht, hdue, rfl⟩ := mem_dueTasks h
  obtain ⟨c', hc', t', ht', hdue', rfl⟩ := mem_dueTasks h'
  obtain rfl := List.inj_on_of_nodup_map db.comment_unique hc hc' hid
  rw [ht] at ht'
  cases ht'
  rw [hdue] at hdue'
  obtain rfl := Day.number_injective (Int.ofNat.inj (Option.some.inj hdue'))
  exact ⟨rfl, rfl⟩

/-- Asked about several days, the store lists what is due on one of them. -/
theorem mem_dueTasks_iff {days : List Day} : task ∈ db.dueTasks days ↔ ∃ d ∈ days, task ∈ db.dueTasks [d] := by
  simp only [TaskTables.dueTasks, List.mem_mergeSort, List.mem_filterMap, Option.bind_eq_bind, Option.bind_eq_some_iff,
    Option.ite_none_right_eq_some, List.mem_map, List.map_cons, List.map_nil, List.mem_singleton]
  constructor
  · rintro ⟨c, hc, t, ht, due, hdue, ⟨htask, hopen, hactive, d, hd, hday⟩, heq⟩
    exact ⟨d, hd, c, hc, t, ht, due, hdue, ⟨htask, hopen, hactive, hday.symm⟩, heq⟩
  · rintro ⟨d, hd, c, hc, t, ht, due, hdue, ⟨htask, hopen, hactive, hday⟩, heq⟩
    exact ⟨c, hc, t, ht, due, hdue, ⟨htask, hopen, hactive, d, hd, hday.symm⟩, heq⟩

theorem dueTasks_nodup (db : TaskTables) (days : List Day) : ((db.dueTasks days).map (·.id)).Nodup := by
  refine ((List.mergeSort_perm _ _).map _).nodup_iff.2 ?_
  have hsub : ∀ comments : List CommentRow, ((comments.filterMap fun c => do
      let t ← db.trips.find? (·.id = c.tripId)
      let due ← db.due t c
      if c.isTask ∧ c.taskState = some .opened ∧ t.status ≠ .archived ∧ due ∈ days.map fun day => (day.number : Int)
      then some (⟨c.id, c.tripId, c.body, due, c.readTime, c.assigneeUserId.getD ""⟩ : DueTask)
      else none).map (·.id)).Sublist (comments.map (·.id)) := by
    intro comments
    induction comments with
    | nil => exact .slnil
    | cons c cs ih =>
      rw [List.filterMap_cons]
      split
      · exact ih.cons _
      · next task htask =>
        have hid : task.id = c.id := by
          simp only [Option.bind_eq_bind, Option.bind_eq_some_iff] at htask
          obtain ⟨t, -, due, -, htask⟩ := htask
          split at htask
          · rw [← Option.some.inj htask]
          · cases htask
        rw [List.map_cons, List.map_cons, hid]
        exact ih.cons_cons _
  exact (hsub db.comments).nodup db.comment_unique

end

/-! ### One run -/

section
variable {z : Zone} {db : TaskTables} {members : String → Members} {mark : Option String} {r : TimedRun}
variable {runs : List TimedRun} {d : Day} {task : DueTask} {user : String} {since : String}

theorem advance_mark (since moment : String) :
    (advanceTimedReminderMark (some since) moment).2.2 = some (max since moment) := by
  unfold advanceTimedReminderMark
  dsimp only
  split
  · next h => rw [max_eq_left h]
  · next h => rw [max_eq_right (not_le.1 h).le]

/-- The mark after a run. -/
theorem remindTimed_mark : (remindTimed z db members mark r).2 =
    if r.lands then some (mark.elim (r.moment z) (max · (r.moment z))) else mark := by
  have hadvance : (advanceTimedReminderMark mark (r.moment z)).2.2 = some (mark.elim (r.moment z) (max · (r.moment z))) := by
    cases mark with
    | none => rfl
    | some since => exact advance_mark since _
  rw [← hadvance]
  unfold remindTimed TimedRun.lands
  cases hmark : r.mark with
  | failed => rfl
  | unconfirmed => rfl
  | done =>
    obtain ⟨since, ok, mark'⟩ := advanceTimedReminderMark mark (r.moment z)
    cases ok with
    | false => rfl
    | true =>
      dsimp only
      split <;> rfl

/-- Whom a run reminds. -/
theorem mem_remindTimed {id : Option String} :
    (user, id) ∈ (remindTimed z db members mark r).1.map (·.reminder) ↔ r.mark = .done ∧ r.tasksFail = false ∧
      ∃ since, mark = some since ∧ since ≠ "" ∧ since < r.moment z ∧
        (user, id) ∈ (planTimedTaskDue (db.dueTasks [(z.wall r.now).day]) (z.wall r.now).day (since, r.moment z)
          (readMembers members r.membersFail)).map (·.reminder) := by
  unfold remindTimed
  cases hmark : r.mark with
  | failed => simp
  | unconfirmed => simp
  | done =>
    cases mark with
    | none => simp [advanceTimedReminderMark]
    | some since =>
      unfold advanceTimedReminderMark
      dsimp only
      by_cases hto : r.moment z ≤ since
      · rw [if_pos hto]
        refine iff_of_false List.not_mem_nil ?_
        rintro ⟨-, -, _, heq, -, hlt, -⟩
        cases heq
        exact absurd hlt (not_lt.2 hto)
      rw [if_neg hto]
      by_cases hsince : since = ""
      · rw [decide_eq_false (not_not.2 hsince)]
        refine iff_of_false List.not_mem_nil ?_
        rintro ⟨-, -, _, heq, hne, -⟩
        cases heq
        exact hne hsince
      rw [decide_eq_true hsince]
      dsimp only
      cases r.tasksFail with
      | true => simp
      | false =>
        constructor
        · intro hmem
          exact ⟨rfl, rfl, since, rfl, hsince, not_le.1 hto, hmem⟩
        · rintro ⟨-, -, _, heq, -, -, hmem⟩
          cases heq
          exact hmem

/-- A run reminds somebody of a task exactly if the moment of the task lies between the mark and the clock, on the day
of the task. -/
theorem mem_remindTimed_task (h : task ∈ db.dueTasks [d]) (htime : task.dueTime ≠ "") :
    (user, some task.id) ∈ (remindTimed z db members mark r).1.map (·.reminder) ↔
      (∃ since, mark = some since ∧ since ≠ "" ∧ since < d.at task.dueTime) ∧ d.at task.dueTime ≤ r.moment z ∧
        r.mark = .done ∧ r.tasksFail = false ∧ (z.wall r.now).day = d ∧
        user ∈ dueRecipients task.assignee (readMembers members r.membersFail task.tripId) := by
  rw [mem_remindTimed]
  simp only [planTimedTaskDue_reminders, mem_reminders]
  constructor
  · rintro ⟨hdone, htasks, since, rfl, hsince, hlt, task', htask', hid, huser⟩
    obtain ⟨rfl, rfl⟩ := dueTasks_unique h htask' hid.symm
    split at huser
    · next hwindow =>
      exact ⟨⟨since, rfl, hsince, lt_of_le_of_lt (le_max_left ..) hwindow.2.2.1⟩, hwindow.2.2.2, hdone, htasks, rfl,
        huser⟩
    · exact absurd huser List.not_mem_nil
  · rintro ⟨⟨since, rfl, hsince, hlt⟩, hto, hdone, htasks, rfl, huser⟩
    refine ⟨hdone, htasks, since, rfl, hsince, hlt.trans_le hto, task, h, rfl, ?_⟩
    obtain ⟨c, -, t, -, -, htask⟩ := mem_dueTasks h
    rw [if_pos ⟨by rw [htask], htime, max_lt hlt (Day.start_lt_at htime), hto⟩]
    exact huser

/-- What a run plans is the reminder of a task that the mark has passed when the run ends. -/
theorem remindTimed_passes {id : Option String}
    (h : (user, id) ∈ (remindTimed z db members mark r).1.map (·.reminder)) :
    ∃ d, ∃ task ∈ db.dueTasks [d], task.dueTime ≠ "" ∧ id = some task.id ∧
      ∃ since, (remindTimed z db members mark r).2 = some since ∧ d.at task.dueTime ≤ since := by
  obtain ⟨hdone, -, since, rfl, -, hlt, hmem⟩ := mem_remindTimed.1 h
  rw [planTimedTaskDue_reminders] at hmem
  obtain ⟨task, htask, huser⟩ := List.mem_flatMap.1 hmem
  obtain ⟨user', huser, heq⟩ := List.mem_map.1 huser
  dsimp only at huser
  split at huser
  · next hwindow =>
    refine ⟨_, task, htask, hwindow.2.1, (Prod.mk.inj heq).2.symm, r.moment z, ?_, hwindow.2.2.2⟩
    rw [remindTimed_mark, if_pos (by simp [TimedRun.lands, hdone])]
    exact congrArg some (max_eq_right hlt.le)
  · cases huser

theorem remindTimed_nodup : ((remindTimed z db members mark r).1.map (·.reminder)).Nodup := by
  unfold remindTimed
  dsimp only
  split
  · exact List.nodup_nil
  · exact List.nodup_nil
  · exact List.nodup_nil
  · split
    · exact List.nodup_nil
    · rw [planTimedTaskDue_reminders]
      refine nodup_reminders (dueTasks_nodup ..) fun task => ?_
      split
      · refine nodup_dueRecipients ?_
        unfold readMembers
        split
        · exact List.nodup_nil
        · exact (members _).unique
      · exact List.nodup_nil

/-! ### Every run -/

/-- What the runs plan from a mark on. -/
def plannedFrom (z : Zone) (db : TaskTables) (members : String → Members) (mark : Option String)
    (runs : List TimedRun) : List (String × Option String) :=
  ((timedReminders z db members).outputs mark runs).flatten.map (·.reminder)

theorem plannedFrom_cons : plannedFrom z db members mark (r :: runs) =
    (remindTimed z db members mark r).1.map (·.reminder) ++
      plannedFrom z db members (remindTimed z db members mark r).2 runs := by
  rw [plannedFrom, Machine.outputs_cons, List.flatten_cons, List.map_append]
  rfl

/-- A moment that the mark has passed is not planned any more. -/
theorem plannedFrom_passed (h : task ∈ db.dueTasks [d]) (htime : task.dueTime ≠ "") (hle : d.at task.dueTime ≤ since) :
    (user, some task.id) ∉ plannedFrom z db members (some since) runs := by
  induction runs generalizing since with
  | nil => exact List.not_mem_nil
  | cons r rs ih =>
    rw [plannedFrom_cons, List.mem_append, mem_remindTimed_task h htime]
    rintro (⟨⟨since', hsince, -, hlt⟩, -⟩ | hmem)
    · cases hsince
      exact absurd hlt (not_lt.2 hle)
    · rw [remindTimed_mark] at hmem
      split at hmem
      · exact ih (hle.trans (le_max_left ..)) hmem
      · exact ih hle hmem

/-- **Nobody is reminded of a task twice.** -/
theorem plannedFrom_nodup : (plannedFrom z db members mark runs).Nodup := by
  induction runs generalizing mark with
  | nil => exact List.nodup_nil
  | cons r rs ih =>
    rw [plannedFrom_cons]
    refine List.nodup_append.2 ⟨remindTimed_nodup, ih, ?_⟩
    rintro ⟨user, id⟩ hmem _ hmem' rfl
    obtain ⟨d, task, htask, htime, rfl, since, hmark, hle⟩ := remindTimed_passes hmem
    rw [hmark] at hmem'
    exact plannedFrom_passed htask htime hle hmem'

/-- A moment that the mark has not passed is planned by the first run that reads it or a later one. -/
theorem mem_plannedFrom (h : task ∈ db.dueTasks [d]) (htime : task.dueTime ≠ "") (hsince : since ≠ "")
    (hlt : since < d.at task.dueTime) :
    (user, some task.id) ∈ plannedFrom z db members (some since) runs ↔
      ∃ r, caughtBy z (d.at task.dueTime) runs = some r ∧ r.mark = .done ∧ r.tasksFail = false ∧
        (z.wall r.now).day = d ∧ user ∈ dueRecipients task.assignee (readMembers members r.membersFail task.tripId) := by
  induction runs generalizing since with
  | nil => simp [plannedFrom, caughtBy]
  | cons r rs ih =>
    rw [plannedFrom_cons, List.mem_append, mem_remindTimed_task h htime, remindTimed_mark, caughtBy, List.find?_cons]
    cases hlands : r.lands with
    | false =>
      have hmark : r.mark ≠ .done := fun hdone => by simp [TimedRun.lands, hdone] at hlands
      simp only [hmark, false_and, and_false, false_or, Bool.false_and, Bool.false_eq_true, if_false]
      exact ih hsince hlt
    | true =>
      simp only [Bool.true_and, if_true, Option.elim]
      by_cases hto : d.at task.dueTime ≤ r.moment z
      · have hpassed : (user, some task.id) ∉ plannedFrom z db members (some _) rs :=
          plannedFrom_passed h htime (hto.trans (le_max_right since _))
        rw [or_iff_left hpassed, decide_eq_true hto]
        constructor
        · rintro ⟨-, -, hplan⟩
          exact ⟨r, rfl, hplan⟩
        · rintro ⟨_, heq, hplan⟩
          cases heq
          exact ⟨⟨since, rfl, hsince, hlt⟩, hto, hplan⟩
      · simp only [hto, false_and, and_false, false_or, decide_false]
        have hmax : max since (r.moment z) ≠ "" := by
          rcases max_choice since (r.moment z) with heq | heq
          · rwa [heq]
          · rw [heq]
            exact Wall.moment_ne _
        exact ih hmax (max_lt hlt (not_le.1 hto))

/-- **The reminder of a task is planned by the first run that reads its moment or a later one**, if that is not the
first run of all. -/
theorem mem_planned (h : task ∈ db.dueTasks [d]) (htime : task.dueTime ≠ "") :
    (user, some task.id) ∈ (plannedTimed z db members runs).map (·.reminder) ↔
      (∃ first, runs.find? (·.lands) = some first ∧ first.moment z < d.at task.dueTime) ∧
        ∃ r, caughtBy z (d.at task.dueTime) runs = some r ∧ r.mark = .done ∧ r.tasksFail = false ∧
          (z.wall r.now).day = d ∧
          user ∈ dueRecipients task.assignee (readMembers members r.membersFail task.tripId) := by
  change (user, some task.id) ∈ plannedFrom z db members none runs ↔ _
  induction runs with
  | nil => simp [plannedFrom]
  | cons r rs ih =>
    rw [plannedFrom_cons, List.mem_append, mem_remindTimed_task h htime, remindTimed_mark, caughtBy, List.find?_cons,
      List.find?_cons]
    cases hlands : r.lands with
    | false =>
      simp only [reduceCtorEq, false_and, exists_false, false_or, Bool.false_and, Bool.false_eq_true, if_false]
      exact ih
    | true =>
      simp only [Bool.true_and, if_true, Option.elim, reduceCtorEq, false_and, exists_false, false_or]
      by_cases hto : d.at task.dueTime ≤ r.moment z
      · have hpassed : (user, some task.id) ∉ plannedFrom z db members (some _) rs :=
          plannedFrom_passed h htime hto
        refine iff_of_false hpassed ?_
        rintro ⟨⟨_, heq, hlt⟩, -⟩
        cases heq
        exact absurd hlt (not_lt.2 hto)
      · simp only [hto, decide_false, Option.some.injEq, exists_eq_left', not_le.1 hto, true_and]
        exact mem_plannedFrom h htime (Wall.moment_ne _) (not_le.1 hto)

theorem mem_dueRecipients_read {assignee trip : String} {membersFail : String → Bool} :
    user ∈ dueRecipients assignee (readMembers members membersFail trip) ↔
      membersFail trip = false ∧ user ∈ dueRecipients assignee (members trip).list := by
  unfold readMembers
  cases membersFail trip with
  | true => simp [dueRecipients, displayNameOf]
  | false => simp only [Bool.false_eq_true, if_false, true_and]

/-- **Timed reminders go out once exactly if the first run that reads the moment of an owed reminder, or a later one,
is on the day of the task and can read what it needs.** -/
theorem timedOnce_iff (z : Zone) (db : TaskTables) (members : String → Members) (runs : List TimedRun) :
    TimedOnce z db members runs ↔ ∀ day, ∀ task ∈ db.dueTasks [day], task.dueTime ≠ "" →
      dueRecipients task.assignee (members task.tripId).list ≠ [] → ReminderOwed z runs day task →
        ∃ r, caughtBy z (day.at task.dueTime) runs = some r ∧ r.works task.tripId = true ∧ (z.wall r.now).day = day := by
  constructor
  · intro h day task htask htime hsome howed
    obtain ⟨user, huser⟩ := List.exists_mem_of_ne_nil _ hsome
    obtain ⟨-, r, hcaught, hdone, htasks, hday, hread⟩ :=
      (mem_planned htask htime).1 (h.owed day task htask htime howed user huser)
    have hmembers := (mem_dueRecipients_read.1 hread).1
    exact ⟨r, hcaught, by simp [TimedRun.works, hdone, htasks, hmembers], hday⟩
  · intro h
    refine ⟨plannedFrom_nodup, fun day task htask htime howed user huser => ?_⟩
    obtain ⟨r, hcaught, hworks, hday⟩ := h day task htask htime (List.ne_nil_of_mem huser) howed
    simp only [TimedRun.works, Bool.and_eq_true, decide_eq_true_eq, Bool.not_eq_true'] at hworks
    obtain ⟨⟨hdone, htasks⟩, hmembers⟩ := hworks
    exact (mem_planned htask htime).2
      ⟨howed.after_first, r, hcaught, hdone, htasks, hday, mem_dueRecipients_read.2 ⟨hmembers, huser⟩⟩

end

/-- 8 July 2026. -/
def eighthOfJuly : Day := ⟨2026, 7, 8, year_2026_le, july_mem, by decide⟩

/-- A clock that counts the minutes of 8 July 2026. -/
def julyZone : Zone where
  wall n := ⟨eighthOfJuly, n.toNat / 60 % 24, n.toNat % 60, Nat.mod_lt _ (by decide), Nat.mod_lt _ (by decide)⟩
  date _ hour minute := hour * 60 + minute

/-- A task due on 8 July 2026 at nine. -/
def nineOClock : CommentRow :=
  { weekBefore (some (julyZone.wall 540).time) with
    dueDate := some eighthOfJuly, anchorKind := none, anchorLeadDays := none }

def nineOClockTables : TaskTables :=
  { weekBeforeTables none with
    comments := [nineOClock]
    comment_unique := List.nodup_singleton _
    idea_trip := fun _ _ _ h => absurd h List.not_mem_nil
    dayEntry_trip := fun _ _ _ h => absurd h List.not_mem_nil }

/-- Ann is the only member of the trip. -/
def onlyAnn : Members := ⟨[⟨"ann", "Ann"⟩], List.nodup_singleton _⟩

/-- A run in which nothing fails but what is said. -/
def TimedRun.plain (now : Int) (tasksFail : Bool) : TimedRun := ⟨now, .done, tasksFail, fun _ => false⟩

/-- The run at nine cannot read the tasks, and the next one looks only for what came after nine. -/
theorem lost_lookup_loses_reminder : ¬ TimedOnce julyZone nineOClockTables (fun _ => onlyAnn)
    [.plain 480 false, .plain 540 true, .plain 541 false] := by
  intro h
  have htask : (⟨"task", "trip", "Pass", eighthOfJuly.number, (julyZone.wall 540).time, ""⟩ : DueTask) ∈
      nineOClockTables.dueTasks [eighthOfJuly] := by
    simp only [TaskTables.dueTasks, List.mem_mergeSort]
    exact List.mem_singleton_self _
  have hlt {a b : Int} (hab : (julyZone.wall a).minutes < (julyZone.wall b).minutes) :
      (julyZone.wall a).moment < (julyZone.wall b).moment := Wall.moment_lt_iff.2 hab
  have hfirst : (julyZone.wall 480).moment < (julyZone.wall 540).moment := hlt (by decide)
  have hlast : (julyZone.wall 540).moment < (julyZone.wall 541).moment := hlt (by decide)
  have htime : (julyZone.wall 540).time ≠ "" := by
    intro hempty
    simpa [Wall.time] using congrArg String.toList hempty
  have howed : ReminderOwed julyZone [.plain 480 false, .plain 540 true, .plain 541 false] eighthOfJuly
      ⟨"task", "trip", "Pass", eighthOfJuly.number, (julyZone.wall 540).time, ""⟩ :=
    ⟨⟨_, rfl, hfirst⟩, _, List.mem_cons_of_mem _ (List.mem_cons_of_mem _ (List.mem_singleton_self _)), rfl, rfl,
      hlast.le⟩
  have hmem := h.owed _ _ htask htime howed "ann" (List.mem_singleton_self _)
  obtain ⟨-, r, hcaught, -, htasks, -⟩ := (mem_planned htask htime).1 hmem
  have hcaught' : caughtBy julyZone (julyZone.wall 540).moment
      [.plain 480 false, .plain 540 true, .plain 541 false] = some (.plain 540 true) := by
    unfold caughtBy
    rw [List.find?_cons_of_neg, List.find?_cons_of_pos]
    · exact Bool.and_eq_true_iff.2 ⟨rfl, decide_eq_true le_rfl⟩
    · intro hcatch
      exact absurd (of_decide_eq_true (Bool.and_eq_true_iff.1 hcatch).2) (not_le.2 hfirst)
  cases hcaught'.symm.trans hcaught
  cases htasks

/-! ## The daily run -/

/-- `ClaimTaskReminderDay`: whether the day was claimed, and the day that is claimed. -/
def claimTaskReminderDay (last : Option Day) (day : Day) : Bool × Option Day :=
  if last = some day then (false, last) else (true, some day)

/-- What a daily run takes from outside. -/
structure DailyRun where
  now : Int
  claim : StoreWrite
  tables : TaskTables
  tasksFail : Bool
  entries : Option (List DueShoppingEntry)
  excursions : Option (List DueExcursion)
  members : String → Option Members

/-- `time.Minute` in nanoseconds. -/
def minuteNs : Nat := 60 * 10 ^ 9

/-- `time.Hour` in nanoseconds. -/
def hourNs : Nat := 60 * minuteNs

section
variable (z : Zone) (time : Nat)

/-- The day that the clock of the run shows. -/
def DailyRun.today (r : DailyRun) : Day := (z.wall r.now).day

/-- `reminderTime`. -/
def reminderTime (now : Int) : Int := z.date (z.wall now).day (time / hourNs) (time % hourNs / minuteNs)

/-- `reminderDue`. -/
def reminderDue (now : Int) : Bool := !decide (now < reminderTime z time now)

/-- `remindDue`: what the run sends, if it does, and the day that is claimed. -/
def remindDue (last : Option Day) (r : DailyRun) : Option (List PlannedNotification) × Option Day :=
  let today := r.today z
  if !reminderDue z time r.now then (none, last)
  else match r.claim, claimTaskReminderDay last today with
    | .failed, _ => (none, last)
    | .unconfirmed, (_, last) => (none, last)
    | .done, (false, last) => (none, last)
    | .done, (true, last) =>
      match r.tasksFail, r.entries, r.excursions with
      | false, some entries, some excursions =>
        let members trip := ((r.members trip).getD .none).list
        (some (planTaskDue (r.tables.dueTasks (today :: today.next.toList)) today members ++
          planShoppingDue entries today members ++ planExcursionDue excursions today members), last)
      | _, _, _ => (none, last)

/-- The daily runs, on the claimed day. -/
def dailyReminders : Machine (Option Day) DailyRun (Option (List PlannedNotification)) where
  step last r := remindDue z time last r

/-- The runs that send, of runs from a claimed day on. -/
def sentFrom (last : Option Day) (runs : List DailyRun) : List DailyRun :=
  (runs.zip ((dailyReminders z time).outputs last runs)).filterMap fun (r, sent) => sent.map fun _ => r

/-- The runs that send, on a server that is new to the feature. -/
def sentRuns (runs : List DailyRun) : List DailyRun := sentFrom z time none runs

/-- The run is at or after the reminder time, and its claim reaches the store. -/
def DailyRun.claims (r : DailyRun) : Bool := reminderDue z time r.now && r.claim ≠ .failed

/-- The first run of every stretch of claiming runs on one day. -/
def openers (runs : List DailyRun) : List DailyRun :=
  (runs.filter (·.claims z time)).destutter fun a b => a.today z ≠ b.today z

/-- The run can read what is due. -/
def DailyRun.reads (r : DailyRun) : Bool :=
  r.claim = .done && !r.tasksFail && r.entries.isSome && r.excursions.isSome

/-- The run is at or after the reminder time and can read everything. -/
structure DailyRun.Works (r : DailyRun) : Prop where
  due : reminderDue z time r.now = true
  reads : r.reads = true
  members : ∀ trip, (r.members trip).isSome

/-- The daily reminder is sent once a day and not lost, and of what is due today a task without a time is the daily
run's and a task with a time the timed run's. -/
structure DailyOnce (runs : List DailyRun) : Prop where
  once : ((sentRuns z time runs).map (·.today z)).Nodup
  sent : ∀ r ∈ runs, r.Works z time →
    ∃ r' ∈ sentRuns z time runs, r'.today z = r.today z ∧ ∀ trip, (r'.members trip).isSome
  announced : ∀ (db : TaskTables) (members : String → List MemberName) (today : Day),
    ∀ task ∈ db.dueTasks [today], ∀ user ∈ dueRecipients task.assignee (members task.tripId),
      ((user, some task.id) ∈ (planTaskDue (db.dueTasks (today :: today.next.toList)) today members).map (·.reminder) ↔
        task.dueTime = "") ∧
      ∀ since now, since < today.at task.dueTime → today.at task.dueTime ≤ now →
        ((user, some task.id) ∈ (planTimedTaskDue (db.dueTasks [today]) today (since, now) members).map (·.reminder) ↔
          task.dueTime ≠ "")

end

section
variable {z : Zone} {time : Nat} {last : Option Day} {r : DailyRun} {runs : List DailyRun}

theorem sentFrom_cons : sentFrom z time last (r :: runs) =
    ((remindDue z time last r).1.map fun _ => r).toList ++ sentFrom z time (remindDue z time last r).2 runs := by
  unfold sentFrom
  rw [Machine.outputs_cons, List.zip_cons_cons, List.filterMap_cons]
  cases h : (remindDue z time last r).1 <;> simp [dailyReminders, h]

/-- A run that does not claim leaves everything as it is. -/
theorem remindDue_idle (h : r.claims z time = false) : remindDue z time last r = (none, last) := by
  unfold remindDue
  cases hdue : reminderDue z time r.now with
  | false => rfl
  | true =>
    have hclaim : r.claim = .failed := by simpa [DailyRun.claims, hdue] using h
    simp [hclaim]

theorem claimed_day (last : Option Day) (day : Day) : (claimTaskReminderDay last day).2 = some day := by
  unfold claimTaskReminderDay
  split
  · next h => exact h
  · rfl

/-- A run that claims sends if the claimed day was another one and it can read what is due. -/
theorem remindDue_claims (last : Option Day) (h : r.claims z time = true) :
    ((remindDue z time last r).1.map fun _ => r) = (if last ≠ some (r.today z) ∧ r.reads then some r else none) ∧
      (remindDue z time last r).2 = some (r.today z) := by
  simp only [DailyRun.claims, Bool.and_eq_true, decide_eq_true_eq] at h
  obtain ⟨hdue, hclaim⟩ := h
  unfold remindDue DailyRun.reads
  simp only [hdue, Bool.not_true, Bool.false_eq_true, if_false]
  cases hcase : r.claim with
  | failed => exact absurd hcase hclaim
  | unconfirmed => exact ⟨by simp, claimed_day last _⟩
  | done =>
    unfold claimTaskReminderDay
    by_cases hlast : last = some (r.today z)
    · simp [hlast]
    · simp only [if_neg hlast]
      cases r.tasksFail with
      | true => simp
      | false => cases r.entries <;> cases r.excursions <;> simp [hlast]

theorem sentFrom_eq (a : DailyRun) :
    [a].filter (·.reads) ++ sentFrom z time (some (a.today z)) runs =
      ((runs.filter (·.claims z time)).destutter' (fun a b => a.today z ≠ b.today z) a).filter (·.reads) := by
  induction runs generalizing a with
  | nil => exact List.append_nil _
  | cons r rs ih =>
    rw [sentFrom_cons]
    cases hclaims : r.claims z time with
    | false =>
      have hskip : (r :: rs).filter (·.claims z time) = rs.filter (·.claims z time) :=
        List.filter_cons_of_neg (by simp [hclaims])
      rw [remindDue_idle hclaims, hskip]
      exact ih a
    | true =>
      have hkeep : (r :: rs).filter (·.claims z time) = r :: rs.filter (·.claims z time) :=
        List.filter_cons_of_pos hclaims
      obtain ⟨hsent, hlast⟩ := remindDue_claims (some (a.today z)) hclaims
      rw [hsent, hlast, hkeep]
      by_cases hday : a.today z = r.today z
      · rw [List.destutter'_cons_neg _ (not_not.2 hday), ← ih a, hday]
        simp
      · have hopens : (if some (a.today z) ≠ some (r.today z) ∧ r.reads = true then some r else none).toList =
            [r].filter (·.reads) := by
          cases hreads : r.reads <;> simp [hday, hreads]
        have hfirst (xs : List DailyRun) : (a :: xs).filter (·.reads) = [a].filter (·.reads) ++ xs.filter (·.reads) :=
          List.filter_append [a] xs
        rw [List.destutter'_cons_pos _ hday, hopens]
        exact (congrArg ([a].filter (·.reads) ++ ·) (ih r)).trans (hfirst _).symm

/-- **The runs that send are the openers that can read what is due.** -/
theorem sentRuns_eq (runs : List DailyRun) : sentRuns z time runs = (openers z time runs).filter (·.reads) := by
  unfold sentRuns openers
  induction runs with
  | nil => rfl
  | cons r rs ih =>
    rw [sentFrom_cons]
    cases hclaims : r.claims z time with
    | false =>
      have hskip : (r :: rs).filter (·.claims z time) = rs.filter (·.claims z time) :=
        List.filter_cons_of_neg (by simp [hclaims])
      rw [remindDue_idle hclaims, hskip]
      exact ih
    | true =>
      have hkeep : (r :: rs).filter (·.claims z time) = r :: rs.filter (·.claims z time) :=
        List.filter_cons_of_pos hclaims
      obtain ⟨hsent, hlast⟩ := remindDue_claims none hclaims
      have hopens : (if none ≠ some (r.today z) ∧ r.reads = true then some r else none).toList =
          [r].filter (·.reads) := by
        cases hreads : r.reads <;> simp [hreads]
      rw [hsent, hlast, hkeep, List.destutter_cons', ← sentFrom_eq, hopens]

theorem openers_claim (h : r ∈ openers z time runs) : r.claims z time = true :=
  (List.mem_filter.1 ((List.destutter_sublist _ _).subset h)).2

/-- A task due today is announced by one of the two runs. -/
theorem announced_once {db : TaskTables} {members : String → List MemberName} {today : Day} {task : DueTask}
    {user : String} (h : task ∈ db.dueTasks [today])
    (huser : user ∈ dueRecipients task.assignee (members task.tripId)) :
    ((user, some task.id) ∈ (planTaskDue (db.dueTasks (today :: today.next.toList)) today members).map (·.reminder) ↔
      task.dueTime = "") ∧
    ∀ since now, since < today.at task.dueTime → today.at task.dueTime ≤ now →
      ((user, some task.id) ∈ (planTimedTaskDue (db.dueTasks [today]) today (since, now) members).map (·.reminder) ↔
        task.dueTime ≠ "") := by
  have hdate : task.dueDate = today.number := by
    obtain ⟨c, -, t, -, -, htask⟩ := mem_dueTasks h
    rw [htask]
  constructor
  · rw [planTaskDue_reminders, mem_reminders]
    constructor
    · rintro ⟨task', htask', hid, hmem⟩
      obtain ⟨d, -, htask'⟩ := mem_dueTasks_iff.1 htask'
      obtain ⟨-, rfl⟩ := dueTasks_unique htask' h hid
      split at hmem
      · next hday =>
        rcases hday with ⟨-, htime⟩ | htomorrow
        · exact htime
        · rw [hdate] at htomorrow
          omega
      · cases hmem
    · intro htime
      refine ⟨task, mem_dueTasks_iff.2 ⟨today, List.mem_cons_self, h⟩, rfl, ?_⟩
      rw [if_pos (.inl ⟨hdate, htime⟩)]
      exact huser
  · intro since now hsince hnow
    rw [planTimedTaskDue_reminders, mem_reminders]
    constructor
    · rintro ⟨task, htask, hid, hmem⟩
      obtain ⟨-, rfl⟩ := dueTasks_unique htask h hid
      split at hmem
      · next hwindow => exact hwindow.2.1
      · cases hmem
    · intro htime
      refine ⟨task, h, rfl, ?_⟩
      rw [if_pos ⟨hdate, htime, max_lt hsince (Day.start_lt_at htime), hnow⟩]
      exact huser

/-- **The daily reminder is sent once a day and not lost exactly if no two openers of a day can read what is due, and
every day with a run that works has an opener that works.** -/
theorem dailyOnce_iff (z : Zone) (time : Nat) (runs : List DailyRun) : DailyOnce z time runs ↔
    (((openers z time runs).filter (·.reads)).map (·.today z)).Nodup ∧
      ∀ r ∈ runs, r.Works z time → ∃ r' ∈ openers z time runs, r'.today z = r.today z ∧ r'.Works z time := by
  constructor
  · intro h
    refine ⟨sentRuns_eq runs ▸ h.once, fun r hr hworks => ?_⟩
    obtain ⟨r', hsent, hday, hmembers⟩ := h.sent r hr hworks
    rw [sentRuns_eq] at hsent
    obtain ⟨hopens, hreads⟩ := List.mem_filter.1 hsent
    have hclaims := openers_claim hopens
    exact ⟨r', hopens, hday, (Bool.and_eq_true_iff.1 hclaims).1, hreads, hmembers⟩
  · rintro ⟨honce, hworks⟩
    refine ⟨by rwa [sentRuns_eq], fun r hr hw => ?_, fun db members today task htask user huser =>
      announced_once htask huser⟩
    obtain ⟨r', hopens, hday, hw'⟩ := hworks r hr hw
    rw [sentRuns_eq]
    exact ⟨r', List.mem_filter.2 ⟨hopens, hw'.reads⟩, hday, hw'.members⟩

end

/-- A clock at noon that shows 9 July 2026 from instant 0 on, and 8 July before. -/
def noonZone : Zone where
  wall n := ⟨if n < 0 then eighthOfJuly else ⟨2026, 7, 9, year_2026_le, july_mem, by decide⟩, 12, 0, by decide, by decide⟩
  date _ hour minute := hour * 60 + minute - 10000

/-- A run in which nothing fails and nothing is due. -/
def DailyRun.plain (now : Int) : DailyRun where
  now := now
  claim := .done
  tables := weekBeforeTables none
  tasksFail := false
  entries := some []
  excursions := some []
  members _ := some onlyAnn

/-- A clock that is set back over midnight and forward again sends the reminders of a day twice. -/
theorem clock_set_back_sends_twice :
    ¬ DailyOnce noonZone (6 * hourNs) [.plain 1, .plain (-1), .plain 2] := by
  intro h
  have hdays : (sentRuns noonZone (6 * hourNs) [.plain 1, .plain (-1), .plain 2]).map (·.today noonZone) =
      [(noonZone.wall 1).day, eighthOfJuly, (noonZone.wall 2).day] := by
    rw [sentRuns_eq]
    rfl
  have honce := h.once
  rw [hdays] at honce
  exact absurd honce (by decide)

end JitPack
