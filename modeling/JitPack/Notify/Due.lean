import JitPack.Lib.FixedWidth
import JitPack.Client.TaskDue
import JitPack.Notify.Plan

/-!
# What the reminders plan

The rules of `internal/notify/due.go` and `timed.go`: who hears that a task, a shopping entry or an excursion is
due, once a day, and that the time of a task has come. A moment is compared as text. For the moments that a clock
shows that is the order of time (`Wall.moment_lt_iff`), and every time that is stored on a task has a place in it.
-/

namespace JitPack

open FixedWidth

/-! ## Clocks -/

/-- What a clock on the wall shows. -/
structure Wall where
  day : Day
  hour : Nat
  minute : Nat
  hour_lt : hour < 24
  minute_lt : minute < 60

/-- The time zone of the server. -/
structure Zone where
  /-- What its clocks show at an instant. -/
  wall : Int → Wall
  /-- The instant of an hour and a minute of a day, as `time.Date` finds it. -/
  date : Day → Nat → Nat → Int

/-- A field of a time layout: a number in decimal, padded with zeros. -/
def padded (w n : Nat) : List Char := (digits 10 w n).map Nat.digitChar

def Day.chars (d : Day) : List Char := padded 4 d.year ++ '-' :: (padded 2 d.month ++ '-' :: padded 2 d.day)

/-- `Format(dayLayout)`. -/
def Day.text (d : Day) : String := String.ofList d.chars

/-- `dayStart` of `planTimedTaskDue`: every moment of the day begins with it. -/
def Day.start (d : Day) : String := d.text ++ " "

/-- A time of a day, as the timed reminders compare it. -/
def Day.at (d : Day) (time : String) : String := d.start ++ time

def Wall.time (w : Wall) : String := String.ofList (padded 2 w.hour ++ ':' :: padded 2 w.minute)

/-- `Format(momentLayout)`. -/
def Wall.moment (w : Wall) : String := w.day.at w.time

/-- The minutes from the start of the calendar to what the clock shows. -/
def Wall.minutes (w : Wall) : Nat := (w.day.number * 24 + w.hour) * 60 + w.minute

/-! ## Due today or tomorrow -/

/-- `dueWord`. -/
def dueWord (day : Int) (today : Day) : Option String :=
  if day = today.number then some "today"
  else if day = today.number + 1 then some "tomorrow"
  else none

/-- `dueRecipients`. -/
def dueRecipients (assignee : String) (onTrip : List MemberName) : List String :=
  if assignee ≠ "" ∧ displayNameOf onTrip assignee ≠ "" then [assignee] else onTrip.map (·.userID)

/-- `planTaskDue`. -/
def planTaskDue (tasks : List DueTask) (today : Day) (members : String → List MemberName) : List PlannedNotification :=
  tasks.flatMap fun task =>
    match dueWord task.dueDate today with
    | none => []
    | some due =>
      if due = "today" ∧ task.dueTime ≠ "" then []
      else tell (dueRecipients task.assignee (members task.tripId)) .taskDue
        ([(.tripID, task.tripId), (.commentID, task.id), (.itemName, truncate task.body previewLen), (.due, due)] ++
          if task.dueTime ≠ "" then [(.time, task.dueTime)] else [])

/-- `DueShoppingEntry`. -/
structure DueShoppingEntry where
  id : String
  tripId : String
  name : String
  dueDate : Day
  assignee : String

/-- `planShoppingDue`. -/
def planShoppingDue (entries : List DueShoppingEntry) (today : Day) (members : String → List MemberName) :
    List PlannedNotification :=
  entries.flatMap fun entry =>
    match dueWord entry.dueDate.number today with
    | none => []
    | some due => tell (dueRecipients entry.assignee (members entry.tripId)) .shoppingDue
        [(.tripID, entry.tripId), (.entryID, entry.id), (.itemName, truncate entry.name previewLen), (.due, due)]

/-- `DueExcursion`. -/
structure DueExcursion where
  id : String
  tripId : String
  name : String
  startsOn : Day
  participants : List String

/-- The recipients that `planExcursionDue` picks. -/
def excursionRecipients (participants : List String) (onTrip : List MemberName) : List String :=
  let recipients := participants.filter (displayNameOf onTrip · ≠ "")
  if recipients.isEmpty then dueRecipients "" onTrip else recipients

/-- `planExcursionDue`. -/
def planExcursionDue (excursions : List DueExcursion) (today : Day) (members : String → List MemberName) :
    List PlannedNotification :=
  excursions.flatMap fun ex =>
    match dueWord ex.startsOn.number today with
    | none => []
    | some due => tell (excursionRecipients ex.participants (members ex.tripId)) .excursionDue
        [(.tripID, ex.tripId), (.excursionID, ex.id), (.itemName, truncate ex.name previewLen), (.due, due)]

/-! ## Due now -/

/-- The moment of a task lies in the window of the run. -/
def inWindow (today : Day) (window : String × String) (task : DueTask) : Prop :=
  task.dueDate = today.number ∧ task.dueTime ≠ "" ∧
    max window.1 today.start < today.at task.dueTime ∧ today.at task.dueTime ≤ window.2

instance (today : Day) (window : String × String) (task : DueTask) : Decidable (inWindow today window task) :=
  inferInstanceAs (Decidable (_ ∧ _))

/-- `planTimedTaskDue`. The window `(from, to]` begins no earlier than the day. -/
def planTimedTaskDue (tasks : List DueTask) (today : Day) (window : String × String)
    (members : String → List MemberName) : List PlannedNotification :=
  tasks.flatMap fun task =>
    if inWindow today window task then
      tell (dueRecipients task.assignee (members task.tripId)) .taskDue
        [(.tripID, task.tripId), (.commentID, task.id), (.itemName, truncate task.body previewLen), (.due, "now"),
          (.time, task.dueTime)]
    else []

/-- Whom a notification reminds of which task. -/
def PlannedNotification.reminder (n : PlannedNotification) : String × Option String :=
  (n.userID, n.payload.lookup .commentID)

/-! ## The order of the moments -/

section
variable {d d' : Day} {a b : Nat} {w : Nat}

/-- Days are numbered in the order of their years, months and days. -/
theorem Day.number_lt_iff : d.number < d'.number ↔
    d.year < d'.year ∨ d.year = d'.year ∧ (d.month < d'.month ∨ d.month = d'.month ∧ d.day < d'.day) := by
  have hyear {d d' : Day} (h : d.year < d'.year) : d.number < d'.number := by
    have hle := daysBeforeYear_mono (Nat.succ_le_of_lt h)
    rw [Nat.succ_eq_add_one] at hle
    have := d.number_lt_year
    have := d'.le_number
    omega
  have hmonth {d d' : Day} (hy : d.year = d'.year) (h : d.month < d'.month) : d.number < d'.number := by
    have hle := daysBeforeMonth_mono d.year (Nat.succ_le_of_lt h)
    rw [Nat.succ_eq_add_one] at hle
    have := d.number_lt_month
    have := d'.le_number
    rw [← hy] at this
    omega
  have hday {d d' : Day} (hy : d.year = d'.year) (hm : d.month = d'.month) (h : d.day < d'.day) :
      d.number < d'.number := by
    have := d.day_mem
    unfold Day.number daysTo
    rw [hy, hm]
    omega
  constructor
  · intro h
    rcases lt_trichotomy d.year d'.year with hy | hy | hy
    · exact .inl hy
    · refine .inr ⟨hy, ?_⟩
      rcases lt_trichotomy d.month d'.month with hm | hm | hm
      · exact .inl hm
      · refine .inr ⟨hm, ?_⟩
        by_contra hle
        rcases Nat.lt_or_eq_of_le (not_lt.1 hle) with hd | hd
        · exact absurd (hday hy.symm hm.symm hd) h.asymm
        · have hsame : d.number = d'.number := by
            unfold Day.number
            rw [hy, hm, hd]
          omega
      · exact absurd (hmonth hy.symm hm) h.asymm
    · exact absurd (hyear hy) h.asymm
  · rintro (hy | ⟨hy, hm | ⟨hm, hd⟩⟩)
    · exact hyear hy
    · exact hmonth hy hm
    · exact hday hy hm hd

theorem strictMonoOn_digitChar_ten : StrictMonoOn Nat.digitChar {d | d < 10} := by
  intro a ha b hb hab
  simp only [Set.mem_ofPred_eq] at ha hb
  interval_cases b <;> interval_cases a <;> first | omega | decide

theorem length_padded (h : a < 10 ^ w) : (padded w a).length = w := by
  rw [padded, List.length_map, length_digits (by decide) h]

/-- Numbers that fit are written in their order. -/
theorem padded_lt_iff (ha : a < 10 ^ w) (hb : b < 10 ^ w) : padded w a < padded w b ↔ a < b := by
  have hlen : (digits 10 w a).length = (digits 10 w b).length := by
    rw [length_digits (by decide) ha, length_digits (by decide) hb]
  have hdigit {n d : Nat} (h : d ∈ digits 10 w n) : d < 10 := digits_lt (by decide) h
  rw [padded, padded, map_lt_map_iff strictMonoOn_digitChar_ten (fun _ h => hdigit h) fun _ h => hdigit h,
    lt_iff_value_lt (by decide) hlen (fun _ h => hdigit h) fun _ h => hdigit h, value_digits, value_digits]

theorem padded_inj (ha : a < 10 ^ w) (hb : b < 10 ^ w) : padded w a = padded w b ↔ a = b := by
  refine ⟨fun h => ?_, fun h => h ▸ rfl⟩
  rcases lt_trichotomy a b with hlt | heq | hlt
  · exact absurd ((padded_lt_iff ha hb).2 hlt) (h ▸ lt_irrefl _)
  · exact heq
  · exact absurd ((padded_lt_iff hb ha).2 hlt) (h ▸ lt_irrefl _)

/-- Texts that begin with a number are compared by the number first. -/
theorem padded_append_lt_iff {c : Char} {xs ys : List Char} (ha : a < 10 ^ w) (hb : b < 10 ^ w) :
    padded w a ++ c :: xs < padded w b ++ c :: ys ↔ a < b ∨ a = b ∧ xs < ys := by
  rw [append_lt_append_iff ((length_padded ha).trans (length_padded hb).symm), padded_lt_iff ha hb, padded_inj ha hb,
    List.cons_lt_cons_iff]
  simp

theorem Day.number_eq_iff : d.number = d'.number ↔ d.year = d'.year ∧ d.month = d'.month ∧ d.day = d'.day := by
  rw [Day.number_injective.eq_iff]
  cases d
  cases d'
  simp

/-- Texts that begin with a day are compared by the day first. -/
theorem Day.chars_append_lt_iff {c : Char} {xs ys : List Char} :
    d.chars ++ c :: xs < d'.chars ++ c :: ys ↔ d.number < d'.number ∨ d.number = d'.number ∧ xs < ys := by
  have hbounds (d : Day) : d.year < 10 ^ 4 ∧ d.month < 10 ^ 2 ∧ d.day < 10 ^ 2 := by
    have := d.year_le
    have := d.month_mem
    have := d.day_mem
    have hlen : daysInMonth d.year d.month ≤ 31 := by
      unfold daysInMonth
      repeat' split
      all_goals omega
    omega
  obtain ⟨hy, hm, hd⟩ := hbounds d
  obtain ⟨hy', hm', hd'⟩ := hbounds d'
  simp only [Day.chars, List.append_assoc, List.cons_append]
  rw [padded_append_lt_iff hy hy', padded_append_lt_iff hm hm', padded_append_lt_iff hd hd', Day.number_lt_iff,
    Day.number_eq_iff]
  simp only [and_or_left, or_assoc, and_assoc]

end

theorem Wall.moment_toList (w : Wall) :
    w.moment.toList = w.day.chars ++ ' ' :: (padded 2 w.hour ++ ':' :: padded 2 w.minute) := by
  simp [Wall.moment, Day.at, Day.start, Day.text, Wall.time]

/-- **The moments that a clock shows sort as text in the order of time.** -/
theorem Wall.moment_lt_iff {w w' : Wall} : w.moment < w'.moment ↔ w.minutes < w'.minutes := by
  have hlex {n n' h h' m m' : Nat} (hh : h < 24) (hh' : h' < 24) (hm : m < 60) (hm' : m' < 60) :
      n < n' ∨ n = n' ∧ (h < h' ∨ h = h' ∧ m < m') ↔ (n * 24 + h) * 60 + m < (n' * 24 + h') * 60 + m' := by
    omega
  have hh := w.hour_lt
  have hh' := w'.hour_lt
  have hm := w.minute_lt
  have hm' := w'.minute_lt
  rw [String.lt_iff_toList_lt, w.moment_toList, w'.moment_toList, Day.chars_append_lt_iff,
    padded_append_lt_iff (by omega) (by omega), padded_lt_iff (by omega) (by omega)]
  exact hlex hh hh' hm hm'

/-! ## Who is reminded of what -/

/-- Every task with everybody who is reminded of it. -/
def reminders (tasks : List DueTask) (recipients : DueTask → List String) : List (String × Option String) :=
  tasks.flatMap fun task => (recipients task).map (·, some task.id)

section
variable {tasks : List DueTask} {recipients : DueTask → List String} {today : Day} {window : String × String}
variable {members : String → List MemberName} {user id : String} {kind : NotifyKind} {task : DueTask}

theorem mem_reminders :
    (user, some id) ∈ reminders tasks recipients ↔ ∃ task ∈ tasks, task.id = id ∧ user ∈ recipients task := by
  simp only [reminders, List.mem_flatMap, List.mem_map, Prod.mk.injEq, Option.some.injEq]
  constructor
  · rintro ⟨task, htask, user', huser, rfl, rfl⟩
    exact ⟨task, htask, rfl, huser⟩
  · rintro ⟨task, htask, rfl, huser⟩
    exact ⟨task, htask, user, huser, rfl, rfl⟩

/-- Nobody is reminded of a task twice. -/
theorem nodup_reminders (ht : (tasks.map (·.id)).Nodup) (hr : ∀ task, (recipients task).Nodup) :
    (reminders tasks recipients).Nodup := by
  refine List.nodup_flatMap.2 ⟨fun task _ => (hr task).map fun _ _ h => (Prod.mk.inj h).1, ?_⟩
  refine (List.pairwise_map.1 ht).imp fun {a b} hne x hx hx' => ?_
  obtain ⟨_, -, rfl⟩ := List.mem_map.1 hx
  obtain ⟨_, -, heq⟩ := List.mem_map.1 hx'
  exact hne (Option.some.inj (Prod.mk.inj heq).2).symm

theorem nodup_dueRecipients {assignee : String} {onTrip : List MemberName} (h : (onTrip.map (·.userID)).Nodup) :
    (dueRecipients assignee onTrip).Nodup := by
  unfold dueRecipients
  split
  · exact List.nodup_singleton _
  · exact h

theorem tell_reminder {users : List String} {payload : Payload} (h : payload.lookup .commentID = some id) :
    (tell users kind payload).map (·.reminder) = users.map (·, some id) := by
  simp [tell, PlannedNotification.reminder, h, Function.comp_def]

theorem planTimedTaskDue_reminders : (planTimedTaskDue tasks today window members).map (·.reminder) =
    reminders tasks fun task =>
      if inWindow today window task then dueRecipients task.assignee (members task.tripId) else [] := by
  rw [planTimedTaskDue, reminders, List.map_flatMap]
  refine List.flatMap_congr fun task _ => ?_
  split
  · exact tell_reminder rfl
  · rfl

/-- The daily run reminds of the task. -/
def inDay (today : Day) (task : DueTask) : Prop :=
  task.dueDate = today.number ∧ task.dueTime = "" ∨ task.dueDate = today.number + 1

instance (today : Day) (task : DueTask) : Decidable (inDay today task) := inferInstanceAs (Decidable (_ ∨ _))

theorem planTaskDue_reminders : (planTaskDue tasks today members).map (·.reminder) =
    reminders tasks fun task =>
      if inDay today task then dueRecipients task.assignee (members task.tripId) else [] := by
  rw [planTaskDue, reminders, List.map_flatMap]
  refine List.flatMap_congr fun task _ => ?_
  unfold dueWord inDay
  by_cases htoday : task.dueDate = today.number
  · by_cases htime : task.dueTime = ""
    · simp only [htoday, htime, if_pos]
      exact tell_reminder rfl
    · have hne : (today.number : Int) ≠ today.number + 1 := by omega
      simp [htoday, htime, hne]
  · by_cases htomorrow : task.dueDate = today.number + 1
    · have hne : ¬ (today.number : Int) + 1 = today.number := by omega
      simp only [htomorrow, hne, false_and, or_true, if_true, if_false]
      exact tell_reminder rfl
    · simp [htoday, htomorrow]

/-- A moment of the day lies behind its start. -/
theorem Day.start_lt_at {d : Day} {time : String} (h : time ≠ "") : d.start < d.at time := by
  rw [String.lt_iff_toList_lt, Day.at, String.toList_append]
  cases htime : time.toList with
  | nil => exact absurd (String.toList_injective (htime.trans String.toList_empty.symm)) h
  | cons c cs =>
    have hself : d.start.toList ++ [] < d.start.toList ++ c :: cs := (append_lt_append_iff rfl).2 (.inr ⟨rfl, .nil⟩)
    rwa [List.append_nil] at hself

theorem Wall.moment_ne (w : Wall) : w.moment ≠ "" := by
  intro h
  have htext := w.moment_toList
  rw [h] at htext
  simp at htext

end

end JitPack
