import Mathlib

/-!
# Calendar days

The days of the proleptic Gregorian calendar in the years 0 to 9999: what a text `YYYY-MM-DD` can name.
A day has a number, the days since `0000-01-01`, and no two days have the same one (`Day.number_injective`).
-/

namespace JitPack

def isLeap (year : Nat) : Bool := year % 4 = 0 ∧ (year % 100 ≠ 0 ∨ year % 400 = 0)

def daysInMonth (year : Nat) : Nat → Nat
  | 2 => if isLeap year then 29 else 28
  | 4 | 6 | 9 | 11 => 30
  | _ => 31

/-- The days of a year before one of its months. -/
def daysBeforeMonth (year : Nat) : Nat → Nat
  | 0 | 1 => 0
  | month + 1 => daysBeforeMonth year month + daysInMonth year month

/-- The days before a year. -/
def daysBeforeYear (year : Nat) : Nat := 365 * year + (year + 3) / 4 - (year + 99) / 100 + (year + 399) / 400

/-- The days from the start of year 0 to a date, which may lie behind the end of its month. -/
def daysTo (year month day : Nat) : Nat := daysBeforeYear year + daysBeforeMonth year month + (day - 1)

/-- A day of the calendar. -/
structure Day where
  year : Nat
  month : Nat
  day : Nat
  year_le : year ≤ 9999
  month_mem : 1 ≤ month ∧ month ≤ 12
  day_mem : 1 ≤ day ∧ day ≤ daysInMonth year month
  deriving DecidableEq

def Day.number (d : Day) : Nat := daysTo d.year d.month d.day

theorem daysBeforeYear_succ (year : Nat) :
    daysBeforeYear (year + 1) = daysBeforeYear year + if isLeap year then 366 else 365 := by
  have hfour : (year + 1 + 3) / 4 = (year + 3) / 4 + if year % 4 = 0 then 1 else 0 := by split <;> omega
  have hhundred : (year + 1 + 99) / 100 = (year + 99) / 100 + if year % 100 = 0 then 1 else 0 := by
    split <;> omega
  have hfourhundred : (year + 1 + 399) / 400 = (year + 399) / 400 + if year % 400 = 0 then 1 else 0 := by
    split <;> omega
  have hle : (year + 99) / 100 ≤ 365 * year + (year + 3) / 4 := by omega
  unfold daysBeforeYear isLeap
  rw [hfour, hhundred, hfourhundred]
  generalize (year + 3) / 4 = a at hle ⊢
  generalize (year + 99) / 100 = b at hle ⊢
  generalize (year + 399) / 400 = c
  by_cases h4 : year % 4 = 0
  · by_cases h100 : year % 100 = 0
    · by_cases h400 : year % 400 = 0 <;> simp [h4, h100, h400] <;> omega
    · have h400 : year % 400 ≠ 0 := by omega
      simp [h4, h100, h400]
      omega
  · have h100 : year % 100 ≠ 0 := by omega
    have h400 : year % 400 ≠ 0 := by omega
    simp [h4, h100, h400]
    omega

theorem daysBeforeMonth_mono (year : Nat) : Monotone (daysBeforeMonth year) := by
  refine monotone_nat_of_le_succ fun month => ?_
  cases month with
  | zero => exact le_rfl
  | succ month => exact Nat.le_add_right ..

theorem daysBeforeYear_mono : Monotone daysBeforeYear :=
  monotone_nat_of_le_succ fun year => daysBeforeYear_succ year ▸ Nat.le_add_right ..

theorem daysBeforeMonth_end (year : Nat) :
    daysBeforeMonth year 13 = if isLeap year then 366 else 365 := by
  cases h : isLeap year <;> simp [daysBeforeMonth, daysInMonth, h]

theorem daysBeforeMonth_succ (year : Nat) {month : Nat} (h : 1 ≤ month) :
    daysBeforeMonth year (month + 1) = daysBeforeMonth year month + daysInMonth year month := by
  cases month with
  | zero => omega
  | succ month => rfl

theorem daysInMonth_pos (year month : Nat) : 1 ≤ daysInMonth year month := by
  unfold daysInMonth
  repeat' split
  all_goals omega

/-- A day lies before the next month. -/
theorem Day.number_lt_month (d : Day) :
    d.number < daysBeforeYear d.year + daysBeforeMonth d.year (d.month + 1) := by
  obtain ⟨hday, hle⟩ := d.day_mem
  rw [daysBeforeMonth_succ d.year d.month_mem.1]
  unfold Day.number daysTo
  omega

theorem Day.number_lt_year (d : Day) : d.number < daysBeforeYear (d.year + 1) := by
  have hmonth := d.number_lt_month
  have hend := daysBeforeMonth_mono d.year (Nat.succ_le_succ d.month_mem.2)
  rw [daysBeforeYear_succ, ← daysBeforeMonth_end]
  exact hmonth.trans_le (Nat.add_le_add_left hend _)

theorem Day.le_number (d : Day) : daysBeforeYear d.year + daysBeforeMonth d.year d.month ≤ d.number :=
  Nat.le_add_right ..

/-- Two days have the same number only if they are the same day. -/
theorem Day.number_injective : Function.Injective Day.number := by
  intro d d' h
  have hyear {a b : Day} (hab : a.number = b.number) : ¬ a.year < b.year := fun hlt => by
    have hle := daysBeforeYear_mono (Nat.succ_le_of_lt hlt)
    rw [Nat.succ_eq_add_one] at hle
    have := a.number_lt_year
    have := b.le_number
    omega
  have hy : d.year = d'.year := by
    have := hyear h
    have := hyear h.symm
    omega
  have hmonth {a b : Day} (hab : a.number = b.number) (hy : a.year = b.year) : ¬ a.month < b.month := fun hlt => by
    have hle := daysBeforeMonth_mono a.year (Nat.succ_le_of_lt hlt)
    rw [Nat.succ_eq_add_one] at hle
    have := a.number_lt_month
    have := b.le_number
    rw [← hy] at this
    omega
  have hm : d.month = d'.month := by
    have := hmonth h hy
    have := hmonth h.symm hy.symm
    omega
  have hd : d.day = d'.day := by
    have := d.day_mem
    have := d'.day_mem
    unfold Day.number daysTo at h
    rw [hy, hm] at h
    omega
  cases d
  cases d'
  obtain rfl : _ = _ := hy
  obtain rfl : _ = _ := hm
  obtain rfl : _ = _ := hd
  rfl

/-- There is a day before every day but the first. -/
theorem Day.exists_pred (d : Day) (h : 0 < d.number) : ∃ d' : Day, d'.number + 1 = d.number := by
  obtain ⟨year, month, day, hyear, ⟨hmonth, hmonth'⟩, hday, hday'⟩ := d
  unfold Day.number daysTo at h ⊢
  dsimp only at h ⊢
  rcases Nat.lt_or_ge 1 day with hlater | hfirst
  · refine ⟨⟨year, month, day - 1, hyear, ⟨hmonth, hmonth'⟩, by omega, by omega⟩, ?_⟩
    dsimp only
    omega
  rcases Nat.lt_or_ge 1 month with hlater | hjanuary
  · have hpos := daysInMonth_pos year (month - 1)
    refine ⟨⟨year, month - 1, daysInMonth year (month - 1), hyear, by omega, hpos, le_rfl⟩, ?_⟩
    have hsucc := daysBeforeMonth_succ year (by omega : 1 ≤ month - 1)
    rw [Nat.sub_add_cancel hmonth] at hsucc
    dsimp only
    omega
  · obtain rfl : month = 1 := by omega
    obtain rfl : day = 1 := by omega
    cases year with
    | zero => exact absurd h (by decide)
    | succ year =>
      refine ⟨⟨year, 12, 31, by omega, by omega, by omega, le_rfl⟩, ?_⟩
      have hend := daysBeforeMonth_end year
      rw [daysBeforeMonth_succ year (by omega : 1 ≤ 12)] at hend
      have hdecember : daysInMonth year 12 = 31 := rfl
      dsimp only
      rw [daysBeforeYear_succ, ← hend, hdecember]
      simp only [daysBeforeMonth]
      omega

/-- The day after, where the calendar has one. -/
def Day.next (d : Day) : Option Day :=
  if h : d.day + 1 ≤ daysInMonth d.year d.month then
    some ⟨d.year, d.month, d.day + 1, d.year_le, d.month_mem, Nat.le_add_left .., h⟩
  else if h : d.month < 12 then
    some ⟨d.year, d.month + 1, 1, d.year_le, ⟨Nat.le_add_left .., h⟩, le_rfl, daysInMonth_pos ..⟩
  else if h : d.year < 9999 then
    some ⟨d.year + 1, 1, 1, h, ⟨le_rfl, by decide⟩, le_rfl, daysInMonth_pos ..⟩
  else none

theorem Day.number_next {d d' : Day} (h : d.next = some d') : d'.number = d.number + 1 := by
  obtain ⟨year, month, day, hyear, ⟨hmonth, hmonth'⟩, hday, hday'⟩ := d
  unfold Day.next at h
  dsimp only at h
  unfold Day.number daysTo
  dsimp only
  split at h
  · cases h
    dsimp only
    omega
  next hend =>
  have hsucc := daysBeforeMonth_succ year hmonth
  split at h
  · cases h
    dsimp only
    omega
  next hdecember =>
  obtain rfl : month = 12 := by omega
  split at h
  · cases h
    have hjanuary : daysBeforeMonth (year + 1) 1 = 0 := rfl
    rw [daysBeforeMonth_end] at hsucc
    dsimp only
    rw [daysBeforeYear_succ, hjanuary]
    omega
  · cases h

theorem Day.exists_of_le (d : Day) {n : Nat} (h : n ≤ d.number) : ∃ d' : Day, d'.number = n := by
  obtain ⟨k, hk⟩ := Nat.exists_eq_add_of_le h
  induction k generalizing d with
  | zero => exact ⟨d, hk⟩
  | succ k ih =>
    obtain ⟨d', hd'⟩ := d.exists_pred (by omega)
    exact ih d' (by omega) (by omega)

/-- The same date in a later century lies later. -/
theorem daysTo_lt_century (year month day : Nat) (hmonth : month ≤ 12) {years : Nat} (hyears : 2 ≤ years) :
    daysTo year month day < daysTo (years + year) month day := by
  have hbefore (y : Nat) : daysBeforeMonth y month ≤ 366 := by
    refine (daysBeforeMonth_mono y (hmonth.trans (Nat.le_succ 12))).trans ?_
    rw [daysBeforeMonth_end]
    split <;> omega
  have hyear : daysBeforeYear (year + 1) ≥ daysBeforeYear year + 365 := by
    rw [daysBeforeYear_succ]
    split <;> omega
  have hnext : daysBeforeYear (year + 1 + 1) ≥ daysBeforeYear (year + 1) + 365 := by
    rw [daysBeforeYear_succ]
    split <;> omega
  have hle : daysBeforeYear (year + 1 + 1) ≤ daysBeforeYear (years + year) := daysBeforeYear_mono (by omega)
  have := hbefore year
  unfold daysTo
  omega

end JitPack
