import JitPack.Client.AmountTotals

/-!
# What is split off is counted

The pattern that splits a typed ingredient and the sums that read what was split off name their units through one table,
but compare letters in two ways: the flags `iu` take the long s for an s, `toLowerCase` does not. `split_of_match` says
what the pattern has matched, a number and, before a blank, perhaps a unit; `match_of_split` says that it matches every
such text. Between them `counted_iff` is the whole question: what is split off is counted unless its unit is spelled
with a long s.
-/

namespace JitPack

namespace Amounts

open Shopping (Text)
open Numeral
open Regex
open Gpx (units spaces)

variable {c : Casing} {β : Type} {k : State ℕ → Option β} {b : β} {prev : Option ℕ} {caps : List (ℕ × List ℕ)}
  {num blanks unit rest : Text}

/-! ## Numerals -/

/-- Digits, with a fraction or without. -/
inductive IsNumber : Text → Prop
  | whole {int : Text} (hint : ∀ u ∈ int, isDigit u = true) (hne : int ≠ []) : IsNumber int
  | fraction {int frac : Text} {p : ℕ} (hint : ∀ u ∈ int, isDigit u = true) (hne : int ≠ []) (hp : isPoint p = true)
      (hfrac : ∀ u ∈ frac, isDigit u = true) (hfne : frac ≠ []) : IsNumber (int ++ p :: frac)

/-- A numeral ends before what is no digit and no point. -/
def Stops (rest : Text) : Prop := ∀ u ∈ rest.head?, isDigit u = false ∧ isPoint u = false

theorem isDigit_of_isPoint {u : ℕ} (h : isPoint u = true) : isDigit u = false := by
  simp only [isPoint, Bool.or_eq_true, decide_eq_true_eq] at h
  rcases h with rfl | rfl <;> decide

/-- A number is matched as a whole. -/
theorem run_numeral (hnum : IsNumber num) (hstop : Stops rest) (h : k ⟨lastOf prev num, rest, caps⟩ = some b) :
    run numeral k ⟨prev, num ++ rest, caps⟩ = some b := by
  cases hnum with
  | whole hint hne =>
    refine run_plus hint hne (fun u hu => (hstop u hu).1) ?_
    have hpoint : run (seq (chr isPoint) (plus isDigit)) k ⟨lastOf prev num, rest, caps⟩ = none := by
      cases rest with
      | nil => rfl
      | cons u rest => simp [run, (hstop u rfl).2]
    simp only [opt, run] at hpoint ⊢
    rw [hpoint, Option.none_or, h]
  | @fraction int frac p hint hne hp hfrac hfne =>
    rw [List.append_assoc]
    refine run_plus hint hne (fun u hu => ?_) ?_
    · obtain rfl : p = u := by simpa using hu
      exact isDigit_of_isPoint hp
    · have hrun : run (seq (chr isPoint) (plus isDigit)) k ⟨lastOf prev int, p :: frac ++ rest, caps⟩ = some b := by
        simp only [run, List.cons_append, hp, if_true]
        refine run_plus hfrac hfne (fun u hu => (hstop u hu).1) ?_
        simpa using h
      simp only [opt, run] at hrun ⊢
      rw [hrun, Option.some_or]

/-- What is matched is a number. -/
theorem reaches_numeral {s t : State ℕ} (h : Reaches numeral s t) :
    ∃ num, IsNumber num ∧ s.rest = num ++ t.rest ∧ t.caps = s.caps := by
  obtain ⟨u, hdigits, hopt⟩ := h
  obtain ⟨int, hne, hint, hrest, hcaps⟩ := reaches_plus hdigits
  rcases hopt with ⟨w, ⟨p, hp, hpoint, -, hcaps'⟩, hfrac⟩ | rfl
  · obtain ⟨frac, hfne, hfrac, hrest', hcaps''⟩ := reaches_plus hfrac
    refine ⟨int ++ p :: frac, .fraction hint hne hp hfrac hfne, ?_, hcaps''.trans (hcaps'.trans hcaps)⟩
    rw [hrest, hpoint, hrest', List.append_assoc, List.cons_append]
  · exact ⟨int, .whole hint hne, hrest, hcaps⟩

/-! ## Units -/

/-- A word matches what is the same, case aside. -/
theorem reaches_word {t : Text} {s s' : State ℕ} (h : Reaches (word t) s s') :
    ∃ w, s.rest = w ++ s'.rest ∧ w.map foldUnit = t.map foldUnit ∧ s'.prev = lastOf s.prev w ∧ s'.caps = s.caps := by
  induction t generalizing s with
  | nil =>
    obtain rfl : s' = s := h
    exact ⟨[], rfl, rfl, rfl, rfl⟩
  | cons a t ih =>
    obtain ⟨v, ⟨u, hu, hrest, hprev, hcaps⟩, hword⟩ := h
    obtain ⟨w, hrest', hfold, hprev', hcaps'⟩ := ih hword
    refine ⟨u :: w, by rw [hrest, hrest']; rfl, ?_, by rw [hprev', hprev]; rfl, hcaps'.trans hcaps⟩
    rw [List.map_cons, List.map_cons, hfold, beq_iff_eq.1 hu]

theorem run_word {t w : Text} (h : w.map foldUnit = t.map foldUnit) :
    run (word t) k ⟨prev, w ++ rest, caps⟩ = k ⟨lastOf prev w, rest, caps⟩ := by
  induction t generalizing prev w with
  | nil =>
    obtain rfl : w = [] := List.map_eq_nil_iff.1 h
    rfl
  | cons a t ih =>
    obtain ⟨u, w, rfl, hfold, hw⟩ := List.map_eq_cons_iff.1 h
    have hu : (foldUnit u == foldUnit a) = true := beq_iff_eq.2 hfold
    have hstep := @ih (some u) w hw
    rw [word, List.map_cons, run_seqs_cons, List.cons_append, lastOf_cons, ← hstep]
    simp only [run, hu, if_true]
    rfl

/-- The words of the pattern are the spellings in small letters. -/
theorem mem_unitWords {t : Text} : t ∈ unitWords c ↔ ∃ e ∈ plainTable, e.1 = t := by
  rw [unitWords, List.mem_mergeSort, List.mem_eraseDups, bySpelling_eq, List.mem_map]

/-- Small letters, none of them a blank or the long s, the first neither digit nor point. -/
theorem plainTable_checked : ∀ e ∈ plainTable, e.1.map foldUnit = e.1 ∧ 0x17F ∉ e.1 ∧
    (∀ u ∈ e.1, IsPlain u ∧ Shopping.isSpace u = false ∧ isDot u = true) ∧
    ∀ u ∈ e.1.head?, isDigit u = false ∧ isPoint u = false := by
  decide +kernel

theorem plainTable_named : ∀ e ∈ plainTable, e.1 ≠ [] ∧ (Keyed.last Prod.fst plainTable e.1).isSome = true := by
  decide +kernel

theorem isPlain_of_fold {u : ℕ} (h : IsPlain (foldUnit u)) : IsPlain u := by
  unfold foldUnit lowerUnit at h
  unfold IsPlain at h ⊢
  simp only [List.mem_cons, List.not_mem_nil, or_false] at h ⊢
  split_ifs at h <;> omega

theorem fold_of_isSpace {u : ℕ} (h : Shopping.isSpace u = true) : foldUnit u = u := by
  simp only [Shopping.isSpace, Bool.or_eq_true, Bool.and_eq_true, decide_eq_true_eq, List.mem_cons, List.not_mem_nil,
    or_false] at h
  unfold foldUnit lowerUnit
  simp only [List.mem_cons, List.not_mem_nil, or_false]
  split_ifs <;> omega

theorem fold_of_digit_or_point {u : ℕ} (h : isDigit u = true ∨ isPoint u = true) : foldUnit u = u := by
  simp only [isDigit, isPoint, Bool.or_eq_true, Bool.and_eq_true, decide_eq_true_eq] at h
  unfold foldUnit lowerUnit
  simp only [List.mem_cons, List.not_mem_nil, or_false]
  split_ifs <;> omega

/-- What does not end a word ends no line. -/
theorem isDot_of_not_isSpace {u : ℕ} (h : Shopping.isSpace u = false) : isDot u = true := by
  simp only [Shopping.isSpace, Bool.or_eq_false_iff, decide_eq_false_iff_not, List.mem_cons, List.not_mem_nil,
    or_false] at h
  simp only [isDot, decide_eq_true_eq, List.mem_cons, List.not_mem_nil, or_false]
  omega

/-- What the pattern takes for a unit: a spelling, case aside. -/
def IsUnit (w : Text) : Prop := ∃ e ∈ plainTable, w.map foldUnit = e.1

theorem IsUnit.ne_nil (h : IsUnit unit) : unit ≠ [] := by
  rintro rfl
  obtain ⟨e, he, heq⟩ := h
  exact (plainTable_named e he).1 heq.symm

theorem IsUnit.plain (h : IsUnit unit) : ∀ u ∈ unit, IsPlain u ∧ Shopping.isSpace u = false := by
  obtain ⟨e, he, heq⟩ := h
  intro u hu
  have hfold : foldUnit u ∈ e.1 := heq ▸ List.mem_map_of_mem hu
  obtain ⟨hplain, hspace, -⟩ := (plainTable_checked e he).2.2.1 _ hfold
  refine ⟨isPlain_of_fold hplain, Bool.eq_false_iff.2 fun hblank => ?_⟩
  rw [fold_of_isSpace hblank, hblank] at hspace
  cases hspace

theorem IsUnit.stops (h : IsUnit unit) : Stops (unit ++ rest) := by
  obtain ⟨u, w, rfl⟩ := List.exists_cons_of_ne_nil h.ne_nil
  obtain ⟨e, he, heq⟩ := h
  intro v hv
  obtain rfl : u = v := by simpa using hv
  have hhead : foldUnit u ∈ e.1.head? := by rw [← heq]; rfl
  have hnot := (plainTable_checked e he).2.2.2 _ hhead
  refine ⟨Bool.eq_false_iff.2 fun hd => ?_, Bool.eq_false_iff.2 fun hp => ?_⟩
  · rw [fold_of_digit_or_point (.inl hd), hd] at hnot
    cases hnot.1
  · rw [fold_of_digit_or_point (.inr hp), hp] at hnot
    cases hnot.2

/-- A unit is one of the table unless it is spelled with a long s. -/
theorem IsUnit.isSome_unitOf (h : IsUnit unit) : (unitOf c unit).isSome = true ↔ 0x17F ∉ unit := by
  have hlower : c.lower unit = unit.map lowerUnit := c.plain unit fun u hu => (h.plain u hu).1
  have htrim : Shopping.trim unit = unit := trim_of_forall fun u hu => (h.plain u hu).2
  rw [unitOf, bySpelling_eq, htrim, hlower, Option.isSome_map]
  constructor
  · intro hsome hlong
    obtain ⟨e, he⟩ := Option.isSome_iff_exists.1 hsome
    obtain ⟨hmem, hkey⟩ := Keyed.mem_of_last he
    refine (plainTable_checked e hmem).2.1 ?_
    rw [hkey]
    exact List.mem_map.2 ⟨0x17F, hlong, by decide⟩
  · intro hlong
    obtain ⟨e, he, heq⟩ := h
    have hsame : unit.map lowerUnit = unit.map foldUnit := List.map_congr_left fun u hu => by
      have hne : u ≠ 0x17F := fun hu' => hlong (hu' ▸ hu)
      rw [foldUnit, if_neg hne]
    rw [hsame, heq]
    exact (plainTable_named e he).2

/-! ## One amount -/

theorem stops_of_isSpace {u : ℕ} (h : Shopping.isSpace u = true) : isDigit u = false ∧ isPoint u = false := by
  simp only [Shopping.isSpace, Bool.or_eq_true, Bool.and_eq_true, decide_eq_true_eq, List.mem_cons, List.not_mem_nil,
    or_false] at h
  simp only [isDigit, isPoint, Bool.and_eq_false_iff, Bool.or_eq_false_iff, decide_eq_false_iff_not]
  omega

/-- A number ends before blanks and before a unit. -/
theorem stops_append (hblanks : ∀ u ∈ blanks, Shopping.isSpace u = true) (hrest : Stops rest) :
    Stops (blanks ++ rest) := by
  cases blanks with
  | nil => exact hrest
  | cons v blanks =>
    intro u hu
    obtain rfl : v = u := by simpa using hu
    exact stops_of_isSpace (hblanks v List.mem_cons_self)

theorem run_start (t : Text) : run start k ⟨none, t, caps⟩ = k ⟨none, t, caps⟩ := rfl

theorem start_fails (rs : List (Regex ℕ)) (u : ℕ) (t : Text) : matchAt (seqs (start :: rs)) (some u) t = none := rfl

theorem run_finish : run finish k ⟨prev, [], caps⟩ = k ⟨prev, [], caps⟩ := rfl

/-- A number, blanks and a unit, or none, are read as that. -/
theorem numberOf_eq (hnum : IsNumber num) (hblanks : ∀ u ∈ blanks, Shopping.isSpace u = true)
    (hunit : unit = [] ∨ IsUnit unit) : ∃ value, numberOf (num ++ (blanks ++ unit)) = some (value, unit) := by
  have hspace : ∀ u ∈ unit, Shopping.isSpace u = false := by
    rcases hunit with rfl | hunit
    · simp
    · exact fun u hu => (hunit.plain u hu).2
  have hstops : Stops unit := by
    rcases hunit with rfl | hunit
    · exact fun u hu => by cases hu
    · have hstops := @IsUnit.stops _ [] hunit
      rwa [List.append_nil] at hstops
  have hword : ∀ prev caps, run (seqs [group 2 (.star true isDot), finish]) some ⟨prev, unit, caps⟩ =
      some ⟨lastOf prev unit, [], (2, unit) :: caps⟩ := by
    intro prev caps
    rw [run_seqs_cons, run_group]
    have hstar : ∀ k : State ℕ → Option (State ℕ), ∀ b, k ⟨lastOf prev unit, [], caps⟩ = some b →
        runStar true isDot caps k prev (unit ++ []) = some b := fun k b hk =>
      star_greedy_of_some (fun u hu => isDot_of_not_isSpace (hspace u hu)) (by simp) hk
    rw [List.append_nil] at hstar
    refine hstar _ _ ?_
    rw [run_seqs_cons, run_finish, run_seqs_nil]
    simp
  have hmatch : matchAt amountPattern none (num ++ (blanks ++ unit)) =
      some ⟨lastOf (lastOf (lastOf none num) blanks) unit, [], [(2, unit), (1, num)]⟩ := by
    rw [matchAt, amountPattern, run_seqs_cons, run_start, run_seqs_cons, run_group]
    refine run_numeral hnum (stops_append hblanks hstops) ?_
    simp only [captured]
    rw [run_seqs_cons]
    refine star_greedy_of_some hblanks (fun u hu => hspace u (List.mem_of_mem_head? hu)) ?_
    exact hword _ _
  have hexec : exec amountPattern (num ++ (blanks ++ unit)) =
      some ⟨num ++ (blanks ++ unit), [(2, unit), (1, num)]⟩ := by
    have hanchored : ∀ u t, matchAt amountPattern (some u) t = none := start_fails _
    rw [exec_anchored hanchored, hmatch, Option.map_some]
    simp
  have htrim : Shopping.trim unit = unit := trim_of_forall hspace
  refine ⟨(number (pointed num)).getD 0, ?_⟩
  rw [numberOf, hexec, Option.map_some]
  simp [Found.cap, List.lookup, htrim]

/-! ## What is split off -/

/-- The sums count an amount as a number, in a unit of the table or as a count. -/
def Counted (c : Casing) (amount : Text) : Prop :=
  ∃ item, items [some amount] = [item] ∧ (item.2 = [] ∨ (unitOf c item.2).isSome = true)

/-- Every amount that is split off a text is counted. -/
def SplitsCounted (c : Casing) (text : Text) : Prop :=
  ∀ name amount, parseIngredient c text = some (name, some amount) → Counted c amount

/-- A unit is spelled with a long s: behind a number, and before the name. -/
def LongS (text : Text) : Prop :=
  ∃ num blanks unit behind, Shopping.trim text = num ++ (blanks ++ (unit ++ behind)) ∧ IsNumber num ∧
    (∀ u ∈ blanks, Shopping.isSpace u = true) ∧ IsUnit unit ∧ 0x17F ∈ unit ∧
    behind.head?.any Shopping.isSpace = true ∧ ∀ u ∈ behind.dropWhile Shopping.isSpace, isDot u = true

theorem IsNumber.ne_nil (h : IsNumber num) : num ≠ [] := by
  cases h with
  | whole _ hne => exact hne
  | fraction _ hne => simp [hne]

theorem IsNumber.not_isSpace (h : IsNumber num) : ∀ u ∈ num, Shopping.isSpace u = false := by
  have hdigit : ∀ u, isDigit u = true ∨ isPoint u = true → Shopping.isSpace u = false := fun u hu =>
    Bool.eq_false_iff.2 fun hspace => by
      have hnot := stops_of_isSpace hspace
      rcases hu with hu | hu
      · rw [hu] at hnot; cases hnot.1
      · rw [hu] at hnot; cases hnot.2
  cases h with
  | whole hint _ => exact fun u hu => hdigit u (.inl (hint u hu))
  | fraction hint _ hp hfrac _ =>
    intro u hu
    rcases List.mem_append.1 hu with hu | hu
    · exact hdigit u (.inl (hint u hu))
    · rcases List.mem_cons.1 hu with rfl | hu
      · exact hdigit _ (.inr hp)
      · exact hdigit u (.inl (hfrac u hu))

/-- What starts and ends with no blank is trimmed already, and blanks behind it are trimmed. -/
theorem trim_append {t : Text} (hhead : ∀ u ∈ t.head?, Shopping.isSpace u = false)
    (hlast : ∀ u ∈ t.getLast?, Shopping.isSpace u = false) (hne : t ≠ [])
    (hblanks : ∀ u ∈ blanks, Shopping.isSpace u = true) : Shopping.trim (t ++ blanks) = t := by
  obtain ⟨u, t, rfl⟩ := List.exists_cons_of_ne_nil hne
  have hdrop : (u :: t ++ blanks).dropWhile Shopping.isSpace = u :: t ++ blanks :=
    List.dropWhile_cons_of_neg (by simp [hhead u rfl])
  have hrev : ((u :: t).reverse).dropWhile Shopping.isSpace = (u :: t).reverse := by
    cases hr : (u :: t).reverse with
    | nil => rfl
    | cons v r =>
      have hv : Shopping.isSpace v = false := hlast v (by rw [← List.head?_reverse, hr]; rfl)
      exact List.dropWhile_cons_of_neg (by simp [hv])
  rw [Shopping.trim, hdrop, List.reverse_append,
    List.dropWhile_append_of_pos (fun v hv => hblanks v (List.mem_reverse.1 hv)), hrev, List.reverse_reverse]

/-- A trimmed text does not end with blanks. -/
theorem trim_ne_append {t : Text} {text : Text} (h : Shopping.trim text = t ++ blanks) (hne : blanks ≠ [])
    (hblanks : ∀ u ∈ blanks, Shopping.isSpace u = true) : False := by
  have hrev : (Shopping.trim text).reverse = (text.dropWhile Shopping.isSpace).reverse.dropWhile Shopping.isSpace := by
    rw [Shopping.trim, List.reverse_reverse]
  have hnot := List.head?_dropWhile_not Shopping.isSpace (text.dropWhile Shopping.isSpace).reverse
  rw [← hrev, h, List.reverse_append] at hnot
  obtain ⟨u, r, hr⟩ := List.exists_cons_of_ne_nil (List.reverse_ne_nil_iff.2 hne)
  rw [hr, List.cons_append, List.head?_cons] at hnot
  have hu : Shopping.isSpace u = true := hblanks u (List.mem_reverse.1 (hr ▸ List.mem_cons_self))
  have hnone : Shopping.isSpace u = false := hnot
  rw [hu] at hnone
  cases hnone

theorem IsNumber.head (h : IsNumber num) : ∀ u ∈ (num ++ rest).head?, Shopping.isSpace u = false := by
  intro u hu
  rw [List.head?_append_of_ne_nil _ h.ne_nil] at hu
  exact h.not_isSpace u (List.mem_of_mem_head? hu)

/-- What is split off is trimmed to the number, or to the number and its unit. -/
theorem trim_amount (hnum : IsNumber num) (hblanks : ∀ u ∈ blanks, Shopping.isSpace u = true)
    (hunit : unit = [] ∨ IsUnit unit) : ∃ gap, (∀ u ∈ gap, Shopping.isSpace u = true) ∧
      Shopping.trim (num ++ (blanks ++ unit)) = num ++ (gap ++ unit) := by
  rcases hunit with rfl | hunit
  · refine ⟨[], by simp, ?_⟩
    have hlast : ∀ u ∈ num.getLast?, Shopping.isSpace u = false := fun u hu =>
      hnum.not_isSpace u (List.mem_of_mem_getLast? hu)
    have hhead := @IsNumber.head _ [] hnum
    rw [List.append_nil] at hhead
    simpa using trim_append hhead hlast hnum.ne_nil hblanks
  · refine ⟨blanks, hblanks, ?_⟩
    have hlast : ∀ u ∈ (num ++ (blanks ++ unit)).getLast?, Shopping.isSpace u = false := by
      intro u hu
      rw [← List.append_assoc, List.getLast?_append_of_ne_nil _ hunit.ne_nil] at hu
      exact (hunit.plain u (List.mem_of_mem_getLast? hu)).2
    have hhead := @IsNumber.head _ (blanks ++ unit) hnum
    have htrim := trim_append hhead hlast (by simp [hnum.ne_nil]) (List.forall_mem_nil (Shopping.isSpace · = true))
    rwa [List.append_nil] at htrim

/-- What is split off is counted unless its unit is spelled with a long s. -/
theorem counted_iff (hnum : IsNumber num) (hblanks : ∀ u ∈ blanks, Shopping.isSpace u = true)
    (hunit : unit = [] ∨ IsUnit unit) :
    Counted c (Shopping.trim (num ++ (blanks ++ unit))) ↔ 0x17F ∉ unit := by
  obtain ⟨gap, hgap, htrim⟩ := trim_amount hnum hblanks hunit
  obtain ⟨value, hvalue⟩ := numberOf_eq hnum hgap hunit
  have htwice : Shopping.trim (num ++ (gap ++ unit)) = num ++ (gap ++ unit) := by rw [← htrim, trim_trim]
  have hne : num ++ (gap ++ unit) ≠ [] := by simp [hnum.ne_nil]
  have hitems : items [some (Shopping.trim (num ++ (blanks ++ unit)))] = [(value, unit)] := by
    simp [items, htrim, htwice, hne, hvalue]
  have hcounted : Counted c (Shopping.trim (num ++ (blanks ++ unit))) ↔ unit = [] ∨ (unitOf c unit).isSome = true := by
    constructor
    · rintro ⟨item, hitem, hunit⟩
      rw [hitems] at hitem
      cases hitem
      exact hunit
    · exact fun hunit => ⟨(value, unit), hitems, hunit⟩
  rw [hcounted]
  rcases hunit with rfl | hunit
  · simp
  · rw [hunit.isSome_unitOf, or_iff_right hunit.ne_nil]

/-- What a word of the pattern matches is a unit. -/
theorem reaches_unit {w : Text} (hw : w ∈ unitWords c) {s t : State ℕ} (h : Reaches (word w) s t) :
    ∃ unit, IsUnit unit ∧ s.rest = unit ++ t.rest ∧ t = ⟨lastOf s.prev unit, t.rest, s.caps⟩ := by
  obtain ⟨e, he, rfl⟩ := mem_unitWords.1 hw
  obtain ⟨unit, hrest, hfold, hprev, hcaps⟩ := reaches_word h
  refine ⟨unit, ⟨e, he, hfold.trans (plainTable_checked e he).1⟩, hrest, ?_⟩
  rw [← hprev, ← hcaps]

/-- What the pattern splits off: a number, blanks, and a unit before a blank, or none; the name is on one line. -/
theorem split_of_match {t : Text} {s : State ℕ} (h : matchAt (leadingAmount c) none t = some s) :
    ∃ num blanks unit behind, t = num ++ (blanks ++ (unit ++ behind)) ∧ IsNumber num ∧
      (∀ u ∈ blanks, Shopping.isSpace u = true) ∧ (unit = [] ∨ IsUnit unit) ∧
      behind.head?.any Shopping.isSpace = true ∧ (∀ u ∈ behind.dropWhile Shopping.isSpace, isDot u = true) ∧
      s.caps.lookup 1 = some (num ++ (blanks ++ unit)) := by
  obtain ⟨s', hreach, hs⟩ := exists_of_run h
  obtain rfl : s' = s := Option.some.inj hs
  obtain ⟨-, ⟨-, rfl⟩, s₁, ⟨v, hamount, rfl⟩, s₂, hgap, s₃, ⟨w, hname, rfl⟩, s₄, ⟨hend, rfl⟩, rfl⟩ := hreach
  obtain ⟨v₁, hnumeral, v₂, ⟨blanks, hblanks, hrest₂, -, hcaps₂⟩, v₃, hunit, rfl⟩ := hamount
  obtain ⟨num, hnum, hrest₁, hcaps₁⟩ := reaches_numeral hnumeral
  obtain ⟨gap, hgapne, hgap, hgaprest, hgapcaps⟩ := reaches_plus hgap
  obtain ⟨name, -, hname, hnamerest, hnamecaps⟩ := reaches_plus hname
  have hwrest : w.rest = [] := by
    cases hw : w.rest with
    | nil => rfl
    | cons u rest => simp [hw] at hend
  obtain ⟨unit, hunit, hrest₃⟩ : ∃ unit, (unit = [] ∨ IsUnit unit) ∧ v₂.rest = unit ++ v.rest := by
    rcases hunit with ⟨x, halts, -, rfl⟩ | rfl
    · obtain ⟨r, hr, hword⟩ := reaches_alts halts
      obtain ⟨w', hw', rfl⟩ := List.mem_map.1 hr
      obtain ⟨unit, hunit, hrest, -⟩ := reaches_unit hw' hword
      exact ⟨unit, .inr hunit, hrest⟩
    · exact ⟨[], .inl rfl, rfl⟩
  have hbehind : v.rest = gap ++ name := by
    rw [hgaprest, hnamerest, hwrest, List.append_nil]
  have ht : t = num ++ (blanks ++ (unit ++ v.rest)) := by
    rw [← hrest₃, ← hrest₂, ← hrest₁]
  obtain ⟨g, gap, rfl⟩ := List.exists_cons_of_ne_nil hgapne
  refine ⟨num, blanks, unit, v.rest, ht, hnum, hblanks, hunit, ?_, ?_, ?_⟩
  · rw [hbehind]
    exact hgap g List.mem_cons_self
  · intro u hu
    rw [hbehind, List.dropWhile_append_of_pos hgap] at hu
    exact hname u ((List.dropWhile_sublist _).subset hu)
  · have htake : t.take (t.length - v.rest.length) = num ++ (blanks ++ unit) := by
      rw [ht, ← List.append_assoc blanks, ← List.append_assoc, captured]
    simp only [hnamecaps, hgapcaps, htake]
    rfl

/-- A word ends where the first blank stands. -/
theorem takeWhile_word {w r : Text} (hw : ∀ u ∈ w, Shopping.isSpace u = false)
    (hr : r.head?.any Shopping.isSpace = true) : (w ++ r).takeWhile (fun u => !Shopping.isSpace u) = w := by
  cases r with
  | nil => cases hr
  | cons u r =>
    have hu : Shopping.isSpace u = true := hr
    rw [List.takeWhile_append_of_pos (fun v hv => by simp [hw v hv]), List.takeWhile_cons_of_neg (by simp [hu]),
      List.append_nil]

/-- Of the words of the pattern only the one before the blank goes on. -/
theorem run_unit {kont : State ℕ → Option (State ℕ)} {last : State ℕ} {behind : Text} (hunit : IsUnit unit)
    (hhead : behind.head?.any Shopping.isSpace = true) (h : kont ⟨lastOf prev unit, behind, caps⟩ = some last) :
    run (opt (seq (alts ((unitWords c).map word)) (look fun _ behind => behind.any Shopping.isSpace))) kont
      ⟨prev, unit ++ behind, caps⟩ = some last := by
  have hlook : ∀ s : State ℕ, run (look fun _ behind => behind.any Shopping.isSpace) kont s =
      if s.rest.head?.any Shopping.isSpace then kont s else none := fun s => rfl
  have hwords : run (alts ((unitWords c).map word)) (run (look fun _ behind => behind.any Shopping.isSpace) kont)
      ⟨prev, unit ++ behind, caps⟩ = some last := by
    refine run_alts_of_forall (fun r hr b hrun => ?_) ?_
    · obtain ⟨w, hw, rfl⟩ := List.mem_map.1 hr
      obtain ⟨t, hreach, ht⟩ := exists_of_run hrun
      obtain ⟨unit', hunit', hrest, heq⟩ := reaches_unit hw hreach
      rw [hlook] at ht
      split_ifs at ht with hspace
      have hsame : unit' = unit := by
        rw [← takeWhile_word (fun u hu => (hunit'.plain u hu).2) hspace, ← hrest,
          takeWhile_word (fun u hu => (hunit.plain u hu).2) hhead]
      subst hsame
      rw [heq, ← List.append_cancel_left hrest, h] at ht
      exact (Option.some.inj ht).symm
    · obtain ⟨e, he, hfold⟩ := hunit
      refine ⟨word e.1, List.mem_map_of_mem (mem_unitWords.2 ⟨e, he, rfl⟩), ?_⟩
      rw [run_word (hfold.trans (plainTable_checked e he).1.symm), hlook, if_pos hhead, h]
  simp only [opt, run] at hwords ⊢
  rw [hwords, Option.some_or]

/-- Behind the amount stand blanks and the name. -/
theorem run_behind {gap name : Text} (hgap : ∀ u ∈ gap, Shopping.isSpace u = true) (hgapne : gap ≠ [])
    (hname : ∀ u ∈ name, isDot u = true) (hnamene : name ≠ [])
    (hstop : ∀ u ∈ name.head?, Shopping.isSpace u = false) :
    run (seqs [plus Shopping.isSpace, group 2 (plus isDot), finish]) some ⟨prev, gap ++ name, caps⟩ =
      some ⟨lastOf (lastOf prev gap) name, [], (2, name) :: caps⟩ := by
  rw [run_seqs_cons]
  refine run_plus hgap hgapne hstop ?_
  rw [run_seqs_cons, run_group]
  have hend : ∀ k : State ℕ → Option (State ℕ), ∀ b, k ⟨lastOf (lastOf prev gap) name, [], caps⟩ = some b →
      run (plus isDot) k ⟨lastOf prev gap, name, caps⟩ = some b := fun k b hk => by
    rw [← List.append_nil name]
    exact run_plus hname hnamene (by simp) hk
  refine hend _ _ ?_
  rw [run_seqs_cons, run_finish, run_seqs_nil]
  simp

/-- A number and a unit before a blank are split off together, where a name stands behind them. -/
theorem match_of_split {behind : Text} (hnum : IsNumber num) (hblanks : ∀ u ∈ blanks, Shopping.isSpace u = true)
    (hunit : IsUnit unit) (hhead : behind.head?.any Shopping.isSpace = true)
    (hdot : ∀ u ∈ behind.dropWhile Shopping.isSpace, isDot u = true)
    (hname : behind.dropWhile Shopping.isSpace ≠ []) :
    ∃ s, matchAt (leadingAmount c) none (num ++ (blanks ++ (unit ++ behind))) = some s ∧
      s.caps.lookup 1 = some (num ++ (blanks ++ unit)) := by
  have hgap : ∀ u ∈ behind.takeWhile Shopping.isSpace, Shopping.isSpace u = true := fun u hu =>
    List.mem_takeWhile_imp hu
  have hgapne : behind.takeWhile Shopping.isSpace ≠ [] := by
    cases behind with
    | nil => cases hhead
    | cons u behind =>
      have hu : Shopping.isSpace u = true := hhead
      simp [hu]
  have hstop : ∀ u ∈ (behind.dropWhile Shopping.isSpace).head?, Shopping.isSpace u = false := by
    intro u hu
    have hnot := List.head?_dropWhile_not Shopping.isSpace behind
    rw [hu] at hnot
    exact hnot
  have hrest : ∀ prev caps, run (seqs [plus Shopping.isSpace, group 2 (plus isDot), finish]) some
      ⟨prev, behind, caps⟩ = some ⟨lastOf (lastOf prev (behind.takeWhile Shopping.isSpace))
        (behind.dropWhile Shopping.isSpace), [], (2, behind.dropWhile Shopping.isSpace) :: caps⟩ := by
    intro prev caps
    have hrun := @run_behind prev caps _ _ hgap hgapne hdot hname hstop
    rwa [List.takeWhile_append_dropWhile] at hrun
  have hword : ∀ prev caps (kont : State ℕ → Option (State ℕ)) last,
      kont ⟨lastOf (lastOf (lastOf prev num) blanks) unit, behind, caps⟩ = some last →
      run (seqs [numeral, spaces,
        opt (seq (alts ((unitWords c).map word)) (look fun _ behind => behind.any Shopping.isSpace))]) kont
        ⟨prev, num ++ (blanks ++ (unit ++ behind)), caps⟩ = some last := by
    intro prev caps kont last hlast
    rw [run_seqs_cons]
    refine run_numeral hnum (stops_append hblanks hunit.stops) ?_
    rw [run_seqs_cons]
    refine star_greedy_of_some hblanks (fun u hu => ?_) ?_
    · rw [List.head?_append_of_ne_nil _ hunit.ne_nil] at hu
      exact (hunit.plain u (List.mem_of_mem_head? hu)).2
    · rw [run_seqs_cons]
      exact run_unit hunit hhead hlast
  have hamount : (num ++ (blanks ++ (unit ++ behind))).take
      ((num ++ (blanks ++ (unit ++ behind))).length - behind.length) = num ++ (blanks ++ unit) := by
    rw [← List.append_assoc blanks, ← List.append_assoc, captured]
  refine ⟨⟨lastOf (lastOf (lastOf (lastOf (lastOf none num) blanks) unit) (behind.takeWhile Shopping.isSpace))
    (behind.dropWhile Shopping.isSpace), [],
    [(2, behind.dropWhile Shopping.isSpace), (1, num ++ (blanks ++ unit))]⟩, ?_, rfl⟩
  rw [matchAt, leadingAmount, run_seqs_cons, run_start, run_seqs_cons, run_group]
  refine hword _ _ _ _ ?_
  rw [hrest]
  simp only [hamount]

/-- An amount is split off where the pattern matches at the start of the text. -/
theorem parseIngredient_amount {text amount : Text} :
    (∃ name, parseIngredient c text = some (name, some amount)) ↔
      ∃ s, matchAt (leadingAmount c) none (Shopping.trim text) = some s ∧
        Shopping.trim ((s.caps.lookup 1).getD []) = amount := by
  have hanchored : ∀ u t, matchAt (leadingAmount c) (some u) t = none := start_fails _
  rw [parseIngredient]
  by_cases hempty : Shopping.trim text = []
  · constructor
    · rintro ⟨name, h⟩
      rw [if_pos hempty] at h
      cases h
    · rintro ⟨s, hs, -⟩
      obtain ⟨num, blanks, unit, behind, htext, hnum, -⟩ := split_of_match hs
      exact absurd (List.append_eq_nil_iff.1 (htext.symm.trans hempty)).1 hnum.ne_nil
  · simp only [if_neg hempty, exec_anchored hanchored]
    cases hmatch : matchAt (leadingAmount c) none (Shopping.trim text) with
    | none => simp
    | some s => simp [Found.cap]

/-- What is split off is counted exactly where no unit is spelled with a long s. -/
theorem splitsCounted_iff (c : Casing) (text : Text) : SplitsCounted c text ↔ ¬ LongS text := by
  constructor
  · rintro hcounted ⟨num, blanks, unit, behind, htext, hnum, hblanks, hunit, hlong, hhead, hdot⟩
    have hname : behind.dropWhile Shopping.isSpace ≠ [] := by
      intro hnone
      have hspaces : ∀ u ∈ behind, Shopping.isSpace u = true := List.dropWhile_eq_nil_iff.1 hnone
      have hbehind : behind ≠ [] := by
        rintro rfl
        cases hhead
      rw [← List.append_assoc blanks, ← List.append_assoc] at htext
      exact trim_ne_append htext hbehind hspaces
    obtain ⟨s, hs, hcap⟩ := match_of_split (c := c) hnum hblanks hunit hhead hdot hname
    rw [← htext] at hs
    obtain ⟨name, hparse⟩ := parseIngredient_amount.2 ⟨s, hs, rfl⟩
    have hone := hcounted name _ hparse
    rw [hcap, Option.getD_some, counted_iff hnum hblanks (.inr hunit)] at hone
    exact hone hlong
  · intro hshort name amount hparse
    obtain ⟨s, hs, rfl⟩ := parseIngredient_amount.1 ⟨name, hparse⟩
    obtain ⟨num, blanks, unit, behind, htext, hnum, hblanks, hunit, hhead, hdot, hcap⟩ := split_of_match hs
    rw [hcap, Option.getD_some, counted_iff hnum hblanks hunit]
    intro hlong
    rcases hunit with rfl | hunit
    · cases hlong
    · exact hshort ⟨num, blanks, unit, behind, htext, hnum, hblanks, hunit, hlong, hhead, hdot⟩

/-- Amounts are conserved and what is split off is counted, except where a total is shown as nothing and where a unit is
spelled with a long s. -/
theorem conserved_and_counted_iff (c : Casing) (amounts : List (Option Text)) (text : Text) :
    (Conserves c amounts ∧ SplitsCounted c text) ↔
      (∀ k, ¬ (0 < total c amounts k ∧ total c amounts k < 1 / 200)) ∧ ¬ LongS text :=
  and_congr (conserves_iff c amounts) (splitsCounted_iff c text)

/-- `toLowerCase`, on the letters of the units. -/
def plainCasing : Casing := ⟨fun t => t.map lowerUnit, fun _ _ => rfl⟩

theorem longS_honey : LongS (units "2 Glaſ Honig") :=
  ⟨units "2", units " ", units "Glaſ", units " Honig", by decide, .whole (by decide) (by decide), by decide,
    by unfold IsUnit; decide +kernel, by decide, by decide, by decide⟩

/-- A milligram is shown as nothing, and a glass with a long s is split off and not counted. -/
theorem milligram_vanishes_long_s_uncounted :
    sumAmounts plainCasing [some (units "1 mg")] = [.amount 0 (units "g")] ∧
      ¬ Conserves plainCasing [some (units "1 mg")] ∧ ¬ SplitsCounted plainCasing (units "2 Glaſ Honig") := by
  have htotal : total plainCasing [some (units "1 mg")] (.family .mass) = 1 / 1000 := by decide +kernel
  refine ⟨?_, fun hconserves => ?_, fun hcounted => ?_⟩
  · decide +kernel
  · refine (conserves_iff _ _).1 hconserves (.family .mass) ?_
    rw [htotal]
    norm_num
  · exact (splitsCounted_iff _ _).1 hcounted longS_honey

end Amounts

end JitPack
