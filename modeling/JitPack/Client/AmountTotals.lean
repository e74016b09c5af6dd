import JitPack.Client.Amounts

/-!
# What the amounts of a line add up to

The map that `sumAmounts` fills is the numbers of the list grouped by their keys, with the other texts among them
(`summed`), and an entry's base is the total of its key (`of_mem_grouped`). `report_running` says that an entry is
reported in a unit of its own key. What is left is the rounding: a total is shown up to two decimals of its unit, and as
nothing where it is less than half of the second one (`conserves_iff`).
-/

namespace JitPack

namespace Amounts

open Shopping (Text)
open Numeral
open Regex
open Gpx (units spaces)

variable {c : Casing}

/-! ## The table -/

/-- The table, its spellings in small letters. -/
def plainTable : List (Text × TableUnit) :=
  table.flatMap fun unit => unit.spellings.map fun s => (s.map lowerUnit, unit)

/-- Every spelling is of plain letters without blanks, and is that of one unit. -/
theorem table_checked : ∀ u ∈ table, ∀ s ∈ u.spellings, (∀ x ∈ s, IsPlain x ∧ Shopping.isSpace x = false) ∧
    (Keyed.last Prod.fst plainTable (s.map lowerUnit)).map Prod.snd = some u := by
  decide +kernel

/-- What is named has its one and its many. -/
theorem table_paired : ∀ u ∈ table, (u.family = .named → u.spellings.length % 2 = 0 ∧ u.factor = 1) ∧
    1 ≤ 1000 * u.factor := by
  decide +kernel

theorem bySpelling_eq (c : Casing) : bySpelling c = plainTable := by
  refine List.flatMap_congr fun u hu => List.map_congr_left fun s hs => ?_
  rw [c.plain s fun x hx => ((table_checked u hu s hs).1 x hx).1]

/-- A spelling names its unit. -/
theorem unitOf_spelling {u : TableUnit} {s : Text} (hu : u ∈ table) (hs : s ∈ u.spellings) : unitOf c s = some u := by
  obtain ⟨hplain, hlast⟩ := table_checked u hu s hs
  rw [unitOf, bySpelling_eq, trim_of_forall fun x hx => (hplain x hx).2, c.plain s fun x hx => (hplain x hx).1, hlast]

/-- What names a unit is one of its spellings, case aside. -/
theorem exists_of_unitOf {u : TableUnit} {s : Text} (h : unitOf c s = some u) :
    u ∈ table ∧ ∃ s' ∈ u.spellings, c.lower s' = c.lower (Shopping.trim s) := by
  obtain ⟨e, he, rfl⟩ := Option.map_eq_some_iff.1 h
  obtain ⟨hmem, hkey⟩ := Keyed.mem_of_last he
  obtain ⟨u, hu, hentry⟩ := List.mem_flatMap.1 hmem
  obtain ⟨s', hs', rfl⟩ := List.mem_map.1 hentry
  exact ⟨hu, s', hs', hkey⟩

theorem unitFor_of_ne {s : Text} (h : s ≠ []) : unitFor c s = unitOf c s := if_neg h

theorem unitFor_nil :
    unitFor c [] = some (measure "piece" .count 1 ["Stk.", "Stk", "Stück", "piece", "pieces", "pc", "pcs"]) := by
  rw [unitFor, if_pos rfl]
  exact unitOf_spelling (by decide) (by decide)

theorem unitFor_mem {u : TableUnit} {s : Text} (h : unitFor c s = some u) : u ∈ table := by
  unfold unitFor at h
  split_ifs at h <;> exact (exists_of_unitOf h).1

theorem keyOf_ne_text (s : Text) (n : ℕ) : keyOf c s ≠ .text n := by
  unfold keyOf
  split
  · exact Key.noConfusion
  · split_ifs <;> exact Key.noConfusion

/-! ## The map of totals -/

section
variable (c)

/-- The numbers among the amounts, with their spellings. -/
def items (amounts : List (Option Text)) : List (ℚ × Text) :=
  amounts.filterMap fun raw => if Shopping.trim (raw.getD []) = [] then none else numberOf (Shopping.trim (raw.getD []))

/-- The amounts that are no numbers. -/
def unread (amounts : List (Option Text)) : List Text :=
  amounts.filterMap fun raw =>
    if Shopping.trim (raw.getD []) = [] ∨ (numberOf (Shopping.trim (raw.getD []))).isSome then none
    else some (Shopping.trim (raw.getD []))

/-- How much of the base a number is. -/
def baseOf (item : ℚ × Text) : ℚ := item.1 * factorOf c item.2

/-- The total of a family or of a unit, in its base. -/
def total (amounts : List (Option Text)) (k : Key) : ℚ :=
  (((items amounts).filter (keyOf c ·.2 = k)).map (baseOf c)).sum

def startOf (item : ℚ × Text) : Running := ⟨unitFor c item.2, baseOf c item, item.2⟩

def moreOf (r : Running) (item : ℚ × Text) : Running := { r with base := r.base + baseOf c item }

/-- The numbers of a line, by key. -/
def grouped (amounts : List (Option Text)) : List (Key × Running) :=
  Grouping.group (keyOf c ·.2) (startOf c) (moreOf c) (items amounts)

end

def runningOf : Key × Entry → Option (Key × Running)
  | (k, .running r) => some (k, r)
  | (_, .text _) => none

def textOf : Key × Entry → Option Text
  | (_, .running _) => none
  | (_, .text t) => some t

/-- Texts stand under numbers below the size of the map, and what is counted under keys of its own. -/
def Apart (totals : List (Key × Entry)) : Prop :=
  ∀ e ∈ totals, (∃ n < totals.length, ∃ t, e = (.text n, .text t)) ∨ ∃ k r, (∀ n, k ≠ .text n) ∧ e = (k, .running r)

/-- What the loop keeps: texts stand apart from numbers and in their order, and the numbers are grouped by key. -/
structure Summed (c : Casing) (amounts : List (Option Text)) (totals : List (Key × Entry)) : Prop where
  apart : Apart totals
  texts : totals.filterMap textOf = unread amounts
  numbers : totals.filterMap runningOf = grouped c amounts

theorem upsert_text {totals : List (Key × Entry)} {more : Entry → Entry} {entry : Entry} (h : Apart totals) :
    Grouping.upsert entry more (.text totals.length) totals = totals ++ [(.text totals.length, entry)] := by
  refine if_neg fun hmem => ?_
  obtain ⟨e, he, hkey⟩ := List.mem_map.1 hmem
  rcases h e he with ⟨n, hn, t, rfl⟩ | ⟨k, r, hk, rfl⟩
  · cases hkey
    exact lt_irrefl _ hn
  · exact hk _ hkey

/-- A number changes or sets the entry of its key, whether texts stand between the numbers or not. -/
theorem filterMap_upsert {totals : List (Key × Entry)} {k : Key} {start : Running} {more : Running → Running}
    {f : Entry → Entry} (hf : ∀ r, f (.running r) = .running (more r)) (hk : ∀ n, k ≠ .text n) (h : Apart totals) :
    (Grouping.upsert (.running start) f k totals).filterMap runningOf =
        Grouping.upsert start more k (totals.filterMap runningOf) ∧
      (Grouping.upsert (.running start) f k totals).filterMap textOf = totals.filterMap textOf := by
  have hkeys : k ∈ (totals.filterMap runningOf).map Prod.fst ↔ k ∈ totals.map Prod.fst := by
    simp only [List.mem_map, List.mem_filterMap]
    constructor
    · rintro ⟨_, ⟨⟨k', e⟩, he, hrun⟩, rfl⟩
      cases e with
      | running r => cases hrun; exact ⟨_, he, rfl⟩
      | text t => cases hrun
    · rintro ⟨e, he, rfl⟩
      rcases h e he with ⟨n, -, t, rfl⟩ | ⟨k, r, -, rfl⟩
      · exact absurd rfl (hk n)
      · exact ⟨_, ⟨_, he, rfl⟩, rfl⟩
  unfold Grouping.upsert
  simp only [hkeys]
  split_ifs with hmem
  · rw [List.filterMap_map, List.filterMap_map, List.map_filterMap]
    constructor
    · refine List.filterMap_congr fun e he => ?_
      rcases h e he with ⟨n, -, t, rfl⟩ | ⟨k', r, -, rfl⟩
      · simp [runningOf, (hk n).symm]
      · by_cases heq : k' = k <;> simp [runningOf, heq, hf]
    · refine List.filterMap_congr fun e he => ?_
      rcases h e he with ⟨n, -, t, rfl⟩ | ⟨k', r, -, rfl⟩
      · simp [textOf, (hk n).symm]
      · by_cases heq : k' = k <;> simp [textOf, heq, hf]
  · simp [List.filterMap_append, runningOf, textOf]

theorem Apart.upsert {totals : List (Key × Entry)} {k : Key} {start : Running} {f : Entry → Entry}
    {more : Running → Running} (h : Apart totals) (hf : ∀ r, f (.running r) = .running (more r))
    (hk : ∀ n, k ≠ .text n) : Apart (Grouping.upsert (.running start) f k totals) := by
  have hlen : totals.length ≤ (Grouping.upsert (.running start) f k totals).length := by
    unfold Grouping.upsert
    split <;> simp
  intro e he
  have hcases : (e = (k, .running start)) ∨ ∃ e' ∈ totals, e = e' ∨ (e'.1 = k ∧ e = (e'.1, f e'.2)) := by
    unfold Grouping.upsert at he
    split at he
    · obtain ⟨e', he', rfl⟩ := List.mem_map.1 he
      refine .inr ⟨e', he', ?_⟩
      split_ifs with hkey
      · exact .inr ⟨hkey, rfl⟩
      · exact .inl rfl
    · rcases List.mem_append.1 he with he | he
      · exact .inr ⟨e, he, .inl rfl⟩
      · exact .inl (List.mem_singleton.1 he)
  rcases hcases with rfl | ⟨e', he', rfl | ⟨hkey, rfl⟩⟩
  · exact .inr ⟨k, start, hk, rfl⟩
  · rcases h e he' with ⟨n, hn, t, rfl⟩ | hrun
    · exact .inl ⟨n, hn.trans_le hlen, t, rfl⟩
    · exact .inr hrun
  · rcases h e' he' with ⟨n, hn, t, rfl⟩ | ⟨k', r, hk', rfl⟩
    · exact absurd hkey.symm (hk n)
    · exact .inr ⟨k', more r, hk', by rw [hf]⟩

theorem Summed.step {amounts : List (Option Text)} {totals : List (Key × Entry)} (h : Summed c amounts totals)
    (raw : Option Text) : Summed c (amounts ++ [raw]) (addAmount c totals raw) := by
  by_cases ha : Shopping.trim (raw.getD []) = []
  · have hadd : addAmount c totals raw = totals := by simp [addAmount, ha]
    have hitems : items (amounts ++ [raw]) = items amounts := by simp [items, List.filterMap_append, ha]
    rw [hadd]
    have htexts : unread (amounts ++ [raw]) = unread amounts := by simp [unread, List.filterMap_append, ha]
    exact ⟨h.apart, by rw [htexts]; exact h.texts, by rw [grouped, hitems]; exact h.numbers⟩
  cases hn : numberOf (Shopping.trim (raw.getD [])) with
  | none =>
    have hadd : addAmount c totals raw =
        totals ++ [(.text totals.length, .text (Shopping.trim (raw.getD [])))] := by
      simp only [addAmount, ha, if_false, hn]
      exact upsert_text h.apart
    have hitems : items (amounts ++ [raw]) = items amounts := by simp [items, List.filterMap_append, ha, hn]
    rw [hadd]
    refine ⟨fun e he => ?_, ?_, ?_⟩
    · rcases List.mem_append.1 he with he | he
      · rcases h.apart e he with ⟨n, hlt, t, rfl⟩ | hrun
        · exact .inl ⟨n, by rw [List.length_append]; omega, t, rfl⟩
        · exact .inr hrun
      · exact .inl ⟨_, by simp, _, List.mem_singleton.1 he⟩
    · rw [List.filterMap_append, h.texts]
      simp [unread, List.filterMap_append, ha, hn, textOf]
    · rw [List.filterMap_append, h.numbers]
      simp [grouped, hitems, runningOf]
  | some item =>
    obtain ⟨value, spelling⟩ := item
    have hitems : items (amounts ++ [raw]) = items amounts ++ [(value, spelling)] := by
      simp [items, List.filterMap_append, ha, hn]
    have hunread : unread (amounts ++ [raw]) = unread amounts := by simp [unread, List.filterMap_append, hn]
    obtain ⟨f, hf, hadd⟩ : ∃ f : Entry → Entry, (∀ r, f (.running r) = .running (moreOf c r (value, spelling))) ∧
        addAmount c totals raw =
          Grouping.upsert (.running (startOf c (value, spelling))) f (keyOf c spelling) totals := by
      simp only [addAmount, ha, if_false, hn]
      exact ⟨_, fun r => rfl, rfl⟩
    obtain ⟨hrunning, htexts⟩ := filterMap_upsert hf (keyOf_ne_text spelling) h.apart
    rw [hadd]
    refine ⟨h.apart.upsert hf (keyOf_ne_text spelling), by rw [htexts, h.texts, hunread], ?_⟩
    rw [hrunning, h.numbers, grouped, grouped, hitems, Grouping.group_append_singleton]

theorem summed (c : Casing) (amounts : List (Option Text)) : Summed c amounts (amounts.foldl (addAmount c) []) := by
  induction amounts using List.reverseRecOn with
  | nil => exact ⟨by simp [Apart], rfl, rfl⟩
  | append_singleton amounts raw ih =>
    rw [List.foldl_append]
    exact ih.step raw

/-! ## One entry -/

theorem trim_trim (t : Text) : Shopping.trim (Shopping.trim t) = Shopping.trim t := by
  have hstart : ∀ l : Text, l <+: t.dropWhile Shopping.isSpace → l.dropWhile Shopping.isSpace = l := by
    intro l hl
    cases l with
    | nil => rfl
    | cons u l =>
      obtain ⟨rest, hrest⟩ := hl
      have hnot := List.head?_dropWhile_not Shopping.isSpace t
      rw [← hrest, List.cons_append, List.head?_cons] at hnot
      exact List.dropWhile_cons_of_neg (by simp [hnot])
  have hinit : ((t.dropWhile Shopping.isSpace).reverse.dropWhile Shopping.isSpace).reverse <+:
      t.dropWhile Shopping.isSpace := by
    rw [← List.reverse_suffix, List.reverse_reverse]
    exact List.dropWhile_suffix _
  unfold Shopping.trim
  rw [hstart _ hinit, List.reverse_reverse, List.dropWhile_idempotent]

theorem trim_of_mem_items {amounts : List (Option Text)} {item : ℚ × Text} (h : item ∈ items amounts) :
    Shopping.trim item.2 = item.2 := by
  obtain ⟨raw, -, hraw⟩ := List.mem_filterMap.1 h
  split_ifs at hraw
  obtain ⟨m, -, rfl⟩ := Option.map_eq_some_iff.1 hraw
  exact trim_trim _

theorem foldl_moreOf (c : Casing) (xs : List (ℚ × Text)) (r : Running) :
    xs.foldl (moreOf c) r = { r with base := r.base + (xs.map (baseOf c)).sum } := by
  induction xs generalizing r with
  | nil => simp
  | cons x xs ih => simp [ih, moreOf, add_assoc]

/-- The entry of a key: its total, its unit, and the spelling that came first. -/
theorem of_mem_grouped {amounts : List (Option Text)} {k : Key} {r : Running} (h : (k, r) ∈ grouped c amounts) :
    keyOf c r.spelling = k ∧ r.unit = unitFor c r.spelling ∧ r.base = total c amounts k ∧
      Shopping.trim r.spelling = r.spelling := by
  have hgather := Grouping.mem_group.1 h
  cases hfilter : (items amounts).filter (keyOf c ·.2 = k) with
  | nil => rw [hfilter] at hgather; cases hgather
  | cons item more =>
    have hmem : item ∈ (items amounts).filter (keyOf c ·.2 = k) := hfilter ▸ List.mem_cons_self
    obtain ⟨hitem, hkey⟩ := List.mem_filter.1 hmem
    rw [hfilter, Grouping.gather, foldl_moreOf, Option.some.injEq] at hgather
    subst hgather
    refine ⟨of_decide_eq_true hkey, rfl, ?_, trim_of_mem_items hitem⟩
    rw [total, hfilter, List.map_cons, List.sum_cons]
    rfl

/-- The factor of the unit that a total is shown in. -/
def shown (k : Key) (base : ℚ) : ℚ :=
  match k with
  | .family .mass => if 1000 ≤ base then 1000 else 1
  | .family .volume => if 1000 ≤ base then 1000 else if 100 ≤ base then 100 else 1
  | _ => 1

theorem keyOf_of_unit {s : Text} {u : TableUnit} (h : unitFor c s = some u) :
    keyOf c s = if u.family = .named then .named u.id else .family u.family := by
  simp only [keyOf, h]

theorem factorOf_of_unit {s : Text} {u : TableUnit} (h : unitFor c s = some u) : factorOf c s = u.factor := by
  simp only [factorOf, h, Option.elim_some]

theorem unitFor_spelling {u : TableUnit} {s : Text} (hu : u ∈ table) (hs : s ∈ u.spellings) (hne : s ≠ []) :
    unitFor c s = some u := (unitFor_of_ne hne).trans (unitOf_spelling hu hs)

theorem spelling_ne_nil : ∀ u ∈ table, ∀ s ∈ u.spellings, s ≠ [] := by decide

/-- What a named unit is worded in is one of its spellings. -/
theorem namedTotal_mem {u : TableUnit} {s : Text} (h : unitFor c s = some u) (hnamed : u.family = .named)
    (htrim : Shopping.trim s = s) (value : ℚ) : namedTotal c u s value ∈ u.spellings := by
  have hne : s ≠ [] := by
    rintro rfl
    rw [unitFor_nil, Option.some.injEq] at h
    subst h
    cases hnamed
  obtain ⟨hu, s', hs', hlower⟩ := exists_of_unitOf ((unitFor_of_ne hne).symm.trans h)
  rw [htrim] at hlower
  have heven := (table_paired u hu).1 hnamed
  cases hfind : u.spellings.findIdx? (c.lower · = c.lower s) with
  | none => exact absurd hlower (by simpa using List.findIdx?_eq_none_iff.1 hfind s' hs')
  | some i =>
    have hi : i < u.spellings.length := List.findIdx?_eq_some_iff_getElem.1 hfind |>.1
    have hone : i - i % 2 < u.spellings.length := by omega
    have hmany : i - i % 2 + 1 < u.spellings.length := by omega
    simp only [namedTotal, hfind]
    split_ifs
    · rw [List.getD_eq_getElem _ _ hone]
      exact List.getElem_mem _
    · rw [List.getD_eq_getElem _ _ hmany]
      exact List.getElem_mem _

theorem label_of_spelling {u : TableUnit} {s : Text} (hu : u ∈ table) (hs : s ∈ u.spellings) :
    keyOf c s = (if u.family = .named then .named u.id else .family u.family) ∧ factorOf c s = u.factor :=
  have h := unitFor_spelling (c := c) hu hs (spelling_ne_nil u hu s hs)
  ⟨keyOf_of_unit h, factorOf_of_unit h⟩

/-- A family is shown in a unit of its own. -/
theorem display_label {f : UnitFamily} (h : f ≠ .named) (base : ℚ) :
    ∃ u, display f base = .amount (scaled base (shown (.family f) base)) u ∧ keyOf c u = .family f ∧
      factorOf c u = shown (.family f) base := by
  have hg := label_of_spelling (c := c) (u := measure "g" .mass 1 ["g", "Gramm", "gr", "gram", "grams"])
    (by decide) (s := units "g") (by decide)
  have hkg := label_of_spelling (c := c)
    (u := measure "kg" .mass 1000 ["kg", "Kilo", "Kilogramm", "kilogram", "kilograms"])
    (by decide) (s := units "kg") (by decide)
  have hml := label_of_spelling (c := c) (u := measure "ml" .volume 1 ["ml", "Milliliter", "millilitre", "milliliter"])
    (by decide) (s := units "ml") (by decide)
  have hdl := label_of_spelling (c := c) (u := measure "dl" .volume 100 ["dl", "Deziliter"])
    (by decide) (s := units "dl") (by decide)
  have hl := label_of_spelling (c := c) (u := measure "l" .volume 1000 ["l", "Liter", "litre", "litres", "liters"])
    (by decide) (s := units "l") (by decide)
  cases f with
  | mass =>
    simp only [display, shown]
    split_ifs
    · exact ⟨_, rfl, hkg⟩
    · exact ⟨_, rfl, hg⟩
  | volume =>
    simp only [display, shown]
    split_ifs
    · exact ⟨_, rfl, hl⟩
    · exact ⟨_, rfl, hdl⟩
    · exact ⟨_, rfl, hml⟩
  | count => exact ⟨[], rfl, keyOf_of_unit unitFor_nil, factorOf_of_unit unitFor_nil⟩
  | named => exact absurd rfl h

/-- An entry is reported under its key, in the unit its total is shown in. -/
theorem report_running {r : Running} (hunit : r.unit = unitFor c r.spelling)
    (htrim : Shopping.trim r.spelling = r.spelling) :
    ∃ u, report c (.running r) = .amount (scaled r.base (shown (keyOf c r.spelling) r.base)) u ∧
      keyOf c u = keyOf c r.spelling ∧ factorOf c u = shown (keyOf c r.spelling) r.base := by
  obtain ⟨unit, base, s⟩ := r
  dsimp only at hunit htrim ⊢
  subst hunit
  cases hu : unitFor c s with
  | none =>
    have hkey : keyOf c s = .word (c.lower s) := by simp only [keyOf, hu]
    exact ⟨s, by rw [hkey]; rfl, rfl, by rw [hkey, factorOf, hu]; rfl⟩
  | some unit =>
    have hmem : unit ∈ table := unitFor_mem hu
    rw [keyOf_of_unit hu, report]
    by_cases hnamed : unit.family = .named
    · rw [if_pos hnamed, if_pos hnamed]
      have hspelling := namedTotal_mem hu hnamed htrim (scaled base 1)
      obtain ⟨hkey, hfactor⟩ := label_of_spelling (c := c) hmem hspelling
      rw [if_pos hnamed] at hkey
      exact ⟨_, rfl, hkey, hfactor.trans ((table_paired unit hmem).1 hnamed).2⟩
    · rw [if_neg hnamed, if_neg hnamed]
      exact display_label hnamed base

/-! ## The totals -/

def amountOf : AmountTotal → Option (ℚ × Text)
  | .amount value unit => some (value, unit)
  | .text _ => none

def wordsOf : AmountTotal → Option Text
  | .amount _ _ => none
  | .text t => some t

/-- A reported amount is the total of a family or a unit, up to the second decimal of the unit it is shown in, and
nothing only where the total is nothing. -/
structure Reports (c : Casing) (amounts : List (Option Text)) (k : Key) (a : ℚ × Text) : Prop where
  key : keyOf c a.2 = k
  near : |a.1 - total c amounts k / factorOf c a.2| ≤ 1 / 200
  decimals : ∃ n : ℤ, a.1 = n / 100
  positive : 0 < total c amounts k → 0 < a.1

/-- A reported amount, as an amount of its unit. -/
def label (c : Casing) (a : ℚ × Text) : Key × ℚ × ℚ := (keyOf c a.2, factorOf c a.2, a.1)

/-- The sums conserve what was typed: what is no number stands one by one, each family and each unit is reported once,
and the amounts do not depend on the order of the list. -/
structure Conserves (c : Casing) (amounts : List (Option Text)) : Prop where
  texts : (sumAmounts c amounts).filterMap wordsOf = unread amounts
  numbers : ∃ ks : List Key, ks.Nodup ∧ (∀ k, k ∈ ks ↔ ∃ item ∈ items amounts, keyOf c item.2 = k) ∧
    List.Forall₂ (Reports c amounts) ks ((sumAmounts c amounts).filterMap amountOf)
  order : ∀ amounts' : List (Option Text), amounts'.Perm amounts →
    (((sumAmounts c amounts').filterMap amountOf).map (label c)).Perm
      (((sumAmounts c amounts).filterMap amountOf).map (label c))

theorem scaled_near (base : ℚ) {f : ℚ} : |scaled base f - base / f| ≤ 1 / 200 := by
  have hle := Int.floor_le (base / f * 100 + 1 / 2)
  have hlt := Int.lt_floor_add_one (base / f * 100 + 1 / 2)
  rw [scaled, abs_le]
  constructor <;> linarith

/-- What is shown as nothing is less than half of the second decimal. -/
theorem scaled_pos_iff {base f : ℚ} : 0 < scaled base f ↔ 1 / 200 ≤ base / f := by
  have hfloor : 0 < ⌊base / f * 100 + 1 / 2⌋ ↔ 1 / 200 ≤ base / f := by
    rw [← Int.add_one_le_iff, zero_add, Int.le_floor]
    push_cast
    constructor <;> intro h <;> linarith
  rw [← hfloor, scaled, div_pos_iff_of_pos_right (by norm_num)]
  exact_mod_cast Iff.rfl

/-- In a larger unit no total is shown as nothing. -/
theorem scaled_shown_pos_iff {base : ℚ} (k : Key) (h : 0 < base) : 0 < scaled base (shown k base) ↔ 1 / 200 ≤ base := by
  have hone : 0 < scaled base 1 ↔ 1 / 200 ≤ base := by rw [scaled_pos_iff, div_one]
  have hlarge : ∀ f : ℚ, 1 ≤ f → f ≤ base → (0 < scaled base f ↔ 1 / 200 ≤ base) := by
    intro f hf hle
    have hquot : 1 ≤ base / f := (one_le_div (by linarith)).2 hle
    rw [scaled_pos_iff]
    constructor <;> intro <;> linarith
  unfold shown
  split
  · split_ifs with h1
    · exact hlarge 1000 (by norm_num) h1
    · exact hone
  · split_ifs with h1 h2
    · exact hlarge 1000 (by norm_num) h1
    · exact hlarge 100 (by norm_num) h2
    · exact hone
  · exact hone

section
variable (c) (amounts : List (Option Text))

/-- What is reported of the numbers: the entries, each in the unit it is shown in. -/
theorem reported_amounts : ∃ unitOfEntry : Key × Running → Text,
    (sumAmounts c amounts).filterMap amountOf =
      (grouped c amounts).map (fun e => (scaled (total c amounts e.1) (shown e.1 (total c amounts e.1)), unitOfEntry e)) ∧
    ∀ e ∈ grouped c amounts, keyOf c (unitOfEntry e) = e.1 ∧
      factorOf c (unitOfEntry e) = shown e.1 (total c amounts e.1) := by
  have hreport : ∀ e ∈ grouped c amounts, ∃ u, report c (.running e.2) =
      .amount (scaled (total c amounts e.1) (shown e.1 (total c amounts e.1))) u ∧
        keyOf c u = e.1 ∧ factorOf c u = shown e.1 (total c amounts e.1) := by
    rintro ⟨k, r⟩ he
    obtain ⟨rfl, hunit, hbase, htrim⟩ := of_mem_grouped he
    obtain ⟨u, hu⟩ := report_running hunit htrim
    rw [hbase] at hu
    exact ⟨u, hu⟩
  choose! unitOfEntry hunit using hreport
  refine ⟨unitOfEntry, ?_, fun e he => (hunit e he).2⟩
  have hnumbers := (summed c amounts).numbers
  rw [sumAmounts, List.filterMap_map]
  have hentry : ∀ e ∈ amounts.foldl (addAmount c) [], (amountOf ∘ fun e : Key × Entry => report c e.2) e =
      (runningOf e).bind fun e => amountOf (report c (.running e.2)) := by
    rintro ⟨k, e⟩ -
    cases e <;> rfl
  rw [List.filterMap_congr hentry, ← List.filterMap_filterMap, hnumbers, ← List.filterMap_eq_map]
  refine List.filterMap_congr fun e he => ?_
  rw [(hunit e he).1]
  rfl

/-- What is reported of the texts. -/
theorem reported_texts : (sumAmounts c amounts).filterMap wordsOf = unread amounts := by
  rw [← (summed c amounts).texts, sumAmounts, List.filterMap_map]
  refine List.filterMap_congr fun e he => ?_
  rcases (summed c amounts).apart e he with ⟨n, -, t, rfl⟩ | ⟨k, r, hk, rfl⟩
  · rfl
  · obtain ⟨unit, base, s⟩ := r
    simp only [Function.comp, textOf]
    cases unit with
    | none => rfl
    | some unit =>
      simp only [report]
      unfold display
      split_ifs <;> first | rfl | (split <;> rfl)

theorem nodup_keys : ((grouped c amounts).map Prod.fst).Nodup := Grouping.nodup_keys_group _

theorem mem_keys {k : Key} : k ∈ (grouped c amounts).map Prod.fst ↔ ∃ item ∈ items amounts, keyOf c item.2 = k := by
  rw [grouped, Grouping.keys_group, Insertion.mem_ofList, List.mem_map]

/-- The amounts, labelled, by key. -/
theorem labels_eq : ((sumAmounts c amounts).filterMap amountOf).map (label c) =
    ((grouped c amounts).map Prod.fst).map fun k =>
      (k, shown k (total c amounts k), scaled (total c amounts k) (shown k (total c amounts k))) := by
  obtain ⟨unitOfEntry, hreported, hlabel⟩ := reported_amounts c amounts
  rw [hreported, List.map_map, List.map_map]
  refine List.map_congr_left fun e he => ?_
  obtain ⟨hkey, hfactor⟩ := hlabel e he
  simp only [Function.comp, label, hkey, hfactor]

theorem labels_perm {amounts' : List (Option Text)} (h : amounts'.Perm amounts) :
    (((sumAmounts c amounts').filterMap amountOf).map (label c)).Perm
      (((sumAmounts c amounts).filterMap amountOf).map (label c)) := by
  have hitems : (items amounts').Perm (items amounts) := h.filterMap _
  have htotal : total c amounts' = total c amounts := by
    funext k
    exact ((hitems.filter _).map _).sum_eq
  have hkeys : ((grouped c amounts').map Prod.fst).Perm ((grouped c amounts).map Prod.fst) := by
    rw [grouped, grouped, Grouping.keys_group, Grouping.keys_group]
    exact Insertion.ofList_perm fun k => (hitems.map _).mem_iff
  rw [labels_eq, labels_eq, htotal]
  exact hkeys.map _

theorem exists_of_forall₂ {α β : Type} {R : α → β → Prop} {xs : List α} {ys : List β} (h : List.Forall₂ R xs ys) {x : α}
    (hx : x ∈ xs) : ∃ y ∈ ys, R x y := by
  induction h with
  | nil => cases hx
  | cons hxy _ ih =>
    rcases List.mem_cons.1 hx with rfl | hx
    · exact ⟨_, List.mem_cons_self, hxy⟩
    · obtain ⟨y, hy, hr⟩ := ih hx
      exact ⟨y, List.mem_cons_of_mem _ hy, hr⟩

/-- The sums conserve what was typed exactly where no total is more than nothing and less than 0.005 of its base. -/
theorem conserves_iff : Conserves c amounts ↔ ∀ k, ¬ (0 < total c amounts k ∧ total c amounts k < 1 / 200) := by
  obtain ⟨unitOfEntry, hreported, hlabel⟩ := reported_amounts c amounts
  constructor
  · rintro ⟨-, ⟨ks, -, hks, hreports⟩, -⟩ k ⟨hpos, hsmall⟩
    have hitem : ∃ item ∈ items amounts, keyOf c item.2 = k := by
      by_contra hnone
      have hempty : (items amounts).filter (keyOf c ·.2 = k) = [] :=
        List.filter_eq_nil_iff.2 fun item hitem hkey => hnone ⟨item, hitem, of_decide_eq_true hkey⟩
      rw [total, hempty] at hpos
      exact lt_irrefl _ hpos
    obtain ⟨a, ha, hreport⟩ := exists_of_forall₂ hreports ((hks k).2 hitem)
    rw [hreported] at ha
    obtain ⟨e, he, rfl⟩ := List.mem_map.1 ha
    obtain rfl : e.1 = k := (hlabel e he).1.symm.trans hreport.key
    exact absurd ((scaled_shown_pos_iff _ hpos).1 (hreport.positive hpos)) (not_le.2 hsmall)
  · intro h
    refine ⟨reported_texts c amounts, ⟨_, nodup_keys c amounts, fun k => mem_keys c amounts, ?_⟩,
      fun _ => labels_perm c amounts⟩
    rw [hreported, List.forall₂_map_left_iff, List.forall₂_map_right_iff, List.forall₂_same]
    intro e he
    obtain ⟨hkey, hfactor⟩ := hlabel e he
    refine ⟨hkey, ?_, ⟨_, rfl⟩, fun hpos => ?_⟩
    · rw [hfactor]
      exact scaled_near _
    · rw [scaled_shown_pos_iff _ hpos]
      exact not_lt.1 fun hlt => h e.1 ⟨hpos, hlt⟩

end

end Amounts

end JitPack
