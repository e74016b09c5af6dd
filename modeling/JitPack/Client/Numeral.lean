import JitPack.Lib.FixedWidth
import JitPack.Client.Shopping

/-!
# Numbers as texts

`Number.prototype.toFixed` and the numbers that `Number` reads in a text, over exact rationals: a double is the rational
it is, and what `Number` reads is the decimal that stands there. Texts are code units.

A number from 10²¹ on is not written by digits but by `Number::toString`, which is the field of `Printed`; doubles of
that size are whole. What `toFixed` writes is read back rounded (`number_toFixed`).
-/

namespace JitPack

namespace Numeral

open FixedWidth (digits value)
open Shopping (Text)

/-! ## Writing -/

/-- A number to be written: as a double is, it is whole from 10²¹ on. -/
structure Double where
  val : ℚ
  whole : 10 ^ 21 ≤ |val| → ∃ n : ℤ, val = n

/-- The decimal digits of a number, padded with zeros. -/
def decimals (w n : ℕ) : Text := (digits 10 w n).map (48 + ·)

/-- The number nearest to `x` with `d` decimals, away from zero where two are as near. -/
def rounded (d : ℕ) (x : ℚ) : ℚ := (if x < 0 then -1 else 1) * (⌊|x| * 10 ^ d + 1 / 2⌋.toNat / 10 ^ d)

/-- `toFixed(d)`. -/
def toFixed (toString : ℤ → Text) (d : ℕ) (x : Double) : Text :=
  if 10 ^ 21 ≤ |x.val| then toString x.val.floor
  else
    let m := decimals (d + 1) ⌊|x.val| * 10 ^ d + 1 / 2⌋.toNat
    (if x.val < 0 then [45] else []) ++ if d = 0 then m else m.take (m.length - d) ++ 46 :: m.drop (m.length - d)

/-! ## Reading -/

def isDigit (u : ℕ) : Bool := 48 ≤ u && u ≤ 57

/-- The number that digits stand for. -/
def natOf (t : Text) : ℕ := value 10 (t.map (· - 48))

/-- `ExponentPart`, the exponent 0 where there is none. -/
def exponentOf : Text → Option ℤ
  | [] => some 0
  | e :: t =>
    if e = 69 ∨ e = 101 then
      match t with
      | 45 :: ds => if ds ≠ [] ∧ ds.all isDigit then some (-natOf ds) else none
      | 43 :: ds => if ds ≠ [] ∧ ds.all isDigit then some (natOf ds) else none
      | ds => if ds ≠ [] ∧ ds.all isDigit then some (natOf ds) else none
    else none

/-- `StrUnsignedDecimalLiteral`; `Infinity` is no number here. -/
def unsignedOf (t : Text) : Option ℚ :=
  let int := t.takeWhile isDigit
  let (frac, rest) :=
    match t.dropWhile isDigit with
    | 46 :: s => (s.takeWhile isDigit, s.dropWhile isDigit)
    | s => ([], s)
  if int = [] ∧ frac = [] then none
  else (exponentOf rest).map fun e => natOf (int ++ frac) / 10 ^ frac.length * 10 ^ e

/-- The base that the letter behind a leading zero names. -/
def radixOf (u : ℕ) : Option ℕ :=
  if u ∈ [120, 88] then some 16 else if u ∈ [111, 79] then some 8 else if u ∈ [98, 66] then some 2 else none

/-- The value of a digit or a letter, as a digit of a base up to 36. -/
def digitOf (u : ℕ) : ℕ :=
  if isDigit u then u - 48 else if 97 ≤ u ∧ u ≤ 122 then u - 87 else if 65 ≤ u ∧ u ≤ 90 then u - 55 else 36

/-- `Number` of a text, `none` where it is not a finite number. -/
def number (t : Text) : Option ℚ :=
  match Shopping.trim t with
  | [] => some 0
  | 43 :: s => unsignedOf s
  | 45 :: s => (unsignedOf s).map (- ·)
  | 48 :: u :: ds =>
    match radixOf u with
    | some b => if ds ≠ [] ∧ ds.all (digitOf · < b) then some (value b (ds.map digitOf)) else none
    | none => unsignedOf (48 :: u :: ds)
  | s => unsignedOf s

/-- What `Number::toString` is used for: from 10²¹ on it writes digits, a point and an exponent that are read back. -/
structure Printed where
  toString : ℤ → Text
  reads : ∀ n : ℤ, 10 ^ 21 ≤ |n| → number (toString n) = some (n : ℚ)
  units : ∀ n : ℤ, ∀ u ∈ toString n, isDigit u = true ∨ u ∈ [43, 45, 46, 101]

/-! ## The round trip -/

/-- What numbers are written with. -/
def IsNumeral (u : ℕ) : Prop := isDigit u = true ∨ u ∈ [43, 45, 46, 101]

variable {w n d : ℕ} {t : Text}

theorem isDigit_of_mem_decimals {u : ℕ} (h : u ∈ decimals w n) : isDigit u = true := by
  obtain ⟨c, hc, rfl⟩ := List.mem_map.1 h
  have := FixedWidth.digits_lt (by decide) hc
  simp only [isDigit, Bool.and_eq_true, decide_eq_true_eq]
  omega

theorem natOf_decimals : natOf (decimals w n) = n := by
  have hmap : (decimals w n).map (· - 48) = digits 10 w n := by
    rw [decimals, List.map_map]
    exact List.map_id'' (fun c => Nat.add_sub_cancel_left ..) _
  rw [natOf, hmap, FixedWidth.value_digits]

theorem le_length_decimals : w ≤ (decimals w n).length := by
  simp only [decimals, digits, List.length_map, List.length_append, List.length_replicate, List.length_reverse]
  omega

theorem isSpace_of_isNumeral {u : ℕ} (h : IsNumeral u) : Shopping.isSpace u = false := by
  simp only [IsNumeral, isDigit, Bool.and_eq_true, decide_eq_true_eq, List.mem_cons, List.not_mem_nil, or_false] at h
  simp only [Shopping.isSpace, Bool.or_eq_false_iff, Bool.and_eq_false_iff, decide_eq_false_iff_not, List.mem_cons,
    List.not_mem_nil, or_false]
  omega

theorem dropWhile_of_forall {p : ℕ → Bool} (h : ∀ u ∈ t, p u = false) : t.dropWhile p = t := by
  cases t with
  | nil => rfl
  | cons u t => rw [List.dropWhile_cons_of_neg (by simp [h u List.mem_cons_self])]

theorem trim_of_forall (h : ∀ u ∈ t, Shopping.isSpace u = false) : Shopping.trim t = t := by
  have hrev : ∀ u ∈ t.reverse, Shopping.isSpace u = false := fun u hu => h u (List.mem_reverse.1 hu)
  rw [Shopping.trim, dropWhile_of_forall h, dropWhile_of_forall hrev, List.reverse_reverse]

/-- A numeral with a point is read. -/
theorem unsignedOf_point {int frac : Text} (hint : ∀ u ∈ int, isDigit u = true) (hfrac : ∀ u ∈ frac, isDigit u = true)
    (hne : int ≠ []) :
    unsignedOf (int ++ 46 :: frac) = some ((natOf (int ++ frac) : ℚ) / 10 ^ frac.length) := by
  have htake : (int ++ 46 :: frac).takeWhile isDigit = int := by
    rw [List.takeWhile_append_of_pos hint]
    simp [isDigit]
  have hdrop : (int ++ 46 :: frac).dropWhile isDigit = 46 :: frac := by
    rw [List.dropWhile_append_of_pos hint]
    simp [isDigit]
  have hrest : frac.dropWhile isDigit = [] := List.dropWhile_eq_nil_iff.2 hfrac
  have hfrac' : frac.takeWhile isDigit = frac := List.takeWhile_eq_self_iff.2 hfrac
  simp [unsignedOf, htake, hdrop, hrest, hfrac', hne, exponentOf]

theorem number_neg (h : ∀ u ∈ t, IsNumeral u) : number (45 :: t) = (unsignedOf t).map (- ·) := by
  have hspace : ∀ u ∈ 45 :: t, Shopping.isSpace u = false :=
    List.forall_mem_cons.2 ⟨by decide, fun u hu => isSpace_of_isNumeral (h u hu)⟩
  rw [number, trim_of_forall hspace]
  rfl

theorem number_of_digit {u v : ℕ} (h : ∀ w ∈ u :: v :: t, IsNumeral w) (hu : isDigit u = true)
    (hv : isDigit v = true ∨ v = 46) : number (u :: v :: t) = unsignedOf (u :: v :: t) := by
  have hradix : radixOf v = none := by
    simp only [isDigit, Bool.and_eq_true, decide_eq_true_eq] at hv
    simp only [radixOf, List.mem_cons, List.not_mem_nil, or_false]
    split_ifs <;> first | rfl | omega
  simp only [isDigit, Bool.and_eq_true, decide_eq_true_eq] at hu
  rw [number, trim_of_forall fun w hw => isSpace_of_isNumeral (h w hw)]
  split
  · next heq => cases heq
  · next heq => cases heq; omega
  · next heq => cases heq; omega
  · next heq => cases heq; simp only [hradix]
  · rfl

/-- The digits before the point and behind it. -/
theorem decimals_split (d n : ℕ) : ∃ int frac : Text, int ≠ [] ∧ frac.length = d ∧ int ++ frac = decimals (d + 1) n ∧
    (decimals (d + 1) n).take ((decimals (d + 1) n).length - d) = int ∧
      (decimals (d + 1) n).drop ((decimals (d + 1) n).length - d) = frac := by
  have hlen : d + 1 ≤ (decimals (d + 1) n).length := le_length_decimals
  refine ⟨_, _, fun hnil => ?_, ?_, List.take_append_drop .., rfl, rfl⟩
  · have := congrArg List.length hnil
    rw [List.length_take, List.length_nil] at this
    omega
  · rw [List.length_drop]
    omega

/-- What `toFixed` writes consists of digits, a point and a sign. -/
theorem isNumeral_of_mem_toFixed {ts : Printed} {x : Double} {u : ℕ} (h : u ∈ toFixed ts.toString d x) :
    IsNumeral u := by
  unfold toFixed at h
  split_ifs at h with hlarge hneg hd hd
  · exact ts.units _ u h
  all_goals
    simp only [List.mem_append, List.mem_cons, List.not_mem_nil, or_false, false_or] at h
    have hdec : ∀ u ∈ decimals (d + 1) ⌊|x.val| * 10 ^ d + 1 / 2⌋.toNat, IsNumeral u := fun u hu =>
      .inl (isDigit_of_mem_decimals hu)
    grind [IsNumeral, List.mem_of_mem_take, List.mem_of_mem_drop]

theorem toFixed_ne_nil {ts : Printed} (hd : 0 < d) (x : Double) : toFixed ts.toString d x ≠ [] := by
  by_cases hlarge : 10 ^ 21 ≤ |x.val|
  · obtain ⟨n, hn⟩ := x.whole hlarge
    have hbig : (10 : ℤ) ^ 21 ≤ |n| := by
      rw [hn] at hlarge
      exact_mod_cast hlarge
    have hfloor : x.val.floor = n := by rw [hn]; simp
    rw [toFixed, if_pos hlarge, hfloor]
    intro hnil
    have hread := ts.reads n hbig
    rw [hnil] at hread
    have hzero : n = 0 := by exact_mod_cast (Option.some.inj hread).symm
    rw [hzero] at hbig
    exact absurd hbig (by decide)
  · simp [toFixed, hlarge, hd.ne']

/-- A whole number is rounded to itself. -/
theorem rounded_intCast (d : ℕ) (n : ℤ) : rounded d n = n := by
  have hfloor : ⌊|(n : ℚ)| * 10 ^ d + 1 / 2⌋ = |n| * 10 ^ d := by
    rw [Int.floor_eq_iff]
    push_cast
    constructor <;> linarith
  have hnonneg : 0 ≤ |n| * 10 ^ d := by positivity
  have hpow : (10 : ℚ) ^ d ≠ 0 := by positivity
  have hcast : (((|n| * 10 ^ d).toNat : ℕ) : ℚ) = |(n : ℚ)| * 10 ^ d := by
    rw [← Int.cast_natCast, Int.toNat_of_nonneg hnonneg]
    push_cast
    rfl
  rw [rounded, hfloor, hcast, mul_div_cancel_right₀ _ hpow]
  split_ifs with hneg
  · rw [abs_of_neg hneg]; ring
  · rw [abs_of_nonneg (not_lt.1 hneg)]; ring

theorem abs_rounded (d : ℕ) (x : ℚ) : |rounded d x| = ⌊|x| * 10 ^ d + 1 / 2⌋.toNat / 10 ^ d := by
  have hnonneg : (0 : ℚ) ≤ ⌊|x| * 10 ^ d + 1 / 2⌋.toNat / 10 ^ d := by positivity
  rw [rounded]
  split_ifs
  · rw [neg_one_mul, abs_neg, abs_of_nonneg hnonneg]
  · rw [one_mul, abs_of_nonneg hnonneg]

/-- Rounding does not leave a range with whole bounds. -/
theorem abs_rounded_le {x : ℚ} {n : ℕ} (h : |x| ≤ n) : |rounded d x| ≤ n := by
  have hfloor : ⌊|x| * 10 ^ d + 1 / 2⌋ ≤ ((n * 10 ^ d : ℕ) : ℤ) := by
    rw [Int.floor_le_iff]
    have hmul : |x| * 10 ^ d ≤ n * 10 ^ d := mul_le_mul_of_nonneg_right h (by positivity)
    push_cast
    linarith
  have hpos : (0 : ℚ) < 10 ^ d := by positivity
  rw [abs_rounded, div_le_iff₀ hpos]
  exact_mod_cast Int.toNat_le.2 hfloor

/-- Rounding moves a number by half of its last decimal at most. -/
theorem abs_rounded_sub_le (d : ℕ) (x : ℚ) : |rounded d x - x| ≤ 1 / 2 / 10 ^ d := by
  have hpos : (0 : ℚ) < 10 ^ d := by positivity
  have hnonneg : 0 ≤ ⌊|x| * 10 ^ d + 1 / 2⌋ := Int.floor_nonneg.2 (by positivity)
  have hcast : ((⌊|x| * 10 ^ d + 1 / 2⌋.toNat : ℕ) : ℚ) = ⌊|x| * 10 ^ d + 1 / 2⌋ := by
    rw [← Int.cast_natCast, Int.toNat_of_nonneg hnonneg]
  have hle := Int.floor_le (|x| * 10 ^ d + 1 / 2)
  have hlt := Int.lt_floor_add_one (|x| * 10 ^ d + 1 / 2)
  have hnear : abs ((⌊|x| * 10 ^ d + 1 / 2⌋ : ℚ) / 10 ^ d - |x|) ≤ 1 / 2 / 10 ^ d := by
    have hsub : (⌊|x| * 10 ^ d + 1 / 2⌋ : ℚ) / 10 ^ d - |x| = (⌊|x| * 10 ^ d + 1 / 2⌋ - |x| * 10 ^ d) / 10 ^ d := by
      rw [sub_div, mul_div_cancel_right₀ _ hpos.ne']
    rw [hsub, abs_div, abs_of_pos hpos]
    exact div_le_div_of_nonneg_right (abs_le.2 ⟨by linarith, by linarith⟩) hpos.le
  rw [rounded, hcast]
  split_ifs with hneg
  · rw [abs_of_neg hneg] at hnear ⊢
    rw [← abs_neg]
    convert hnear using 2
    ring
  · rw [abs_of_nonneg (not_lt.1 hneg)] at hnear ⊢
    rwa [one_mul]

/-- A signed numeral with a point is read. -/
theorem number_signed (neg : Prop) [Decidable neg] {int frac : Text} (hint : ∀ u ∈ int, isDigit u = true)
    (hfrac : ∀ u ∈ frac, isDigit u = true) (hne : int ≠ []) :
    number ((if neg then [45] else []) ++ (int ++ 46 :: frac)) =
      some ((if neg then -1 else 1) * ((natOf (int ++ frac) : ℚ) / 10 ^ frac.length)) := by
  have hread := unsignedOf_point hint hfrac hne
  have hall : ∀ u ∈ int ++ 46 :: frac, IsNumeral u := by
    simp only [List.forall_mem_append, List.forall_mem_cons]
    exact ⟨fun u hu => .inl (hint u hu), .inr (by decide), fun u hu => .inl (hfrac u hu)⟩
  by_cases hneg : neg
  · rw [if_pos hneg, List.singleton_append, number_neg hall, hread, if_pos hneg]
    simp
  · obtain ⟨u, us, rfl⟩ := List.exists_cons_of_ne_nil hne
    rw [if_neg hneg, List.nil_append, if_neg hneg, one_mul, ← hread]
    have hu : isDigit u = true := hint u List.mem_cons_self
    cases us with
    | nil => exact number_of_digit hall hu (.inr rfl)
    | cons v us => exact number_of_digit hall hu (.inl (hint v (List.mem_cons_of_mem _ List.mem_cons_self)))

/-- What `toFixed` writes is read back, rounded. -/
theorem number_toFixed (ts : Printed) (hd : 0 < d) (x : Double) :
    number (toFixed ts.toString d x) = some (rounded d x.val) := by
  by_cases hlarge : 10 ^ 21 ≤ |x.val|
  · obtain ⟨n, hn⟩ := x.whole hlarge
    have hbig : (10 : ℤ) ^ 21 ≤ |n| := by
      rw [hn] at hlarge
      exact_mod_cast hlarge
    have hfloor : x.val.floor = n := by rw [hn]; simp
    rw [toFixed, if_pos hlarge, hfloor, ts.reads n hbig, hn, rounded_intCast]
  · generalize hn : ⌊|x.val| * 10 ^ d + 1 / 2⌋.toNat = n
    obtain ⟨int, frac, hne, hfrac, hsplit, hint, hfrac'⟩ := decimals_split d n
    have hdigit : ∀ u ∈ int ++ frac, isDigit u = true := fun u hu => isDigit_of_mem_decimals (hsplit ▸ hu)
    have htext : toFixed ts.toString d x = (if x.val < 0 then [45] else []) ++ (int ++ 46 :: frac) := by
      simp only [toFixed, if_neg hlarge, hn, hint, hfrac', if_neg hd.ne']
    rw [htext, number_signed _ (fun u hu => hdigit u (List.mem_append_left _ hu))
      (fun u hu => hdigit u (List.mem_append_right _ hu)) hne, hsplit, natOf_decimals, hfrac, rounded, hn]

/-- Digits, a point and a zero for any size. -/
def Printed.plain : Printed where
  toString n := (if n < 0 then [45] else []) ++ (decimals 1 n.natAbs ++ 46 :: [48])
  reads n _ := by
    have hne : decimals 1 n.natAbs ≠ [] := List.ne_nil_of_length_pos (le_length_decimals (w := 1))
    have hvalue : natOf (decimals 1 n.natAbs ++ [48]) = 10 * n.natAbs := by
      have hnat : value 10 ((decimals 1 n.natAbs).map (· - 48)) = n.natAbs := natOf_decimals
      simp only [natOf, List.map_append, value, List.reverse_append] at hnat ⊢
      simp [Nat.ofDigits_cons, hnat]
    rw [number_signed _ (fun u hu => isDigit_of_mem_decimals hu) (by decide) hne, hvalue]
    congr 1
    push_cast
    rw [List.length_singleton, pow_one, mul_div_cancel_left₀ _ (by norm_num : (10 : ℚ) ≠ 0), Nat.cast_natAbs]
    split_ifs with hneg
    · rw [abs_of_neg hneg]; push_cast; ring
    · rw [abs_of_nonneg (not_lt.1 hneg)]; ring
  units n u hu := by
    simp only [List.mem_append, List.mem_cons, List.not_mem_nil, or_false] at hu
    rcases hu with hu | hu | rfl | rfl
    · split_ifs at hu <;> simp at hu
      exact .inr (by simp [hu])
    · exact .inl (isDigit_of_mem_decimals hu)
    · exact .inr (by decide)
    · exact .inl (by decide)

end Numeral

end JitPack
