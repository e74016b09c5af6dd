import Mathlib

/-!
# Fixed-width numerals and the lexicographic order

A numeral of a fixed width is a list of digits, most significant first. This module proves the two
facts a textual clock rests on: among numerals of one width the lexicographic order is the order of
the values (`lt_iff_value_lt`), and zero padding to a width is the inverse of reading the value back
(`value_digits`, `digits_value`). The last section moves the order through an alphabet, so that it
speaks about the characters a program writes and not about digits, and cuts a comparison of two
texts at a common width (`append_lt_append_iff`).

Mathlib's `Nat.digits` and `Nat.ofDigits` are least significant first; the definitions here are
those, reversed and padded.
-/

/-- Bytes are ordered by their value. -/
instance instLinearOrderUInt8 : LinearOrder UInt8 where
  le_refl := UInt8.le_refl
  le_trans _ _ _ := UInt8.le_trans
  le_antisymm _ _ := UInt8.le_antisymm
  le_total := UInt8.le_total
  lt_iff_le_not_ge _ _ := UInt8.lt_iff_le_and_ne.trans (by grind)
  toDecidableLE := inferInstance
  toDecidableEq := inferInstance
  toDecidableLT := inferInstance

namespace FixedWidth

/-- A property of bytes is checked at the 256 of them. -/
theorem forall_byte {p : UInt8 → Prop} (h : ∀ n : Fin 256, p (UInt8.ofNat n)) (c : UInt8) : p c := by
  simpa using h ⟨c.toNat, c.toNat_lt⟩

variable {b w n : Nat}

/-- The value of a list of digits in base `b`, most significant digit first. -/
def value (b : Nat) (ds : List Nat) : Nat := Nat.ofDigits b ds.reverse

/-- The digits of `n` in base `b`, most significant first, padded with zeros to the width `w`. A
number that needs more than `w` digits gets all of them. -/
def digits (b w n : Nat) : List Nat :=
  List.replicate (w - (Nat.digits b n).length) 0 ++ (Nat.digits b n).reverse

@[simp] theorem value_nil : value b [] = 0 := by simp [value]

theorem value_cons (d : Nat) (ds : List Nat) :
    value b (d :: ds) = d * b ^ ds.length + value b ds := by
  simp [value, Nat.ofDigits_append, Nat.ofDigits_singleton]
  ring

theorem value_eq_zero_iff (hb : 0 < b) : ∀ {ds : List Nat}, value b ds = 0 ↔ ∀ d ∈ ds, d = 0
  | [] => by simp
  | d :: ds => by
      have : 0 < b ^ ds.length := Nat.pow_pos hb
      rw [value_cons, Nat.add_eq_zero_iff, value_eq_zero_iff hb, List.forall_mem_cons,
        Nat.mul_eq_zero, or_iff_left (by omega)]

/-- A numeral is smaller than the power of the base its width names. -/
theorem value_lt (hb : 1 < b) {ds : List Nat} (h : ∀ d ∈ ds, d < b) :
    value b ds < b ^ ds.length := by
  have := Nat.ofDigits_lt_base_pow_length (l := ds.reverse) hb (by simpa using h)
  simpa [value] using this

/-- Padding does not change the value. -/
theorem value_digits (b w n : Nat) : value b (digits b w n) = n := by
  simp [value, digits, Nat.ofDigits_append, Nat.ofDigits_digits, Nat.ofDigits_replicate_zero]

theorem digits_lt (hb : 1 < b) {d : Nat} (h : d ∈ digits b w n) : d < b := by
  rcases List.mem_append.1 h with h | h
  · rw [List.eq_of_mem_replicate h]; omega
  · exact Nat.digits_lt_base hb (List.mem_reverse.1 h)

/-- A number below the power of the base is written with exactly the width. -/
theorem length_digits (hb : 1 < b) (h : n < b ^ w) : (digits b w n).length = w := by
  have := (Nat.digits_length_le_iff hb n).2 h
  simp [digits]
  omega

/-- A number that does not fit overflows the width. -/
theorem lt_length_digits (hb : 1 < b) (h : b ^ w ≤ n) : w < (digits b w n).length := by
  have : ¬ (Nat.digits b n).length ≤ w := by
    rw [Nat.digits_length_le_iff hb]
    omega
  simp [digits]
  omega

/-- Writing the value of a numeral gives the numeral back. -/
theorem digits_value (hb : 1 < b) {ds : List Nat} (h : ∀ d ∈ ds, d < b) :
    digits b ds.length (value b ds) = ds := by
  have hlen : (digits b ds.length (value b ds)).length = ds.length :=
    length_digits hb (value_lt hb h)
  refine List.reverse_injective (Nat.ofDigits_inj_of_len_eq hb ?_ ?_ ?_ ?_)
  · simpa using hlen
  · exact fun d hd => digits_lt hb (List.mem_reverse.1 hd)
  · exact fun d hd => h d (List.mem_reverse.1 hd)
  · exact value_digits b ds.length (value b ds)

/-- **Among numerals of one width the lexicographic order is the order of the values.** -/
theorem lt_iff_value_lt (hb : 1 < b) : ∀ {ds es : List Nat}, ds.length = es.length →
    (∀ d ∈ ds, d < b) → (∀ e ∈ es, e < b) → (ds < es ↔ value b ds < value b es)
  | [], [], _, _, _ => by simp
  | d :: ds, e :: es, hlen, hd, he => by
      have hlen' : ds.length = es.length := by simpa using hlen
      have hds : ∀ x ∈ ds, x < b := fun x hx => hd x (.tail _ hx)
      have hes : ∀ x ∈ es, x < b := fun x hx => he x (.tail _ hx)
      have ih := lt_iff_value_lt hb hlen' hds hes
      have hvd := value_lt hb hds
      have hve := value_lt hb hes
      rw [List.cons_lt_cons_iff, value_cons, value_cons, ih, hlen'] at *
      rcases lt_trichotomy d e with hlt | rfl | hgt
      · have : (d + 1) * b ^ es.length ≤ e * b ^ es.length := Nat.mul_le_mul_right _ hlt
        rw [Nat.add_mul, Nat.one_mul] at this
        exact ⟨fun _ => by omega, fun _ => .inl hlt⟩
      · simp
      · have : (e + 1) * b ^ es.length ≤ d * b ^ es.length := Nat.mul_le_mul_right _ hgt
        rw [Nat.add_mul, Nat.one_mul] at this
        exact ⟨fun h => by omega, fun _ => by omega⟩

/-! ## Texts -/

section
variable {α β : Type _} [LinearOrder α] [LinearOrder β]

/-- Two texts that begin with parts of one length compare by those parts first. -/
theorem append_lt_append_iff : ∀ {xs xs' ys ys' : List α}, xs.length = xs'.length →
    (xs ++ ys < xs' ++ ys' ↔ xs < xs' ∨ xs = xs' ∧ ys < ys')
  | [], [], _, _, _ => by simp
  | x :: xs, x' :: xs', ys, ys', hlen => by
      have hlen' : xs.length = xs'.length := by simpa using hlen
      have ih : xs ++ ys < xs' ++ ys' ↔ xs < xs' ∨ xs = xs' ∧ ys < ys' := append_lt_append_iff hlen'
      simp only [List.cons_append, List.cons_lt_cons_iff, ih, List.cons.injEq]
      tauto

/-- An alphabet that keeps the order of the letters keeps the order of the words. -/
theorem map_lt_map_iff {f : α → β} {s : Set α} (hf : StrictMonoOn f s) : ∀ {xs ys : List α},
    (∀ x ∈ xs, x ∈ s) → (∀ y ∈ ys, y ∈ s) → (xs.map f < ys.map f ↔ xs < ys)
  | [], [], _, _ => by simp
  | [], _ :: _, _, _ => by simp
  | _ :: _, [], _, _ => by simp
  | x :: xs, y :: ys, hx, hy => by
      have hxs : x ∈ s := hx x (.head _)
      have hys : y ∈ s := hy y (.head _)
      have ih := map_lt_map_iff hf (fun z hz => hx z (.tail _ hz)) (fun z hz => hy z (.tail _ hz))
      rw [List.map_cons, List.map_cons, List.cons_lt_cons_iff, List.cons_lt_cons_iff,
        hf.lt_iff_lt hxs hys, hf.injOn.eq_iff hxs hys, ih]

end

end FixedWidth
