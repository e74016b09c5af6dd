import JitPack.Client.Route

/-!
# The drawn line

`encodeLine` and `decodeLine` of `track.ts`: a line of points as a text, five decimals of each coordinate. What is
written of a point is how far it is from the one before, each number in chunks of five bits, the lowest first, with the
sign in the lowest bit. A number that leaves its lowest bit room in 32 bits is read back (`next_encodeNumber`), and the
steps of points on the earth are far from the limit, so a line is read back with the coordinates rounded
(`decodeLine_encodeLine`).

Coordinates are rationals, a text is its code units, and the bitwise operators work on 32 bits.
-/

namespace JitPack

namespace Polyline

/-! ## The code -/

/-- `ToInt32`: the bits that a bitwise operator takes of a number. -/
def int32 (n : ℤ) : BitVec 32 := BitVec.ofInt 32 n

/-- `String.fromCharCode`. -/
def fromCharCode (n : ℤ) : ℕ := (n % 0x10000).toNat

theorem toNat_int32_le {n : ℤ} (h : 0 ≤ n) : (int32 n).toNat ≤ n.toNat := by
  rw [int32, BitVec.toNat_ofInt]
  push_cast
  omega

/-- The loop of `encodeNumber`. -/
def chunks (v : ℤ) : List ℕ :=
  if 0x20 ≤ v then
    fromCharCode ((0x20#32 ||| (int32 v &&& 0x1f#32)).toInt + 63) :: chunks (int32 v >>> 5).toNat
  else [fromCharCode (v + 63)]
termination_by v.toNat
decreasing_by
  have hpos : 0 ≤ v := by omega
  have hle := toNat_int32_le hpos
  rw [BitVec.toNat_ushiftRight, Nat.shiftRight_eq_div_pow]
  omega

/-- `encodeNumber`. -/
def encodeNumber (value : ℤ) : List ℕ :=
  chunks (if value < 0 then (~~~(int32 value <<< 1)).toInt else (int32 value <<< 1).toInt)

/-- `LINE_FACTOR`. -/
def lineFactor : ℚ := 100000

/-- `Math.round`. -/
def round (x : ℚ) : ℤ := ⌊x + 1 / 2⌋

/-- The loop of `encodeLine`. -/
def encodeFrom (lat lon : ℤ) : List (LatLon ℚ) → List ℕ
  | [] => []
  | point :: points =>
    let nextLat := round (point.lat * lineFactor)
    let nextLon := round (point.lon * lineFactor)
    encodeNumber (nextLat - lat) ++ encodeNumber (nextLon - lon) ++ encodeFrom nextLat nextLon points

/-- `encodeLine`. -/
def encodeLine (points : List (LatLon ℚ)) : List ℕ := encodeFrom 0 0 points

/-- `next`, in `decodeLine`: the number at the start of the line and what is left of it. -/
def next (shift : ℕ) (result : ℤ) : List ℕ → Option (ℤ × List ℕ)
  | [] => none
  | unit :: rest =>
    let byte : ℤ := unit - 63
    let result := (int32 result ||| (int32 byte &&& 0x1f#32) <<< (shift % 32)).toInt
    if 0x20 ≤ byte then next (shift + 5) result rest
    else if (int32 result &&& 1#32).toInt ≠ 0 then some ((~~~(int32 result).sshiftRight 1).toInt, rest)
    else some (((int32 result).sshiftRight 1).toInt, rest)

theorem length_of_next {shift : ℕ} {result n : ℤ} {line rest : List ℕ} (h : next shift result line = some (n, rest)) :
    rest.length < line.length := by
  induction line generalizing shift result with
  | nil => cases h
  | cons unit line ih =>
    unfold next at h
    dsimp only at h
    split at h
    · exact (ih h).trans (Nat.lt_succ_self _)
    · split at h <;> cases h <;> exact Nat.lt_succ_self _

/-- The loop of `decodeLine`. -/
def decodeFrom (lat lon : ℤ) (line : List ℕ) : List (ℚ × ℚ) :=
  match _hlat : next 0 0 line with
  | none => []
  | some (dLat, rest) =>
    match _hlon : next 0 0 rest with
    | none => []
    | some (dLon, rest') =>
      ((lat + dLat : ℤ) / lineFactor, (lon + dLon : ℤ) / lineFactor) :: decodeFrom (lat + dLat) (lon + dLon) rest'
termination_by line.length
decreasing_by exact (length_of_next _hlon).trans (length_of_next _hlat)

/-- `decodeLine`. -/
def decodeLine (line : List ℕ) : List (ℚ × ℚ) := decodeFrom 0 0 line

/-! ## Bits -/

section
variable {n v : ℤ} {a b s : ℕ}

theorem toInt_int32 (hlo : -2 ^ 31 ≤ n) (hhi : n < 2 ^ 31) : (int32 n).toInt = n := by
  rw [int32, BitVec.toInt_ofInt_eq_self (by decide) (by simpa using hlo) (by simpa using hhi)]

theorem toNat_int32 (hlo : 0 ≤ n) (hhi : n < 2 ^ 32) : (int32 n).toNat = n.toNat := by
  rw [int32, BitVec.toNat_ofInt]
  push_cast
  omega

/-- A shift by one doubles a number that leaves its lowest bit room. -/
theorem toInt_shiftLeft (hlo : -2 ^ 30 ≤ n) (hhi : n < 2 ^ 30) : (int32 n <<< 1).toInt = 2 * n := by
  have hdouble : int32 n <<< 1 = int32 (2 * n) := by
    apply BitVec.eq_of_toNat_eq
    rw [BitVec.toNat_shiftLeft, int32, int32, BitVec.toNat_ofInt, BitVec.toNat_ofInt, Nat.shiftLeft_eq]
    push_cast
    omega
  rw [hdouble, toInt_int32 (by omega) (by omega)]

theorem toInt_not (hlo : -2 ^ 31 ≤ n) (hhi : n < 2 ^ 31) : (~~~int32 n).toInt = -n - 1 := by
  have hnot : ~~~int32 n = int32 (-n - 1) := by
    apply BitVec.eq_of_toNat_eq
    rw [BitVec.toNat_not, int32, int32, BitVec.toNat_ofInt, BitVec.toNat_ofInt]
    push_cast
    omega
  rw [hnot, toInt_int32 (by omega) (by omega)]

/-- The lowest five bits of a number that is not negative. -/
theorem and_low (h : 0 ≤ n) : (int32 n &&& 0x1f#32).toNat = n.toNat % 32 := by
  rw [BitVec.toNat_and, show (0x1f#32).toNat = 2 ^ 5 - 1 from rfl, Nat.and_two_pow_sub_one_eq_mod, int32,
    BitVec.toNat_ofInt]
  push_cast
  omega

/-- A chunk of more to come is written as the five bits and a sixth one. -/
theorem toInt_or_low (h : 0 ≤ v) : (0x20#32 ||| (int32 v &&& 0x1f#32)).toInt = 32 + v % 32 := by
  have hor : (0x20#32 ||| (int32 v &&& 0x1f#32)).toNat = 32 + v.toNat % 32 := by
    rw [BitVec.toNat_or, and_low h, show (0x20#32).toNat = 2 ^ 5 * 1 from rfl,
      ← Nat.two_pow_add_eq_or_of_lt (Nat.mod_lt _ (by decide))]
  rw [BitVec.toInt_eq_toNat_cond, hor]
  omega

/-- A chunk is put above what was read before. -/
theorem toInt_or_shiftLeft (ha : a < 2 ^ s) (hs : s < 32) (hab : a + b * 2 ^ s < 2 ^ 31) {byte : ℤ}
    (hbyte : 0 ≤ byte) (hlow : byte.toNat % 32 = b) :
    (int32 a ||| (int32 byte &&& 0x1f#32) <<< (s % 32)).toInt = (a + b * 2 ^ s : ℕ) := by
  have hor : (int32 a ||| (int32 byte &&& 0x1f#32) <<< (s % 32)).toNat = a + b * 2 ^ s := by
    rw [Nat.mod_eq_of_lt hs, BitVec.toNat_or, BitVec.toNat_shiftLeft, and_low hbyte, hlow, Nat.shiftLeft_eq,
      Nat.mod_eq_of_lt (by omega), toNat_int32 (by omega) (by omega), Int.toNat_natCast, Nat.or_comm, mul_comm b,
      ← Nat.two_pow_add_eq_or_of_lt ha]
    omega
  rw [BitVec.toInt_eq_toNat_cond, hor]
  omega

end

/-! ## Numbers -/

section
variable {value lat lon : ℤ} {shift z k r m : ℕ} {rest line : List ℕ} {points : List (LatLon ℚ)}

/-- What the sign in the lowest bit makes of a number. -/
def unfold (m : ℕ) : ℤ := if m % 2 = 1 then -(m / 2 : ℕ) - 1 else (m / 2 : ℕ)

/-- A last chunk ends the number. -/
theorem next_last (hr : r < 2 ^ shift) (hz : z < 32) (hs : shift < 32) (hm : r + z * 2 ^ shift < 2 ^ 31) :
    next shift r ((z + 63) :: rest) = some (unfold (r + z * 2 ^ shift), rest) := by
  have hbyte : ((z + 63 : ℕ) : ℤ) - 63 = z := by omega
  have hor := toInt_or_shiftLeft (b := z) hr hs hm (by omega : (0 : ℤ) ≤ z) (by omega)
  generalize r + z * 2 ^ shift = m at hor hm
  have hlow : (int32 m &&& 1#32).toInt = (m % 2 : ℕ) := by
    have hand : (int32 m &&& 1#32).toNat = m % 2 := by
      rw [BitVec.toNat_and, toNat_int32 (by omega) (by omega), show (1#32).toNat = 2 ^ 1 - 1 from rfl,
        Nat.and_two_pow_sub_one_eq_mod, Int.toNat_natCast]
    rw [BitVec.toInt_eq_toNat_cond, hand]
    omega
  have hhalf : ((int32 m).sshiftRight 1).toInt = (m / 2 : ℕ) := by
    rw [BitVec.toInt_sshiftRight, toInt_int32 (by omega) (by omega), Int.shiftRight_eq_div_pow]
    omega
  have hnot : (~~~(int32 m).sshiftRight 1).toInt = -(m / 2 : ℕ) - 1 := by
    rw [show (int32 m).sshiftRight 1 = int32 (m / 2 : ℕ) from
      BitVec.eq_of_toInt_eq (hhalf.trans (toInt_int32 (by omega) (by omega)).symm), toInt_not (by omega) (by omega)]
  rw [next, hbyte]
  rw [if_neg (by omega), hor, hlow, hhalf, hnot, Polyline.unfold]
  by_cases hodd : m % 2 = 1
  · rw [if_pos hodd, if_pos (by omega)]
  · rw [if_neg hodd, if_neg (by omega)]

/-- Any other chunk is put above what was read before. -/
theorem next_chunk (hr : r < 2 ^ shift) (hz : z < 32) (hs : shift < 32) (hm : r + z * 2 ^ shift < 2 ^ 31) :
    next shift r ((z + 95) :: rest) = next (shift + 5) (r + z * 2 ^ shift : ℕ) rest := by
  have hbyte : ((z + 95 : ℕ) : ℤ) - 63 = 32 + z := by omega
  have hor := toInt_or_shiftLeft (b := z) hr hs hm (by omega : (0 : ℤ) ≤ 32 + z) (by omega)
  rw [next, hbyte]
  rw [if_pos (by omega), hor]

/-- The chunks of a number are read back, above what was read before. -/
theorem next_chunks (hr : r < 2 ^ shift) (hs : shift < 32) (hm : r + z * 2 ^ shift < 2 ^ 31) :
    next shift r (chunks z ++ rest) = some (unfold (r + z * 2 ^ shift), rest) := by
  induction z using Nat.strongRecOn generalizing shift r with
  | ind z ih =>
    rw [chunks]
    split
    case isFalse hlast =>
      have hchar : fromCharCode (z + 63) = z + 63 := by
        unfold fromCharCode
        omega
      rw [hchar, List.singleton_append]
      exact next_last hr (by omega) hs hm
    case isTrue hmore =>
      have hsplit : r + z * 2 ^ shift = r + z % 32 * 2 ^ shift + z / 32 * 2 ^ (shift + 5) := by
        conv_lhs => rw [← Nat.mod_add_div z 32]
        ring
      have hfive : 2 ^ (shift + 5) < 2 ^ 31 := by
        have hle : 32 * 2 ^ shift ≤ z * 2 ^ shift := Nat.mul_le_mul_right _ (by omega)
        rw [pow_add]
        omega
      have hs' : shift + 5 < 31 := (Nat.pow_lt_pow_iff_right (by decide)).1 hfive
      have hlow : r + z % 32 * 2 ^ shift < 2 ^ (shift + 5) := by
        have hle : z % 32 * 2 ^ shift ≤ 31 * 2 ^ shift := Nat.mul_le_mul_right _ (by omega)
        rw [pow_add]
        omega
      have hlt : z < 2 ^ 31 := by
        have hle : z * 1 ≤ z * 2 ^ shift := Nat.mul_le_mul_left _ Nat.one_le_two_pow
        omega
      have hchar : fromCharCode ((0x20#32 ||| (int32 z &&& 0x1f#32)).toInt + 63) = z % 32 + 95 := by
        rw [toInt_or_low (by omega)]
        unfold fromCharCode
        omega
      have hshift : (int32 z >>> 5).toNat = z / 32 := by
        rw [BitVec.toNat_ushiftRight, toNat_int32 (by omega) (by omega), Nat.shiftRight_eq_div_pow, Int.toNat_natCast]
      rw [hchar, hshift, List.cons_append, next_chunk hr (Nat.mod_lt _ (by decide)) hs (by omega),
        ih (z / 32) (by omega) hlow (by omega) (hsplit ▸ hm), ← hsplit]

/-- A number that leaves its lowest bit room in 32 bits is read back. -/
theorem next_encodeNumber (hlo : -2 ^ 30 ≤ value) (hhi : value < 2 ^ 30) :
    next 0 0 (encodeNumber value ++ rest) = some (value, rest) := by
  have hfold : ∃ z : ℕ, z < 2 ^ 31 ∧ encodeNumber value = chunks z ∧ unfold z = value := by
    unfold encodeNumber Polyline.unfold
    by_cases hneg : value < 0
    · refine ⟨(-2 * value - 1).toNat, by omega, ?_, ?_⟩
      · have hdouble : int32 value <<< 1 = int32 (2 * value) :=
          BitVec.eq_of_toInt_eq ((toInt_shiftLeft hlo hhi).trans (toInt_int32 (by omega) (by omega)).symm)
        rw [if_pos hneg, hdouble, toInt_not (by omega) (by omega)]
        congr 1
        omega
      · split <;> omega
    · refine ⟨(2 * value).toNat, by omega, ?_, ?_⟩
      · rw [if_neg hneg, toInt_shiftLeft hlo hhi]
        congr 1
        omega
      · split <;> omega
  obtain ⟨z, hz, hchunks, hvalue⟩ := hfold
  have hread : next 0 0 (chunks z ++ rest) = _ :=
    next_chunks (r := 0) Nat.one_pos (by decide) (by omega : 0 + z * 2 ^ 0 < 2 ^ 31)
  rw [hchunks]
  rw [Nat.zero_add, pow_zero, mul_one, hvalue] at hread
  exact hread

/-! ## Lines -/

/-- A coordinate at five decimals. -/
def rounded (x : ℚ) : ℚ := (round (x * lineFactor) : ℤ) / lineFactor

/-- A place on the earth. -/
def OnEarth (point : LatLon ℚ) : Prop := |point.lat| ≤ 90 ∧ |point.lon| ≤ 180

theorem abs_round_le {x : ℚ} {bound : ℤ} (h : |x| ≤ bound) : |round (x * lineFactor)| ≤ bound * 100000 := by
  obtain ⟨hlo, hhi⟩ := abs_le.1 h
  unfold round lineFactor
  rw [abs_le]
  constructor
  · rw [Int.le_floor]
    push_cast
    linarith
  · refine Int.le_of_lt_add_one (Int.floor_lt.2 ?_)
    push_cast
    linarith

/-- A step between two places leaves its lowest bit room in 32 bits. -/
theorem step_mem {x y : ℚ} {bound : ℤ} (hbound : bound ≤ 180) (hx : |x| ≤ bound) (hy : |y| ≤ bound) :
    -2 ^ 30 ≤ round (y * lineFactor) - round (x * lineFactor) ∧
      round (y * lineFactor) - round (x * lineFactor) < 2 ^ 30 := by
  obtain ⟨hxlo, hxhi⟩ := abs_le.1 (abs_round_le hx)
  obtain ⟨hylo, hyhi⟩ := abs_le.1 (abs_round_le hy)
  omega

theorem decodeFrom_done (h : next 0 0 line = none) : decodeFrom lat lon line = [] := by
  rw [decodeFrom]
  split
  · rfl
  · next hnext =>
    rw [h] at hnext
    cases hnext

theorem decodeFrom_half {dLat : ℤ} (hlat : next 0 0 line = some (dLat, rest)) (hlon : next 0 0 rest = none) :
    decodeFrom lat lon line = [] := by
  rw [decodeFrom]
  split
  · rfl
  · next hnext =>
    rw [hlat] at hnext
    cases hnext
    split
    · rfl
    · next hnext =>
      rw [hlon] at hnext
      cases hnext

theorem decodeFrom_pair {dLat dLon : ℤ} {rest' : List ℕ} (hlat : next 0 0 line = some (dLat, rest))
    (hlon : next 0 0 rest = some (dLon, rest')) : decodeFrom lat lon line =
      ((lat + dLat : ℤ) / lineFactor, (lon + dLon : ℤ) / lineFactor) ::
        decodeFrom (lat + dLat) (lon + dLon) rest' := by
  rw [decodeFrom]
  split
  · next hnext =>
    rw [hlat] at hnext
    cases hnext
  · next hnext =>
    rw [hlat] at hnext
    cases hnext
    split
    · next hnext =>
      rw [hlon] at hnext
      cases hnext
    · next hnext =>
      rw [hlon] at hnext
      cases hnext
      rfl

/-- What is written of a line from a place on is read back from there. -/
theorem decodeFrom_encodeFrom {x y : ℚ} (hx : |x| ≤ 90) (hy : |y| ≤ 180) (h : ∀ point ∈ points, OnEarth point) :
    decodeFrom (round (x * lineFactor)) (round (y * lineFactor))
        (encodeFrom (round (x * lineFactor)) (round (y * lineFactor)) points) =
      points.map fun point => (rounded point.lat, rounded point.lon) := by
  induction points generalizing x y with
  | nil => exact decodeFrom_done rfl
  | cons point points ih =>
    obtain ⟨hlat, hlon⟩ := h point List.mem_cons_self
    obtain ⟨hlatlo, hlathi⟩ := step_mem (by decide : (90 : ℤ) ≤ 180) (by exact_mod_cast hx) (by exact_mod_cast hlat)
    obtain ⟨hlonlo, hlonhi⟩ := step_mem (le_refl (180 : ℤ)) (by exact_mod_cast hy) (by exact_mod_cast hlon)
    have hrest := ih hlat hlon fun point hpoint => h point (List.mem_cons_of_mem _ hpoint)
    rw [encodeFrom, List.append_assoc, decodeFrom_pair (next_encodeNumber hlatlo hlathi) (next_encodeNumber hlonlo hlonhi),
      add_sub_cancel, add_sub_cancel, hrest]
    rfl

theorem decodeLine_encodeLine (h : ∀ point ∈ points, OnEarth point) :
    decodeLine (encodeLine points) = points.map fun point => (rounded point.lat, rounded point.lon) := by
  have hzero : round (0 * lineFactor) = 0 := by
    norm_num [round]
  have hread := decodeFrom_encodeFrom (x := 0) (y := 0) (by norm_num) (by norm_num) h
  rwa [hzero] at hread

/-- The complete numbers of a text, one after the other. -/
def numbers (line : List ℕ) : List ℤ :=
  match _hnext : next 0 0 line with
  | none => []
  | some (n, rest) => n :: numbers rest
termination_by line.length
decreasing_by exact length_of_next _hnext

theorem numbers_done (h : next 0 0 line = none) : numbers line = [] := by
  rw [numbers]
  split
  · rfl
  · next hnext =>
    rw [h] at hnext
    cases hnext

theorem numbers_cons {n : ℤ} (h : next 0 0 line = some (n, rest)) : numbers line = n :: numbers rest := by
  rw [numbers]
  split
  · next hnext =>
    rw [h] at hnext
    cases hnext
  · next hnext =>
    rw [h] at hnext
    cases hnext
    rfl

/-- The places that steps lead to, two numbers each. -/
def places (lat lon : ℤ) : List ℤ → List (ℚ × ℚ)
  | dLat :: dLon :: steps =>
    ((lat + dLat : ℤ) / lineFactor, (lon + dLon : ℤ) / lineFactor) :: places (lat + dLat) (lon + dLon) steps
  | _ => []

theorem length_places (lat lon : ℤ) : ∀ steps : List ℤ, (places lat lon steps).length = steps.length / 2
  | [] => by simp [places]
  | [_] => by simp [places]
  | dLat :: dLon :: steps => by
    rw [places, List.length_cons, length_places, List.length_cons, List.length_cons]
    omega

/-- A text is read two complete numbers at a time. -/
theorem decodeFrom_eq (lat lon : ℤ) (line : List ℕ) : decodeFrom lat lon line = places lat lon (numbers line) := by
  induction lat, lon, line using decodeFrom.induct with
  | case1 lat lon line hlat =>
    rw [decodeFrom_done hlat, numbers_done hlat]
    simp [places]
  | case2 lat lon line dLat rest hlat hlon =>
    rw [decodeFrom_half hlat hlon, numbers_cons hlat, numbers_done hlon]
    simp [places]
  | case3 lat lon line dLat rest hlat dLon rest' hlon ih =>
    rw [decodeFrom_pair hlat hlon, numbers_cons hlat, numbers_cons hlon, places, ih]

end

/-- **The drawn line.** A line on the earth is read back rounded, no shift of a step between two places overflows, and any
text at all is read, two complete numbers for each place. -/
theorem polyline_spec :
    (∀ points : List (LatLon ℚ), (∀ point ∈ points, OnEarth point) →
      decodeLine (encodeLine points) = points.map fun point => (rounded point.lat, rounded point.lon)) ∧
    (∀ point point' : LatLon ℚ, OnEarth point → OnEarth point' →
      let dLat := round (point'.lat * lineFactor) - round (point.lat * lineFactor)
      let dLon := round (point'.lon * lineFactor) - round (point.lon * lineFactor)
      (int32 dLat <<< 1).toInt = 2 * dLat ∧ (int32 dLon <<< 1).toInt = 2 * dLon) ∧
    ∀ line, decodeLine line = places 0 0 (numbers line) ∧ (decodeLine line).length = (numbers line).length / 2 := by
  refine ⟨fun points h => decodeLine_encodeLine h, fun point point' h h' => ?_, fun line => ?_⟩
  · obtain ⟨hlatlo, hlathi⟩ := step_mem (by decide : (90 : ℤ) ≤ 180) (by exact_mod_cast h.1) (by exact_mod_cast h'.1)
    obtain ⟨hlonlo, hlonhi⟩ := step_mem (le_refl (180 : ℤ)) (by exact_mod_cast h.2) (by exact_mod_cast h'.2)
    exact ⟨toInt_shiftLeft hlatlo hlathi, toInt_shiftLeft hlonlo hlonhi⟩
  · have hread : decodeLine line = places 0 0 (numbers line) := decodeFrom_eq 0 0 line
    exact ⟨hread, by rw [hread, length_places]⟩

end Polyline

end JitPack
