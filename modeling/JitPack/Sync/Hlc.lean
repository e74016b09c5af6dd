import JitPack.Lib.FixedWidth

/-!
# Hybrid logical clocks as strings

The clock of a write is a string `{physical_ms:013d}-{counter:04x}-{device_id:8}`
(`internal/sync/hlc.go`). This module has the type and the code that reads and writes it: the digits
of Go's `strconv` and `fmt`, `parse`, `format` and `valid`. A Go string is a list of bytes, and its
`<` is the lexicographic order of that list.

The proofs cut a clock at its two dashes (`split_at_dashes`) and say what `parse` read in each part
(`parse_ok_iff`). What the accepted strings are, and how they are ordered, is in
`JitPack.Sync.Canonical`.
-/

namespace JitPack

open FixedWidth

/-- The byte string of an ASCII text. -/
def ascii (s : String) : List UInt8 := s.toList.map Char.toUInt8

/-- The byte `-`. -/
def dash : UInt8 := 0x2d

/-- The byte `+`. -/
def plus : UInt8 := 0x2b

/-! ## Digits -/

/-- The value `strconv.ParseUint` gives one byte: a decimal digit, or a letter of either case. A
byte that is neither has a value that no base up to 36 admits. -/
def digitVal (c : UInt8) : Nat :=
  if 0x30 ≤ c ∧ c ≤ 0x39 then (c - 0x30).toNat
  else if 0x61 ≤ c ||| 0x20 ∧ c ||| 0x20 ≤ 0x7a then ((c ||| 0x20) - 0x61).toNat + 10
  else 36

/-- The byte `fmt` writes for a digit, with the letters of `%x` in lower case. -/
def digitChar (d : Nat) : UInt8 := if d < 10 then 0x30 + d.toUInt8 else 0x57 + d.toUInt8

/-- `0` to `9`. -/
def isDecimal (c : UInt8) : Bool := 0x30 ≤ c ∧ c ≤ 0x39

/-- `0` to `9` and `a` to `f`. -/
def isLowerHexByte (c : UInt8) : Bool := 0x30 ≤ c ∧ c ≤ 0x39 ∨ 0x61 ≤ c ∧ c ≤ 0x66

/-- `isLowerHex` of `hlc.go`. A byte outside ASCII is part of a rune outside both ranges, so the
loop over the runes and the check of the bytes agree. -/
def isLowerHex (s : List UInt8) : Bool := s.all isLowerHexByte && decide (0 < s.length)

set_option maxRecDepth 20000 in
@[simp] theorem digitVal_lt_ten : ∀ c, digitVal c < 10 ↔ isDecimal c = true :=
  forall_byte (by decide)

set_option maxRecDepth 20000 in
theorem digitVal_lt_sixteen : ∀ c, isLowerHexByte c = true → digitVal c < 16 :=
  forall_byte (by decide)

set_option maxRecDepth 20000 in
/-- A byte survives reading and writing exactly when `%x` can write it. -/
theorem digitChar_digitVal : ∀ c, digitVal c < 16 →
    (digitChar (digitVal c) = c ↔ isLowerHexByte c = true) :=
  forall_byte (by decide)

theorem digitVal_digitChar {d : Nat} (h : d < 16) : digitVal (digitChar d) = d := by
  interval_cases d <;> decide

theorem isDecimal_digitChar {d : Nat} (h : d < 10) : isDecimal (digitChar d) = true := by
  interval_cases d <;> decide

theorem isLowerHexByte_digitChar {d : Nat} (h : d < 16) : isLowerHexByte (digitChar d) = true := by
  interval_cases d <;> decide

set_option maxRecDepth 20000 in
theorem isLowerHexByte_of_isDecimal : ∀ c, isDecimal c = true → isLowerHexByte c = true :=
  forall_byte (by decide)

set_option maxRecDepth 20000 in
theorem ne_dash_of_isDecimal : ∀ c, isDecimal c = true → c ≠ dash ∧ c ≠ plus ∧ dash < c :=
  forall_byte (by decide)

set_option maxRecDepth 20000 in
theorem digitVal_eq_zero : ∀ c, digitVal c = 0 ↔ c = 0x30 := forall_byte (by decide)

/-- The digits of `%d` and `%x` are written in the order of their values. -/
theorem strictMonoOn_digitChar : StrictMonoOn digitChar {d | d < 16} := by
  intro a ha b hb hab
  simp only [Set.mem_ofPred_eq] at ha hb
  interval_cases b <;> interval_cases a <;> first | omega | decide

/-! ## Numbers -/

/-- The errors of `strconv`: bytes that are no number, and a number that does not fit. -/
inductive NumError where
  | invalid
  | range
  deriving DecidableEq, Repr

/-- `strconv.ParseUint(s, base, bits)` for a base of 2 to 36. -/
def parseUint (base bits : Nat) (s : List UInt8) : Except NumError Nat :=
  if s.isEmpty || s.any (fun c => base ≤ digitVal c) then .error .invalid
  else if 2 ^ bits ≤ value base (s.map digitVal) then .error .range
  else .ok (value base (s.map digitVal))

/-- `strconv.ParseInt(s, 10, 64)`: an optional sign, then the digits. -/
def parseInt (s : List UInt8) : Except NumError Int :=
  if s = [] then .error .invalid
  else
    let neg := s.head? = some dash
    match parseUint 10 64 (if neg ∨ s.head? = some plus then s.tail else s) with
    | .error err => .error err
    | .ok un =>
      if ¬ neg ∧ 2 ^ 63 ≤ un ∨ neg ∧ 2 ^ 63 < un then .error .range
      else .ok (if neg then -(un : Int) else un)

/-- `%0{w}d` of `fmt`: the sign takes one place of the width. -/
def formatInt (w : Nat) (n : Int) : List UInt8 :=
  if n < 0 then dash :: (digits 10 (w - 1) n.natAbs).map digitChar
  else (digits 10 w n.natAbs).map digitChar

/-- `%0{w}x` of `fmt`, for a number that is not negative. -/
def formatHex (w n : Nat) : List UInt8 := (digits 16 w n).map digitChar

/-! ## The clock -/

/-- A hybrid logical clock. Its order is the order of the bytes, and that order is the merge rule. -/
abbrev HLC := List UInt8

def deviceIDLen : Nat := 8
def hlcLen : Nat := 13 + 1 + 4 + 1 + 8
def counterLimit : Nat := 0xffff

/-- What `Parse` takes a clock apart into. -/
structure Parts where
  millis : Int
  counter : Nat
  deviceID : List UInt8
  deriving DecidableEq, Repr

/-- The clock order: milliseconds, then the counter, then the device. -/
def Parts.key (p : Parts) : ℤ ×ₗ ℕ ×ₗ List UInt8 := toLex (p.millis, toLex (p.counter, p.deviceID))

/-- The errors of `Parse`, each with the string it quotes: `malformed HLC`, `malformed HLC millis`,
`malformed HLC counter` and `malformed HLC device id`. -/
inductive ParseError where
  | malformed (h : HLC)
  | millis (h : HLC) (err : NumError)
  | counter (h : HLC) (err : NumError)
  | deviceID (h : HLC)
  deriving DecidableEq, Repr

namespace HLC

/-- `Parse` of `hlc.go`. -/
def parse (s : HLC) : Except ParseError Parts := do
  if s.length ≠ hlcLen ∨ s[13]? ≠ some dash ∨ s[18]? ≠ some dash then throw (.malformed s)
  let millis ← (parseInt (s.take 13)).mapError (.millis s)
  let counter ← (parseUint 16 32 ((s.drop 14).take 4)).mapError (.counter s)
  let deviceID := s.drop 19
  if !isLowerHex deviceID then throw (.deviceID s)
  return { millis, counter, deviceID }

/-- `format` of `hlc.go`. -/
def format (p : Parts) : HLC :=
  formatInt 13 p.millis ++ dash :: (formatHex 4 p.counter ++ dash :: p.deviceID)

/-- `Valid` of `hlc.go`: the clock is what `format` writes for the parts `parse` reads in it. -/
def valid (s : HLC) : Bool :=
  match parse s with
  | .error _ => false
  | .ok p => format p = s

end HLC

/-! ## Reading and writing are inverse on what `fmt` writes -/

theorem parseUint_ok_iff {base bits n : Nat} {s : List UInt8} : parseUint base bits s = .ok n ↔
    s ≠ [] ∧ (∀ c ∈ s, digitVal c < base) ∧ value base (s.map digitVal) < 2 ^ bits ∧
      value base (s.map digitVal) = n := by
  have hread : (s.isEmpty || s.any (fun c => base ≤ digitVal c)) = true ↔
      ¬ (s ≠ [] ∧ ∀ c ∈ s, digitVal c < base) := by
    simp [List.any_eq_true, or_iff_not_imp_left]
  unfold parseUint
  split
  case isTrue h =>
    exact ⟨nofun, fun ⟨h1, h2, _⟩ => absurd ⟨h1, h2⟩ (hread.1 h)⟩
  case isFalse h =>
    rw [hread, not_not] at h
    split
    · exact ⟨nofun, fun ⟨_, _, h3, _⟩ => by omega⟩
    · exact ⟨fun he => ⟨h.1, h.2, by omega, by simpa using he⟩, fun ⟨_, _, _, he⟩ => by rw [he]⟩

theorem value_map_lt {base : Nat} (hb : 1 < base) {s : List UInt8}
    (h : ∀ c ∈ s, digitVal c < base) : value base (s.map digitVal) < base ^ s.length := by
  have hds : ∀ d ∈ s.map digitVal, d < base := by simpa using h
  simpa using value_lt hb hds

/-- A text of digits that `fmt` can write is what it writes for the value of the text. -/
theorem digits_value_map {base : Nat} (hb : 1 < base) (hb' : base ≤ 16) {s : List UInt8}
    (hs : ∀ c ∈ s, isLowerHexByte c = true) (h : ∀ c ∈ s, digitVal c < base) :
    (digits base s.length (value base (s.map digitVal))).map digitChar = s := by
  have hds : ∀ d ∈ s.map digitVal, d < base := by simpa using h
  have := digits_value hb hds
  rw [List.length_map] at this
  rw [this, List.map_map]
  exact (List.map_congr_left fun c hc =>
    (digitChar_digitVal c ((h c hc).trans_le hb')).2 (hs c hc)).trans (List.map_id s)

section
variable {m ds : List UInt8}

/-- `strconv.ParseInt` reads decimal digits after at most one sign. -/
theorem parseInt_ok {z : Int} (h : parseInt m = .ok z) : ∃ ds, (∀ c ∈ ds, digitVal c < 10) ∧
    (m = dash :: ds ∧ z = -(value 10 (ds.map digitVal) : Int) ∨
      (m = plus :: ds ∨ m = ds) ∧ z = value 10 (ds.map digitVal)) := by
  unfold parseInt at h
  split at h
  case isTrue => cases h
  case isFalse hne =>
    obtain ⟨c, m, rfl⟩ := List.exists_cons_of_ne_nil hne
    simp only [List.head?_cons, Option.some.injEq, List.tail_cons] at h
    split at h
    case h_1 => cases h
    case h_2 un hun =>
      split at h
      · cases h
      · obtain ⟨-, hd, -, rfl⟩ := parseUint_ok_iff.1 hun
        by_cases hdash : c = dash
        · subst hdash
          simp only [true_or, if_true] at hd h
          exact ⟨m, hd, .inl ⟨rfl, (Except.ok.inj h).symm⟩⟩
        · refine ⟨_, hd, .inr ⟨?_, ?_⟩⟩
          · by_cases hplus : c = plus
            · simp [hplus]
            · simp [hdash, hplus]
          · simpa [hdash] using (Except.ok.inj h).symm

/-- Thirteen digits are a number. -/
theorem parseInt_decimal (hlen : m.length = 13) (hm : ∀ c ∈ m, isDecimal c = true) :
    parseInt m = .ok (value 10 (m.map digitVal)) := by
  have hd : ∀ c ∈ m, digitVal c < 10 := fun c hc => (digitVal_lt_ten c).2 (hm c hc)
  have hne : m ≠ [] := by rintro rfl; simp at hlen
  have hlt := value_map_lt (by decide) hd
  rw [hlen] at hlt
  have hun : parseUint 10 64 m = .ok (value 10 (m.map digitVal)) :=
    parseUint_ok_iff.2 ⟨hne, hd, by omega, rfl⟩
  obtain ⟨c, m, rfl⟩ := List.exists_cons_of_ne_nil hne
  obtain ⟨h1, h2, -⟩ := ne_dash_of_isDecimal c (hm c (.head _))
  have h63 : ¬ 2 ^ 63 ≤ value 10 ((c :: m).map digitVal) := by omega
  simp only [parseInt, hne, List.head?_cons, Option.some.injEq, h1, h2, or_false, if_false, hun]
  simp only [not_false_eq_true, true_and, false_and, or_false, h63, if_false]

/-- A dash and twelve digits are a number that is not positive. -/
theorem parseInt_dash (hlen : ds.length = 12) (hd : ∀ c ∈ ds, isDecimal c = true) :
    parseInt (dash :: ds) = .ok (-(value 10 (ds.map digitVal) : Int)) := by
  have hd : ∀ c ∈ ds, digitVal c < 10 := fun c hc => (digitVal_lt_ten c).2 (hd c hc)
  have hne : ds ≠ [] := by rintro rfl; simp at hlen
  have hlt := value_map_lt (by decide) hd
  rw [hlen] at hlt
  have hun : parseUint 10 64 ds = .ok (value 10 (ds.map digitVal)) :=
    parseUint_ok_iff.2 ⟨hne, hd, by omega, rfl⟩
  have h63 : ¬ 2 ^ 63 < value 10 (ds.map digitVal) := by omega
  simp only [parseInt, List.head?_cons, true_or, if_true, List.tail_cons, hun]
  simp only [reduceCtorEq, not_true, false_and, true_and, false_or, h63, if_false]

theorem formatInt_decimal (hm : ∀ c ∈ m, isDecimal c = true) :
    formatInt m.length (value 10 (m.map digitVal)) = m := by
  have : ¬ ((value 10 (m.map digitVal) : Nat) : Int) < 0 := by omega
  rw [formatInt, if_neg this, Int.natAbs_natCast]
  exact digits_value_map (by decide) (by decide)
    (fun c hc => isLowerHexByte_of_isDecimal c (hm c hc))
    (fun c hc => (digitVal_lt_ten c).2 (hm c hc))

theorem formatInt_dash (hd : ∀ c ∈ ds, isDecimal c = true) (hpos : 0 < value 10 (ds.map digitVal)) :
    formatInt (ds.length + 1) (-(value 10 (ds.map digitVal) : Int)) = dash :: ds := by
  rw [formatInt, if_pos (by omega), Int.natAbs_neg, Int.natAbs_natCast, Nat.add_sub_cancel]
  rw [digits_value_map (by decide) (by decide)
    (fun c hc => isLowerHexByte_of_isDecimal c (hd c hc))
    (fun c hc => (digitVal_lt_ten c).2 (hd c hc))]

theorem formatHex_value (hs : ∀ c ∈ m, isLowerHexByte c = true) :
    formatHex m.length (value 16 (m.map digitVal)) = m :=
  digits_value_map (by decide) le_rfl hs fun c hc => digitVal_lt_sixteen c (hs c hc)

end

section
variable {w n k : Nat} {z z' : Int}

theorem length_formatHex (h : n < 16 ^ w) : (formatHex w n).length = w := by
  rw [formatHex, List.length_map, length_digits (by decide) h]

theorem lowerHex_formatHex : ∀ c ∈ formatHex w n, isLowerHexByte c = true := by
  simp only [formatHex, List.mem_map, forall_exists_index, and_imp, forall_apply_eq_imp_iff₂]
  exact fun d hd => isLowerHexByte_digitChar (digits_lt (by decide) hd)

theorem decimal_map_digits : ∀ c ∈ (digits 10 w n).map digitChar, isDecimal c = true := by
  simp only [List.mem_map, forall_exists_index, and_imp, forall_apply_eq_imp_iff₂]
  exact fun d hd => isDecimal_digitChar (digits_lt (by decide) hd)

/-- Hexadecimal texts of one width are ordered by value. -/
theorem formatHex_lt_iff (hn : n < 16 ^ w) (hk : k < 16 ^ w) :
    formatHex w n < formatHex w k ↔ n < k := by
  rw [formatHex, formatHex, map_lt_map_iff strictMonoOn_digitChar
      (fun d hd => digits_lt (by decide) hd) (fun d hd => digits_lt (by decide) hd),
    lt_iff_value_lt (b := 16) (by decide)
      ((length_digits (by decide) hn).trans (length_digits (by decide) hk).symm)
      (fun d hd => digits_lt (by decide) hd) (fun d hd => digits_lt (by decide) hd),
    value_digits, value_digits]

theorem formatHex_inj (hn : n < 16 ^ w) (hk : k < 16 ^ w) :
    formatHex w n = formatHex w k ↔ n = k := by
  refine ⟨fun h => ?_, fun h => h ▸ rfl⟩
  have h1 : ¬ n < k := by rw [← formatHex_lt_iff hn hk, h]; exact lt_irrefl _
  have h2 : ¬ k < n := by rw [← formatHex_lt_iff hk hn, h]; exact lt_irrefl _
  omega

/-- Decimal texts of one width are ordered by value. -/
theorem decimal_lt_iff (hn : n < 10 ^ w) (hk : k < 10 ^ w) :
    (digits 10 w n).map digitChar < (digits 10 w k).map digitChar ↔ n < k := by
  have hlt : ∀ {i : Nat}, ∀ d ∈ digits 10 w i, d < 10 := fun d hd => digits_lt (by decide) hd
  rw [map_lt_map_iff strictMonoOn_digitChar
      (fun d hd => (hlt d hd).trans (by decide)) (fun d hd => (hlt d hd).trans (by decide)),
    lt_iff_value_lt (b := 10) (by decide)
      ((length_digits (by decide) hn).trans (length_digits (by decide) hk).symm) hlt hlt,
    value_digits, value_digits]

end

/-! ## The parts of a clock -/

namespace HLC

variable {s : HLC} {p : Parts}

/-- A clock of the right length with its two dashes is three parts around them. -/
theorem split_at_dashes (h13 : s[13]? = some dash)
    (h18 : s[18]? = some dash) :
    s = s.take 13 ++ dash :: ((s.drop 14).take 4 ++ dash :: s.drop 19) := by
  have h18' : (s.drop 14)[4]? = some dash := by simpa using h18
  have h1 : s.drop 13 = dash :: s.drop 14 := by
    rw [List.drop_eq_getElem?_toList_append, h13]; rfl
  have h2 : (s.drop 14).drop 4 = dash :: s.drop 19 := by
    rw [List.drop_eq_getElem?_toList_append, h18', List.drop_drop]; rfl
  rw [← h2, List.take_append_drop, ← h1, List.take_append_drop]

/-- What a successful `parse` read in each part. -/
theorem parse_ok_iff : parse s = .ok p ↔
    s.length = hlcLen ∧ s[13]? = some dash ∧ s[18]? = some dash ∧
    parseInt (s.take 13) = .ok p.millis ∧ parseUint 16 32 ((s.drop 14).take 4) = .ok p.counter ∧
    isLowerHex (s.drop 19) = true ∧ s.drop 19 = p.deviceID := by
  by_cases hs : s.length ≠ hlcLen ∨ s[13]? ≠ some dash ∨ s[18]? ≠ some dash
  · have herr : parse s = .error (.malformed s) := by rw [parse, if_pos hs]; rfl
    simp only [herr, reduceCtorEq, false_iff]
    tauto
  · have hok : s.length = hlcLen ∧ s[13]? = some dash ∧ s[18]? = some dash := by tauto
    rw [parse, if_neg hs]
    simp only [hok, true_and]
    cases hm : parseInt (s.take 13) with
    | error err => simp [Except.mapError, bind, Except.bind]
    | ok millis =>
      cases hc : parseUint 16 32 ((s.drop 14).take 4) with
      | error err => simp [Except.mapError, bind, Except.bind]
      | ok counter =>
        cases hd : isLowerHex (s.drop 19) with
        | false => simp [Except.mapError, bind, Except.bind, throw, throwThe, MonadExceptOf.throw]
        | true =>
          obtain ⟨m, c, d⟩ := p
          simp [Except.mapError, bind, Except.bind, pure, Except.pure]

end HLC

end JitPack
