import JitPack.Sync.Hlc

/-!
# The language of valid clocks and its order

`HLC.valid` is defined by a round trip: the string is what `format` writes for the parts `parse`
reads in it. `valid_iff` says which strings these are. They are the canonical clocks, and besides
them the clocks whose millisecond part is a minus sign and twelve digits that are not all zero
(`HLC.SignedMillis`): `strconv.ParseInt` reads the sign, and `%013d` writes it back in the place of
one zero. A plus sign, upper case letters and a signed zero do not survive the round trip.

`format_lt_format_iff` compares two written clocks part by part, and from it the order of the bytes
is the order of the parts (`lt_iff_key_lt`) except between two clocks before the epoch, where the
digits after the sign run the other way.
-/

namespace JitPack

open FixedWidth

/-! ## Integers in thirteen places -/

section
variable {n : Nat} {z z' : Int}

/-- The milliseconds that `%013d` writes in thirteen places. -/
def MillisFit (z : Int) : Prop := -10 ^ 12 < z ∧ z < 10 ^ 13

theorem map_digitVal_digits (b : Nat) (hb : 1 < b) (hb' : b ≤ 16) (w n : Nat) :
    ((digits b w n).map digitChar).map digitVal = digits b w n := by
  rw [List.map_map]
  exact (List.map_congr_left fun d hd =>
    digitVal_digitChar ((digits_lt hb hd).trans_le hb')).trans (List.map_id _)

theorem parseInt_formatInt (h : MillisFit z) : parseInt (formatInt 13 z) = .ok z := by
  obtain ⟨hlo, hhi⟩ := h
  have hval (w n : Nat) : value 10 (((digits 10 w n).map digitChar).map digitVal) = n := by
    rw [map_digitVal_digits 10 (by decide) (by decide), value_digits]
  by_cases hz : z < 0
  · have hn : z.natAbs < 10 ^ 12 := by omega
    have hlen : ((digits 10 12 z.natAbs).map digitChar).length = 12 := by
      rw [List.length_map, length_digits (by decide) hn]
    rw [formatInt, if_pos hz, parseInt_dash hlen decimal_map_digits, hval]
    congr 1
    omega
  · have hn : z.natAbs < 10 ^ 13 := by omega
    have hlen : ((digits 10 13 z.natAbs).map digitChar).length = 13 := by
      rw [List.length_map, length_digits (by decide) hn]
    rw [formatInt, if_neg hz, parseInt_decimal hlen decimal_map_digits, hval]
    congr 1
    omega

theorem length_formatInt (h : MillisFit z) : (formatInt 13 z).length = 13 := by
  obtain ⟨hlo, hhi⟩ := h
  unfold formatInt
  split
  · rw [List.length_cons, List.length_map, length_digits (by decide) (by omega)]
  · rw [List.length_map, length_digits (by decide) (by omega)]

/-- Milliseconds beyond thirteen digits do not fit their place. -/
theorem lt_length_formatInt (h : 10 ^ 13 ≤ z) : 13 < (formatInt 13 z).length := by
  rw [formatInt, if_neg (by omega), List.length_map]
  exact lt_length_digits (by decide) (by omega)

theorem formatInt_inj (h : MillisFit z) (h' : MillisFit z') :
    formatInt 13 z = formatInt 13 z' ↔ z = z' := by
  refine ⟨fun he => ?_, fun he => he ▸ rfl⟩
  have := parseInt_formatInt h
  rw [he, parseInt_formatInt h'] at this
  exact (Except.ok.inj this).symm

/-- Written milliseconds are ordered by value, except that two negative ones are ordered by their
distance from zero. -/
theorem formatInt_lt_iff (h : MillisFit z) (h' : MillisFit z') :
    formatInt 13 z < formatInt 13 z' ↔ if z < 0 ∧ z' < 0 then z' < z else z < z' := by
  obtain ⟨hlo, hhi⟩ := h
  obtain ⟨hlo', hhi'⟩ := h'
  have hdash (n : Nat) (hn : n < 10 ^ 13) : ∃ c cs, (digits 10 13 n).map digitChar = c :: cs ∧
      dash < c := by
    have hlen : ((digits 10 13 n).map digitChar).length = 13 := by
      rw [List.length_map, length_digits (by decide) hn]
    obtain ⟨c, cs, hcs⟩ := List.exists_cons_of_length_eq_add_one hlen
    have hc : isDecimal c = true := decimal_map_digits c (hcs ▸ List.mem_cons_self)
    exact ⟨c, cs, hcs, (ne_dash_of_isDecimal c hc).2.2⟩
  by_cases hz : z < 0 <;> by_cases hz' : z' < 0
  · -- the signs agree in their first byte, so the magnitudes decide
    rw [formatInt, formatInt, if_pos hz, if_pos hz', if_pos ⟨hz, hz'⟩, List.cons_lt_cons_iff,
      decimal_lt_iff (by omega) (by omega)]
    simp only [lt_self_iff_false, true_and, false_or]
    omega
  · obtain ⟨c, cs, hcs, hc⟩ := hdash z'.natAbs (by omega)
    rw [formatInt, formatInt, if_pos hz, if_neg hz', if_neg (fun h => hz' h.2), hcs,
      List.cons_lt_cons_iff]
    exact ⟨fun _ => by omega, fun _ => .inl hc⟩
  · obtain ⟨c, cs, hcs, hc⟩ := hdash z.natAbs (by omega)
    rw [formatInt, formatInt, if_neg hz, if_pos hz', if_neg (fun h => hz h.1), hcs,
      List.cons_lt_cons_iff]
    refine ⟨fun h => ?_, fun _ => by omega⟩
    rcases h with h | ⟨h, -⟩
    · exact absurd h hc.asymm
    · exact absurd h hc.ne'
  · rw [formatInt, formatInt, if_neg hz, if_neg hz', if_neg (fun h => hz h.1),
      decimal_lt_iff (by omega) (by omega)]
    omega

end

namespace HLC

variable {s t : HLC} {p q : Parts}

/-! ## What `format` writes and `parse` reads back -/

/-- Parts that fit their places in a clock. -/
structure Fits (p : Parts) : Prop where
  millis : MillisFit p.millis
  counter : p.counter ≤ counterLimit
  deviceID : isLowerHex p.deviceID = true ∧ p.deviceID.length = deviceIDLen

theorem Fits.counter_lt (h : Fits p) : p.counter < 16 ^ 4 := by
  have := h.counter
  rw [counterLimit] at this
  omega

/-- The parts of a text with the two dashes where a clock has them. -/
theorem slices_append {m c d : List UInt8} (hm : m.length = 13) (hc : c.length = 4) :
    (m ++ dash :: (c ++ dash :: d)).length = 19 + d.length ∧
    (m ++ dash :: (c ++ dash :: d))[13]? = some dash ∧
    (m ++ dash :: (c ++ dash :: d))[18]? = some dash ∧
    (m ++ dash :: (c ++ dash :: d)).take 13 = m ∧
    ((m ++ dash :: (c ++ dash :: d)).drop 14).take 4 = c ∧
    (m ++ dash :: (c ++ dash :: d)).drop 19 = d := by
  simp only [List.length_append, List.length_cons, List.getElem?_append, List.take_append,
    List.drop_append, hm, hc]
  simp [hm, hc]
  refine ⟨by omega, ?_⟩
  rw [List.drop_of_length_le (by omega), List.drop_append, List.drop_of_length_le (by omega), hc]
  rfl

/-- What `parse` reads in parts that fit is what `format` wrote. -/
theorem parse_format (h : Fits p) : parse (format p) = .ok p := by
  obtain ⟨hlen, h13, h18, hm, hc, hd⟩ := slices_append (d := p.deviceID)
    (length_formatInt h.millis) (length_formatHex h.counter_lt)
  rw [parse_ok_iff, format, hm, hc, hd, hlen, h.deviceID.2]
  refine ⟨rfl, h13, h18, parseInt_formatInt h.millis, ?_, h.deviceID.1, rfl⟩
  have hlt : ∀ c ∈ formatHex 4 p.counter, digitVal c < 16 := fun c hc =>
    digitVal_lt_sixteen c (lowerHex_formatHex c hc)
  have hval : value 16 ((formatHex 4 p.counter).map digitVal) = p.counter := by
    rw [formatHex, map_digitVal_digits 16 (by decide) le_rfl, value_digits]
  refine parseUint_ok_iff.2 ⟨?_, hlt, ?_, hval⟩
  · exact List.ne_nil_of_length_eq_add_one (length_formatHex h.counter_lt)
  · have := h.counter_lt
    omega

theorem valid_format (h : Fits p) : valid (format p) = true := by
  simp [valid, parse_format h]

/-- The counter and the device id of whatever `parse` accepts fit. -/
theorem parse_fits (h : parse s = .ok p) :
    p.counter ≤ counterLimit ∧ isLowerHex p.deviceID = true ∧ p.deviceID.length = deviceIDLen := by
  obtain ⟨hlen, -, -, -, hc, hd, hdev⟩ := parse_ok_iff.1 h
  obtain ⟨-, hlt, -, hval⟩ := parseUint_ok_iff.1 hc
  rw [hlcLen] at hlen
  have hclen : ((s.drop 14).take 4).length = 4 := by simp; omega
  have := value_map_lt (by decide) hlt
  rw [hval, hclen] at this
  refine ⟨by rw [counterLimit]; omega, hdev ▸ hd, ?_⟩
  rw [← hdev, List.length_drop, hlen, deviceIDLen]

/-- The milliseconds `parse` accepts fit their place: thirteen bytes hold no larger number. -/
theorem parse_millis (h : parse s = .ok p) : MillisFit p.millis := by
  obtain ⟨hlen, -, -, hm, -⟩ := parse_ok_iff.1 h
  rw [hlcLen] at hlen
  have hmlen : (s.take 13).length = 13 := by simp; omega
  obtain ⟨ds, hd, ⟨hs, hz⟩ | ⟨hs, hz⟩⟩ := parseInt_ok hm
  · have hlt := value_map_lt (by decide) hd
    have : ds.length = 12 := by simpa [hs] using hmlen
    rw [this] at hlt
    exact ⟨by omega, by omega⟩
  · have hlt := value_map_lt (by decide) hd
    have : ds.length ≤ 13 := by rcases hs with hs | hs <;> simp [hs] at hmlen <;> omega
    have := hlt.trans_le (Nat.pow_le_pow_right (by decide : 0 < 10) this)
    exact ⟨by omega, by omega⟩

theorem fits_of_parse (h : parse s = .ok p) : Fits p :=
  ⟨parse_millis h, (parse_fits h).1, (parse_fits h).2⟩

/-- A valid clock is what `format` writes for the parts `parse` reads in it. -/
theorem valid_iff_format : valid s = true ↔ ∃ p, parse s = .ok p ∧ format p = s := by
  unfold valid
  cases parse s <;> simp

/-! ## The language -/

/-- A text with the two dashes, the counter and the device id of a clock, and `ms` in the place of
its milliseconds. -/
def Shaped (ms : List UInt8 → Prop) (s : HLC) : Prop :=
  s.length = hlcLen ∧ s[13]? = some dash ∧ s[18]? = some dash ∧ ms (s.take 13) ∧
    ((s.drop 14).take 4).all isLowerHexByte = true ∧ (s.drop 19).all isLowerHexByte = true

/-- The canonical clocks: thirteen decimal digits, `-`, four lower case hexadecimal digits, `-`,
eight lower case hexadecimal digits. -/
def Canonical (s : HLC) : Prop := Shaped (fun ms => ms.all isDecimal = true) s

/-- The clocks of a moment before the epoch: the milliseconds are a minus sign and twelve decimal
digits, not all of them `0`. -/
def SignedMillis (s : HLC) : Prop :=
  Shaped (fun ms => ms.head? = some dash ∧ ms.tail.all isDecimal = true ∧
    ms.tail.any (· ≠ 0x30) = true) s

instance : DecidablePred Canonical := fun s => by unfold Canonical Shaped; infer_instance
instance : DecidablePred SignedMillis := fun s => by unfold SignedMillis Shaped; infer_instance

/-- The two languages are disjoint: their first bytes differ. -/
theorem not_canonical_of_signed (h : SignedMillis s) : ¬ Canonical s := by
  obtain ⟨-, -, -, ⟨hhead, -⟩, -⟩ := h
  rintro ⟨-, -, -, hdec, -⟩
  have := List.all_eq_true.1 hdec dash (List.mem_of_mem_head? hhead)
  exact (ne_dash_of_isDecimal dash this).1 rfl

theorem value_pos_iff {ds : List UInt8} :
    0 < value 10 (ds.map digitVal) ↔ ds.any (· ≠ 0x30) = true := by
  rw [Nat.pos_iff_ne_zero, ne_eq, value_eq_zero_iff (by decide)]
  simp [digitVal_eq_zero, List.any_eq_true]

/-- The counter and the device id of a shaped text are read and written back. -/
theorem Shaped.valid_of {ms : List UInt8 → Prop} (h : Shaped ms s) {z : Int}
    (hz : parseInt (s.take 13) = .ok z) (hfmt : formatInt 13 z = s.take 13) : valid s = true := by
  obtain ⟨hlen, h13, h18, -, hc, hd⟩ := h
  rw [List.all_eq_true] at hc
  have hclen : ((s.drop 14).take 4).length = 4 := by simp [hlen, hlcLen]
  have hdlen : (s.drop 19).length = 8 := by simp [hlen, hlcLen]
  have hne : (s.drop 14).take 4 ≠ [] := List.ne_nil_of_length_eq_add_one hclen
  have hlt : ∀ c ∈ (s.drop 14).take 4, digitVal c < 16 := fun c h => digitVal_lt_sixteen c (hc c h)
  have hbound := value_map_lt (by decide) hlt
  rw [hclen] at hbound
  have hhex := formatHex_value hc
  rw [hclen] at hhex
  refine valid_iff_format.2 ⟨⟨z, value 16 (((s.drop 14).take 4).map digitVal), s.drop 19⟩, ?_, ?_⟩
  · refine parse_ok_iff.2 ⟨hlen, h13, h18, hz, ?_, ?_, rfl⟩
    · exact parseUint_ok_iff.2 ⟨hne, hlt, by omega, rfl⟩
    · simp only [isLowerHex, hdlen, hd, Bool.true_and]
      rfl
  · rw [format, hfmt, hhex, ← split_at_dashes h13 h18]

/-- **The language of `Valid`.** -/
theorem valid_iff : valid s = true ↔ Canonical s ∨ SignedMillis s := by
  constructor
  · intro h
    obtain ⟨p, hp, rfl⟩ := valid_iff_format.1 h
    have hfit := fits_of_parse hp
    obtain ⟨hlen, h13, h18, hm, hc, hd⟩ := slices_append (d := p.deviceID)
      (length_formatInt hfit.millis) (length_formatHex hfit.counter_lt)
    have hlen' : (format p).length = hlcLen := by rw [format, hlen, hfit.deviceID.2]; rfl
    have hdev : p.deviceID.all isLowerHexByte = true := by
      have := hfit.deviceID.1
      rw [isLowerHex, Bool.and_eq_true] at this
      exact this.1
    have hrest (ms : List UInt8 → Prop) (hms : ms (formatInt 13 p.millis)) :
        Shaped ms (format p) := by
      refine ⟨hlen', h13, h18, ?_, ?_, ?_⟩ <;> rw [format]
      · rwa [hm]
      · rw [hc]; exact List.all_eq_true.2 lowerHex_formatHex
      · rw [hd]; exact hdev
    by_cases hz : p.millis < 0
    · refine .inr (hrest _ ?_)
      rw [formatInt, if_pos hz]
      refine ⟨rfl, List.all_eq_true.2 decimal_map_digits, value_pos_iff.1 ?_⟩
      rw [List.tail_cons, map_digitVal_digits 10 (by decide) (by decide), value_digits]
      omega
    · refine .inl (hrest _ ?_)
      rw [formatInt, if_neg hz]
      exact List.all_eq_true.2 decimal_map_digits
  · rintro (h | h)
    · have hm : (s.take 13).length = 13 := by simp [h.1, hlcLen]
      have hdec := List.all_eq_true.1 h.2.2.2.1
      have hfmt := formatInt_decimal hdec
      rw [hm] at hfmt
      exact h.valid_of (parseInt_decimal hm hdec) hfmt
    · obtain ⟨hhead, hdec, hpos⟩ := h.2.2.2.1
      obtain ⟨ds, hds⟩ := List.head?_eq_some_iff.1 hhead
      have hlen : ds.length = 12 := by
        have : (s.take 13).length = 13 := by simp [h.1, hlcLen]
        simpa [hds] using this
      rw [hds, List.tail_cons] at hdec hpos
      rw [List.all_eq_true] at hdec
      have hfmt := formatInt_dash hdec (value_pos_iff.2 hpos)
      rw [hlen] at hfmt
      exact h.valid_of (hds ▸ parseInt_dash hlen hdec) (hds ▸ hfmt)

/-! ## The order -/

/-- Written clocks compare by their milliseconds, then the counter, then the device, as texts. -/
theorem format_lt_format_iff (hp : Fits p) (hq : Fits q) : format p < format q ↔
    if p.millis < 0 ∧ q.millis < 0 ∧ p.millis ≠ q.millis then q.millis < p.millis
    else p.key < q.key := by
  have hmlen := (length_formatInt hp.millis).trans (length_formatInt hq.millis).symm
  have hclen := (length_formatHex hp.counter_lt).trans (length_formatHex hq.counter_lt).symm
  rw [format, format, append_lt_append_iff hmlen, formatInt_lt_iff hp.millis hq.millis,
    formatInt_inj hp.millis hq.millis, List.cons_lt_cons_iff, append_lt_append_iff hclen,
    formatHex_lt_iff hp.counter_lt hq.counter_lt,
    formatHex_inj hp.counter_lt hq.counter_lt, List.cons_lt_cons_iff]
  simp only [lt_self_iff_false, true_and, false_or, Parts.key, Prod.Lex.toLex_lt_toLex]
  split <;> split <;> grind

/-- **The bytes of valid clocks are in the order of their parts**, unless both are of a moment
before the epoch and of different milliseconds: then the order is reversed. -/
theorem lt_iff_key_lt (hs : valid s = true) (ht : valid t = true) (hp : parse s = .ok p)
    (hq : parse t = .ok q) : (s < t ↔ p.key < q.key) ↔
      ¬ (p.millis < 0 ∧ q.millis < 0 ∧ p.millis ≠ q.millis) := by
  have hsf : format p = s := by simpa [valid, hp] using hs
  have htf : format q = t := by simpa [valid, hq] using ht
  have := format_lt_format_iff (fits_of_parse hp) (fits_of_parse hq)
  rw [hsf, htf] at this
  rw [this]
  split
  case isTrue h =>
    refine iff_of_false (fun hiff => ?_) (not_not.2 h)
    simp only [Parts.key, Prod.Lex.toLex_lt_toLex] at hiff
    grind
  case isFalse h => simp [h]

theorem take_eq_formatInt (hs : valid s = true) (hp : parse s = .ok p) :
    s.take 13 = formatInt 13 p.millis := by
  have hsf : format p = s := by simpa [valid, hp] using hs
  rw [← hsf, format, List.take_left' (length_formatInt (fits_of_parse hp).millis)]

/-- The milliseconds of a valid clock are negative exactly when the clock is signed. -/
theorem millis_neg_iff (hs : valid s = true) (hp : parse s = .ok p) :
    p.millis < 0 ↔ SignedMillis s := by
  have htake := take_eq_formatInt hs hp
  constructor
  · intro hz
    refine (valid_iff.1 hs).resolve_left fun hcan => ?_
    have hdash : dash ∈ s.take 13 := by
      rw [htake, formatInt, if_pos hz]
      exact List.mem_cons_self
    exact (ne_dash_of_isDecimal dash (List.all_eq_true.1 hcan.2.2.2.1 dash hdash)).1 rfl
  · intro hsig
    by_contra hz
    have hmem := List.mem_of_mem_head? hsig.2.2.2.1.1
    rw [htake, formatInt, if_neg hz] at hmem
    exact (ne_dash_of_isDecimal dash (decimal_map_digits dash hmem)).1 rfl

/-- **`Valid` accepts exactly the canonical language, and its bytes are in clock order**, up to the
signed clocks: `Valid` agrees with the canonical language on a string exactly if it is not signed,
and two valid clocks are in the order of their parts exactly if they are not both signed with
different milliseconds. -/
theorem valid_canonical_and_ordered (s t : HLC) :
    ((valid s = true ↔ Canonical s) ↔ ¬ SignedMillis s) ∧
    ∀ p q, valid s = true → valid t = true → parse s = .ok p → parse t = .ok q →
      ((s < t ↔ p.key < q.key) ↔
        ¬ (SignedMillis s ∧ SignedMillis t ∧ s.take 13 ≠ t.take 13)) := by
  refine ⟨?_, fun p q hs ht hp hq => ?_⟩
  · have := not_canonical_of_signed (s := s)
    rw [valid_iff]
    tauto
  · rw [lt_iff_key_lt hs ht hp hq, millis_neg_iff hs hp, millis_neg_iff ht hq,
      take_eq_formatInt hs hp, take_eq_formatInt ht hq, ne_eq, ne_eq,
      formatInt_inj (fits_of_parse hp).millis (fits_of_parse hq).millis]

/-- The moment one millisecond before the epoch is accepted and is not canonical, and it sorts below
the moment before it. -/
theorem signed_millis_accepted :
    ¬ ((∀ s, valid s = true ↔ Canonical s) ∧
      ∀ s t p q, valid s = true → valid t = true → parse s = .ok p → parse t = .ok q →
        (s < t ↔ p.key < q.key)) := by
  rintro ⟨hlang, -⟩
  have := (hlang (ascii "-000000000001-0000-a1b2c3d4")).1 (by decide +kernel)
  revert this
  decide +kernel

end HLC

end JitPack
