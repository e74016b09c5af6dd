import JitPack.Lib.Machine
import JitPack.Sync.Canonical

/-!
# The clock generator

`Generator` of `internal/sync/hlc.go`: `next` returns a clock of this device, and `observe` moves
the generator past a clock from elsewhere. The state carries what the constructor establishes and
the two methods keep: a valid device id, milliseconds that are not negative, a counter that fits its
four digits. What it does not carry is a bound on the milliseconds, and there the format ends:
`clockSafe_iff` proves that the clocks of a run are valid and increasing exactly as long as `next`
is not called on a generator that stands at the last clock of the format (`Generator.Exhausted`).
-/

namespace JitPack

open HLC

/-- `Generator` of `hlc.go`, without its mutex and its wall clock: a reading of the wall clock is an
argument of `next`. -/
structure Generator where
  deviceID : List UInt8
  lastMillis : Int
  counter : Nat
  deviceID_ok : isLowerHex deviceID = true ∧ deviceID.length = deviceIDLen
  lastMillis_nonneg : 0 ≤ lastMillis
  counter_le : counter ≤ counterLimit

/-- `NewGenerator`. The error names the id it refuses. -/
def newGenerator (deviceID : List UInt8) : Except (List UInt8) Generator :=
  if h : deviceID.length = deviceIDLen ∧ isLowerHex deviceID = true then
    .ok { deviceID, lastMillis := 0, counter := 0, deviceID_ok := h.symm,
          lastMillis_nonneg := le_rfl, counter_le := Nat.zero_le _ }
  else .error deviceID

namespace Generator

variable {g : Generator} {now : Int} {h : HLC} {p : Parts}

/-- What `Next` does to the state before it formats it. -/
def tick (g : Generator) (now : Int) : Generator :=
  if hnow : now ≤ g.lastMillis then
    if hc : g.counter + 1 > counterLimit then
      { g with
        lastMillis := g.lastMillis + 1
        counter := 0
        lastMillis_nonneg := Int.add_nonneg g.lastMillis_nonneg Int.one_nonneg
        counter_le := Nat.zero_le _ }
    else { g with counter := g.counter + 1, counter_le := Nat.le_of_not_lt hc }
  else
    { g with
      lastMillis := now
      counter := 0
      lastMillis_nonneg := g.lastMillis_nonneg.trans (Int.le_of_not_le hnow)
      counter_le := Nat.zero_le _ }

/-- The parts of the clock the generator stands at. -/
def parts (g : Generator) : Parts := ⟨g.lastMillis, g.counter, g.deviceID⟩

/-- `Generator.Next`, at the reading `now` of the wall clock. -/
def next (g : Generator) (now : Int) : HLC × Generator := (format (g.tick now).parts, g.tick now)

/-- What `Observe` does to the state, for a clock that parsed. -/
def advance (g : Generator) (p : Parts) (hc : p.counter ≤ counterLimit) : Generator :=
  if hm : g.lastMillis < p.millis then
    { g with
      lastMillis := p.millis
      counter := p.counter
      lastMillis_nonneg := g.lastMillis_nonneg.trans hm.le
      counter_le := hc }
  else if p.millis = g.lastMillis ∧ g.counter < p.counter then
    { g with counter := p.counter, counter_le := hc }
  else g

/-- `Generator.Observe`: a clock that does not parse is an error and leaves the state alone. -/
def observe (g : Generator) (remote : HLC) : Except ParseError Unit × Generator :=
  match hp : parse remote with
  | .error err => (.error err, g)
  | .ok p => (.ok (), g.advance p (parse_fits hp).1)

/-- How far the generator is: the part of the clock order it decides. -/
def reached (g : Generator) : ℤ ×ₗ ℕ := toLex (g.lastMillis, g.counter)

end Generator

/-- The part of the clock order that is not the device. -/
def Parts.stamp (p : Parts) : ℤ ×ₗ ℕ := toLex (p.millis, p.counter)

namespace Generator

variable {g : Generator} {now : Int} {h : HLC} {p : Parts}

@[simp] theorem tick_deviceID : (g.tick now).deviceID = g.deviceID := by
  unfold tick; split <;> [split; skip] <;> rfl

/-- The three things `Next` can do. -/
theorem tick_cases (g : Generator) (now : Int) :
    (now ≤ g.lastMillis ∧ g.counter = counterLimit ∧
      (g.tick now).lastMillis = g.lastMillis + 1 ∧ (g.tick now).counter = 0) ∨
    (now ≤ g.lastMillis ∧ g.counter < counterLimit ∧
      (g.tick now).lastMillis = g.lastMillis ∧ (g.tick now).counter = g.counter + 1) ∨
    (g.lastMillis < now ∧ (g.tick now).lastMillis = now ∧ (g.tick now).counter = 0) := by
  have := g.counter_le
  unfold tick
  split
  · split
    · exact .inl ⟨‹_›, by omega, rfl, rfl⟩
    · exact .inr (.inl ⟨‹_›, by omega, rfl, rfl⟩)
  · exact .inr (.inr ⟨by omega, rfl, rfl⟩)

/-- The three things `Observe` can do with a clock that parsed. -/
theorem advance_cases (g : Generator) (p : Parts) (hc : p.counter ≤ counterLimit) :
    (g.lastMillis < p.millis ∧ (g.advance p hc).lastMillis = p.millis ∧
      (g.advance p hc).counter = p.counter) ∨
    (p.millis = g.lastMillis ∧ g.counter < p.counter ∧
      (g.advance p hc).lastMillis = g.lastMillis ∧ (g.advance p hc).counter = p.counter) ∨
    ((p.millis < g.lastMillis ∨ p.millis = g.lastMillis ∧ p.counter ≤ g.counter) ∧
      g.advance p hc = g) := by
  unfold advance
  split
  · exact .inl ⟨‹_›, rfl, rfl⟩
  · split
    · next h => exact .inr (.inl ⟨h.1, h.2, rfl, rfl⟩)
    · exact .inr (.inr ⟨by omega, rfl⟩)

/-- `Next` always advances. -/
theorem reached_lt_tick : g.reached < (g.tick now).reached := by
  simp only [reached, Prod.Lex.toLex_lt_toLex]
  have := tick_cases g now
  omega

/-- `Observe` never goes back. -/
theorem reached_le_advance (hc : p.counter ≤ counterLimit) :
    g.reached ≤ (g.advance p hc).reached := by
  simp only [reached, Prod.Lex.toLex_le_toLex]
  rcases advance_cases g p hc with h | h | ⟨-, h⟩
  · omega
  · omega
  · rw [h]; exact .inr ⟨rfl, le_rfl⟩

/-- `Observe` goes at least as far as the clock it sees. -/
theorem stamp_le_advance (hc : p.counter ≤ counterLimit) :
    p.stamp ≤ (g.advance p hc).reached := by
  simp only [Parts.stamp, reached, Prod.Lex.toLex_le_toLex]
  rcases advance_cases g p hc with h | h | ⟨hle, h⟩
  · omega
  · omega
  · rw [h]; omega

theorem observe_of_parse (hp : parse h = .ok p) :
    g.observe h = (.ok (), g.advance p (parse_fits hp).1) := by
  unfold observe
  split
  · simp_all
  · next q hq =>
    obtain rfl : p = q := by simpa [hp] using hq
    rfl

theorem observe_of_error {err : ParseError} (hp : parse h = .error err) :
    g.observe h = (.error err, g) := by
  unfold observe
  split <;> simp_all

/-- **The next step of a generator at the end of the format leaves it.** The generator stands at the
last counter of the last millisecond that thirteen digits hold, or beyond. -/
def Exhausted (g : Generator) : Prop :=
  9999999999999 < g.lastMillis ∨ g.lastMillis = 9999999999999 ∧ g.counter = counterLimit

instance (g : Generator) : Decidable g.Exhausted := by unfold Exhausted; infer_instance

/-- Before the end of the format, and at a wall clock inside it, the next clock is inside it. -/
theorem fits_tick (hex : ¬ g.Exhausted) (hnow : now < 10 ^ 13) : Fits (g.tick now).parts := by
  have hnonneg := (g.tick now).lastMillis_nonneg
  have hcases := tick_cases g now
  unfold Exhausted at hex
  exact {
    millis := ⟨show -10 ^ 12 < (g.tick now).lastMillis by omega,
      show (g.tick now).lastMillis < 10 ^ 13 by omega⟩
    counter := (g.tick now).counter_le
    deviceID := (g.tick now).deviceID_ok }

theorem valid_next (hex : ¬ g.Exhausted) (hnow : now < 10 ^ 13) :
    valid (g.next now).1 = true := valid_format (fits_tick hex hnow)

/-- At the end of the format the next clock has fourteen digits of milliseconds. -/
theorem not_valid_next (hex : g.Exhausted) (hnow : now < 10 ^ 13) :
    valid (g.next now).1 = false := by
  have hlast : 10 ^ 13 ≤ (g.tick now).lastMillis := by
    have := tick_cases g now
    unfold Exhausted at hex
    omega
  have hlen : (g.next now).1.length ≠ hlcLen := by
    have hm := lt_length_formatInt hlast
    have hd := (g.tick now).deviceID_ok.2
    have hc : (formatHex 4 (g.tick now).counter).length = 4 := by
      have := (g.tick now).counter_le
      rw [counterLimit] at this
      exact length_formatHex (by omega)
    simp only [next, parts, format, List.length_append, List.length_cons, hc, hd, hlcLen, deviceIDLen]
    omega
  by_contra hval
  rw [Bool.not_eq_false, valid_iff] at hval
  exact hlen (hval.elim (·.1) (·.1))

end Generator

/-! ## Runs -/

/-- A call of the generator. -/
inductive ClockCall where
  | next (now : Int)
  | observe (remote : HLC)

/-- What a run shows of a call: the clock `next` returned, or the clock `observe` was given. -/
inductive ClockEvent where
  | returned (h : HLC)
  | observed (h : HLC)

namespace Generator

/-- The generator as a machine. -/
def machine : Machine Generator ClockCall ClockEvent where
  step g
    | .next now => (.returned (g.next now).1, (g.next now).2)
    | .observe remote => (.observed remote, (g.observe remote).2)

end Generator

/-- A later clock `h` follows an event: it is greater than a clock returned, and greater than a
clock observed if that one was valid. -/
def ClockEvent.Precedes (h : HLC) : ClockEvent → Prop
  | .returned h' => h' < h
  | .observed h' => valid h' = true → h' < h

/-- **Row clock safety**: every clock a run returns is valid and greater than every clock the run
returned, and every valid clock it observed, before. -/
def ClockSafe (events : List ClockEvent) : Prop :=
  ∀ pre h post, events = pre ++ .returned h :: post →
    valid h = true ∧ ∀ e ∈ pre, e.Precedes h

/-- A call at a wall clock inside the format. -/
def ClockCall.InRange : ClockCall → Prop
  | .next now => 0 ≤ now ∧ now < 10 ^ 13
  | .observe _ => True

/-- The generator has reached every clock of the event, and a clock it returned is valid. -/
def ClockEvent.Reached (e : ClockEvent) (g : Generator) : Prop :=
  match e with
  | .returned h => ∃ p, parse h = .ok p ∧ format p = h ∧ p.stamp ≤ g.reached
  | .observed h => ∀ p, parse h = .ok p → p.stamp ≤ g.reached

namespace Generator

variable {g : Generator} {calls : List ClockCall} {e : ClockEvent}

/-- A call the generator can answer with a clock of the format. -/
def CanAnswer (g : Generator) (c : ClockCall) : Prop :=
  c.InRange ∧ ((∃ now, c = .next now) → ¬ g.Exhausted)

theorem reached_le_step (g : Generator) (c : ClockCall) : g.reached ≤ (machine.step g c).2.reached := by
  cases c with
  | next now => exact reached_lt_tick.le
  | observe remote =>
    change g.reached ≤ (g.observe remote).2.reached
    cases hp : parse remote with
    | error err => rw [observe_of_error hp]
    | ok p =>
      rw [observe_of_parse hp]
      exact reached_le_advance _

theorem reached_new {c : ClockCall} (h : g.CanAnswer c) :
    (machine.step g c).1.Reached (machine.step g c).2 := by
  cases c with
  | next now =>
    have hfit := fits_tick (h.2 ⟨now, rfl⟩) h.1.2
    exact ⟨_, parse_format hfit, rfl, le_rfl⟩
  | observe remote =>
    intro p hp
    change p.stamp ≤ (g.observe remote).2.reached
    rw [observe_of_parse hp]
    exact stamp_le_advance _

theorem reached_keep (c : ClockCall) (h : e.Reached g) : e.Reached (machine.step g c).2 := by
  cases e with
  | returned h' =>
    obtain ⟨p, hp, hf, hle⟩ := h
    exact ⟨p, hp, hf, hle.trans (reached_le_step g c)⟩
  | observed h' => exact fun p hp => (h p hp).trans (reached_le_step g c)

/-- The next clock is greater than a valid clock with a stamp below its own. -/
theorem lt_next {now : Int} (hex : ¬ g.Exhausted) (hnow : now < 10 ^ 13) {h : HLC} {p : Parts}
    (hp : parse h = .ok p) (hv : valid h = true) (hlt : p.stamp < (g.tick now).reached) :
    h < (g.next now).1 := by
  have hfit := fits_tick hex hnow
  refine ((lt_iff_key_lt hv (valid_next hex hnow) hp (parse_format hfit)).2 ?_).2 ?_
  · have := (g.tick now).lastMillis_nonneg
    exact fun hneg => absurd hneg.2.1 (not_lt.2 this)
  · simp only [Parts.stamp, reached, Prod.Lex.toLex_lt_toLex] at hlt
    simp only [Parts.key, parts, Prod.Lex.toLex_lt_toLex]
    omega

/-- The next clock follows every clock the generator has reached. -/
theorem precedes_next {now : Int} (hex : ¬ g.Exhausted) (hnow : now < 10 ^ 13) (h : e.Reached g) :
    e.Precedes (g.next now).1 := by
  cases e with
  | returned h' =>
    obtain ⟨p, hp, hf, hle⟩ := h
    exact lt_next hex hnow hp (by simp [valid, hp, hf]) (hle.trans_lt reached_lt_tick)
  | observed h' =>
    intro hv
    obtain ⟨p, hp, -⟩ := valid_iff_format.1 hv
    exact lt_next hex hnow hp hv ((h p hp).trans_lt reached_lt_tick)

/-- **The generator is safe until the format ends.** At wall clocks inside the format, the clocks of
a run are valid and increasing exactly when no call of `next` finds the generator exhausted. -/
theorem clockSafe_iff (g : Generator) (calls : List ClockCall) (hnow : ∀ c ∈ calls, c.InRange) :
    ClockSafe (machine.outputs g calls) ↔
      ∀ pre now post, calls = pre ++ .next now :: post → ¬ (machine.after g pre).Exhausted := by
  constructor
  · rintro hsafe pre now post rfl hex
    have hval := (hsafe (machine.outputs g pre) _ _ machine.outputs_append).1
    have hnow := (hnow (.next now) (by simp)).2
    exact absurd hval (by rw [not_valid_next hex hnow]; decide)
  · intro hleg pre h post heq
    obtain ⟨cs, c, cs', rfl, rfl, hout⟩ := Machine.exists_of_outputs_eq heq
    have hlegal : machine.Legal CanAnswer g cs := by
      rintro p c' q rfl
      refine ⟨hnow c' (by simp), ?_⟩
      rintro ⟨now, rfl⟩
      exact hleg p now (q ++ c :: cs') (by simp)
    cases c with
    | observe remote => cases hout
    | next now =>
      cases hout
      have hex := hleg cs now cs' rfl
      have hin := (hnow (.next now) (by simp)).2
      refine ⟨valid_next hex hin, fun e he => precedes_next hex hin ?_⟩
      exact Machine.outputs_related (R := ClockEvent.Reached) (fun _ _ => reached_new)
        (fun _ c _ _ => reached_keep c) hlegal e he

/-- A wall clock that stands still, and an observed clock ahead of it, are no obstacle. -/
theorem clockSafe_stalled :
    let g : Generator := ⟨ascii "a1b2c3d4", 0, 0, by decide, by decide, by decide⟩
    ClockSafe (machine.outputs g
      [.next 5, .next 5, .observe (ascii "0000000000007-00ff-00000000"), .next 5]) := by
  refine (clockSafe_iff _ _ ?_).2 ?_
  · simp [ClockCall.InRange]
  · intro pre now post h
    have hlen := congrArg List.length h
    match pre with
    | [] => decide +kernel
    | [_] => cases h; decide +kernel
    | [_, _] => cases h
    | [_, _, _] => cases h; decide +kernel
    | _ :: _ :: _ :: _ :: _ => simp at hlen

/-- A new generator that observes the last clock of the format returns a clock that is not valid,
and that sorts below the one it observed. -/
theorem observed_last_clock_overflows : ¬ ∀ deviceID g calls, newGenerator deviceID = .ok g →
    (∀ c ∈ calls, ClockCall.InRange c) → ClockSafe (machine.outputs g calls) := by
  intro h
  have hsafe := h (ascii "a1b2c3d4") _
    [.observe (ascii "9999999999999-ffff-00000000"), .next 1760000000000] rfl
    (by simp [ClockCall.InRange])
  have hval := (hsafe [_] _ [] rfl).1
  revert hval
  decide +kernel

end Generator

end JitPack
