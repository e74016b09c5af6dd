import JitPack.Lib.Grouping
import JitPack.Lib.Neighbours
import JitPack.Client.HandOrder
import JitPack.Client.TaskDue

/-!
# The day plan

The plan shows the ideas that have a day, the plan's own entries and the dated lines of the packing side on the days of
the trip. Ideas without a day are in a pool, and what has a day that the trip does not have is listed outside. Every
entry stands in one of these places, and every idea from which no excursion was made (`entries_perm`, `ideas_perm`). An
idea from which one was made stands as the excursion's line alone, on the days that the excursion covers.

A day's lines are put in the order of their times, or of the places of the untimed meals, and then each excursion next
to its ways. Moving one excursion leaves the others next to theirs (`Between.step`), so at the end all are
(`between_betweenItsWays`), and what is not moved keeps its order.
-/

namespace JitPack

namespace DayPlan

open Neighbours (Next insertAt)

/-! ## What the plan reads -/

/-- `TripDates`. -/
structure TripDates where
  startDate : Option Day
  endDate : Option Day

/-- `Idea`, as far as the plan reads it. -/
structure Idea where
  id : String
  title : String
  note : Option String
  state : IdeaState
  plannedOn : Option Day
  plannedAt : Option String
  deriving DecidableEq

inductive ExcursionRole where
  | out
  | back
  deriving DecidableEq

/-- `DayEntry`, as far as the plan reads it. Of its legs, how many there are. -/
structure DayEntry where
  id : String
  onDate : Day
  atTime : Option String
  title : String
  note : Option String
  legs : ℕ
  excursionId : Option String
  excursionRole : Option ExcursionRole
  deriving DecidableEq

/-- `DayEntryTraveler`. -/
structure DayEntryTraveler where
  dayEntryId : String
  travelerId : String

/-- `Traveler`, as far as the plan reads it. -/
structure Traveler where
  id : String
  name : String

/-- `DayPlanLineKind`. -/
inductive DayPlanLineKind where
  | excursion
  | task
  | meal
  deriving DecidableEq

/-- `DayPlanLine`, as far as the plan reads it. -/
structure DayPlanLine where
  key : String
  kind : DayPlanLineKind
  title : String
  fromDay : Day
  toDay : Day
  detail : Option String
  progress : Option ℚ
  done : Option Bool
  refId : Option String
  ideaId : Option String
  entryId : Option String
  leadDays : Option ℤ
  time : Option String
  placeAt : Option String
  travelerIds : List String
  deriving DecidableEq

/-- `DayInput`. -/
structure DayInput where
  trip : TripDates
  ideas : List Idea
  entries : List DayEntry
  lines : List DayPlanLine
  travelers : List Traveler
  entryTravelers : List DayEntryTraveler
  idea_unique : (ideas.map (·.id)).Nodup
  entry_unique : (entries.map (·.id)).Nodup
  /-- Keys are unique across every source. -/
  key_unique : (lines.map (·.key)).Nodup
  /-- An excursion has one line. -/
  ref_unique : ((lines.filter (·.kind = .excursion)).filterMap (·.refId)).Nodup

/-! ## Lines -/

/-- `DayLineKind`. -/
inductive DayLineKind where
  | arrival
  | departure
  | excursion
  | idea
  | task
  | entry
  | connection
  | meal
  deriving DecidableEq

/-- `DaySpan`, where it is not null. -/
inductive DaySpan where
  | start
  | return
  deriving DecidableEq

/-- The keys of lines. No key of a source is one of the plan's own. -/
inductive LineKey where
  | fixed (kind : DayLineKind) (day : Day)
  | source (key : String)
  | idea (id : String)
  | entry (id : String)
  deriving DecidableEq

/-- `DayLine`. -/
structure DayLine where
  key : LineKey
  kind : DayLineKind
  time : Option String
  placeAt : Option String
  title : String
  detail : Option String
  span : Option DaySpan
  done : Option Bool
  progress : Option ℚ
  idea : Option Idea
  entry : Option DayEntry
  source : Option DayPlanLine
  origin : Option Idea
  stepOf : Option (DayEntry × Option ℤ)
  excursion : Option DayPlanLine
  who : Option (List String)
  forIds : Option (List String)
  deriving DecidableEq

/-- `KIND_OF_SOURCE`. -/
def kindOfSource : DayPlanLineKind → DayLineKind
  | .excursion => .excursion
  | .task => .task
  | .meal => .meal

/-- `isPlanTime`. -/
def isPlanTime (value : String) : Bool :=
  match value.toList with
  | [a, b, ':', c, d] =>
    ((a = '0' || a = '1') && b.isDigit || a = '2' && '0' ≤ b && b ≤ '3') && '0' ≤ c && c ≤ '5' && d.isDigit
  | _ => false

/-- A time that the plan can order by. -/
def planTime (value : Option String) : Option String := value.filter isPlanTime

/-! ## Days -/

/-- `daysOf`, up to a number of days. -/
def daysOf (start stop : Day) : ℕ → List Day
  | 0 => []
  | n + 1 =>
    if start.number ≤ stop.number then start :: (start.next.map fun day => daysOf day stop n).getD [] else []

/-- `tripDays`, with `MAX_PLAN_DAYS`. -/
def tripDays (trip : TripDates) : List Day :=
  match trip.startDate, trip.endDate with
  | some start, some stop => daysOf start stop 120
  | _, _ => []

/-! ## Places outside the days -/

/-- `onThePlan`. -/
def onThePlan (idea : Idea) : Bool := idea.state = .shortlisted || idea.state = .done

/-- `ideasWithExcursion`. -/
def ideasWithExcursion (lines : List DayPlanLine) : List String :=
  (lines.filter (·.kind = .excursion)).filterMap (·.ideaId)

/-- `unplannedIdeas`. -/
def unplannedIdeas (ideas : List Idea) (without : List String) : List Idea :=
  ideas.filter fun idea => idea.state = .shortlisted && idea.plannedOn = none && idea.id ∉ without

/-- `ideasOutsideTrip`. -/
def ideasOutsideTrip (ideas : List Idea) (days : List Day) (without : List String) : List Idea :=
  ideas.filter fun idea => onThePlan idea && idea.plannedOn.any (· ∉ days) && idea.id ∉ without

/-- The rank of a time in `compareTime`: none comes last. -/
def timeRank (time : Option String) : WithTop String := time.elim ⊤ WithTop.some

/-- `entriesOutsideTrip`. -/
def entriesOutsideTrip (entries : List DayEntry) (days : List Day) : List DayEntry :=
  Ranked.byRank (fun entry => toLex (entry.onDate.number, timeRank entry.atTime)) (entries.filter (·.onDate ∉ days))

/-! ## A day -/

/-- `forOf`. -/
def forOf (ids : List String) (travelers : List Traveler) : Option (List String) :=
  let named := travelers.filter (·.id ∈ ids)
  if named.length = 0 ∨ named.length = travelers.length then none else some (named.map (·.id))

/-- `whoOf`. -/
def whoOf (ids : List String) (travelers : List Traveler) : Option (List String) :=
  (forOf ids travelers).map fun named => (travelers.filter (·.id ∈ named)).map (·.name)

/-- `fixed`. -/
def fixed (kind : DayLineKind) (day : Day) : DayLine where
  key := .fixed kind day
  kind := kind
  time := none
  placeAt := none
  title := ""
  detail := none
  span := none
  done := none
  progress := none
  idea := none
  entry := none
  source := none
  origin := none
  stepOf := none
  excursion := none
  who := none
  forIds := none

section
variable (day : Day) (input : DayInput)

/-- Whether a line of the packing side stands on the day. -/
def covers (source : DayPlanLine) : Bool := source.fromDay.number ≤ day.number && day.number ≤ source.toDay.number

/-- The line of one of the packing side's. -/
def sourceLine (source : DayPlanLine) : DayLine :=
  let origin := source.ideaId.bind (Keyed.last Idea.id input.ideas)
  { key := .source source.key
    kind := kindOfSource source.kind
    time := (planTime source.time).or ((origin.filter (·.plannedOn = some day)).bind (planTime ·.plannedAt))
    placeAt := planTime source.placeAt
    title := source.title
    detail := source.detail
    span := if source.fromDay = source.toDay then none
      else if day = source.fromDay then some .start else if day = source.toDay then some .return else none
    done := source.done
    progress := source.progress
    idea := none
    entry := none
    source := some source
    origin := origin
    stepOf := (source.entryId.bind (Keyed.last DayEntry.id input.entries)).map (·, source.leadDays)
    excursion := none
    who := whoOf source.travelerIds input.travelers
    forIds := forOf source.travelerIds input.travelers }

/-- The line of an idea. -/
def ideaLine (idea : Idea) : DayLine where
  key := .idea idea.id
  kind := .idea
  time := planTime idea.plannedAt
  placeAt := none
  title := idea.title
  detail := idea.note
  span := none
  done := some (idea.state = .done)
  progress := none
  idea := some idea
  entry := none
  source := none
  origin := none
  stepOf := none
  excursion := none
  who := none
  forIds := none

/-- The line of an entry. -/
def entryLine (entry : DayEntry) : DayLine :=
  let named := (input.entryTravelers.filter (·.dayEntryId = entry.id)).map (·.travelerId)
  let way := entry.excursionId.bind (Keyed.last DayPlanLine.refId (input.lines.filter (·.refId ≠ none)) ·)
  { key := .entry entry.id
    kind := if entry.legs > 0 then .connection else .entry
    time := planTime entry.atTime
    placeAt := none
    title := entry.title
    detail := entry.note
    span := none
    done := none
    progress := none
    idea := none
    entry := some entry
    source := none
    origin := none
    stepOf := none
    excursion := way
    who := whoOf named input.travelers
    forIds := forOf ((way.map (·.travelerIds)).getD named) input.travelers }

/-- The lines of a day before they are put in order. -/
def standing : List DayLine :=
  (if input.trip.startDate = some day then [fixed .arrival day] else []) ++
    (if input.trip.endDate = some day then [fixed .departure day] else []) ++
    (input.lines.filter (covers day)).map (sourceLine day input) ++
    (input.ideas.filter fun idea => onThePlan idea && idea.plannedOn = some day &&
      idea.id ∉ ideasWithExcursion input.lines).map ideaLine ++
    (input.entries.filter (·.onDate = day)).map (entryLine input)

/-- `orderTime`. -/
def orderTime (line : DayLine) : WithTop String := timeRank (line.time.or line.placeAt)

/-- `way`, in `betweenItsWays`. -/
def wayOf (lines : List DayLine) (refId : String) (role : ExcursionRole) : Option DayLine :=
  lines.find? fun line => line.entry.any fun entry => entry.excursionId = some refId && entry.excursionRole = some role

/-- One excursion, in `betweenItsWays`. Lines are found again by their keys. -/
def besideItsWay (placed : List DayLine) (excursion : DayLine) : List DayLine :=
  match excursion.source.bind (·.refId) with
  | none => placed
  | some refId =>
    let rest := placed.filter (·.key ≠ excursion.key)
    match wayOf placed refId .out, wayOf placed refId .back with
    | some out, _ => insertAt rest (rest.findIdx (·.key = out.key) + 1) excursion
    | none, some back => insertAt rest (rest.findIdx (·.key = back.key)) excursion
    | none, none => placed

/-- `betweenItsWays`. -/
def betweenItsWays (lines : List DayLine) : List DayLine :=
  (lines.filter (·.kind = .excursion)).foldl besideItsWay lines

/-- `dayLines`. -/
def dayLines : List DayLine := betweenItsWays (Ranked.byRank orderTime (standing day input))

end

/-! ## Moving the excursions -/

section
variable {lines placed done : List DayLine} {line x y : DayLine} {refId : String} {role : ExcursionRole}

/-- What is known of the lines of a day. -/
structure Lines (lines : List DayLine) : Prop where
  distinct : (lines.map (·.key)).Nodup
  /-- An excursion is no way. -/
  noEntry : ∀ x ∈ lines, x.kind = .excursion → x.entry = none
  /-- An excursion has one line. -/
  one : ∀ x ∈ lines, ∀ y ∈ lines, x.kind = .excursion → y.kind = .excursion →
    ∀ refId, x.source.bind (·.refId) = some refId → y.source.bind (·.refId) = some refId → x = y

theorem Lines.perm (h : Lines lines) (hp : placed.Perm lines) : Lines placed where
  distinct := (hp.map _).nodup_iff.2 h.distinct
  noEntry := fun x hx => h.noEntry x (hp.mem_iff.1 hx)
  one := fun x hx y hy => h.one x (hp.mem_iff.1 hx) y (hp.mem_iff.1 hy)

theorem wayOf_spec (h : wayOf lines refId role = some x) :
    x ∈ lines ∧ ∃ entry, x.entry = some entry ∧ entry.excursionId = some refId := by
  have hway := List.find?_some h
  rw [Option.any_eq_true_iff_get] at hway
  obtain ⟨hsome, hway⟩ := hway
  refine ⟨List.mem_of_find?_eq_some h, x.entry.get hsome, (Option.some_get hsome).symm, ?_⟩
  exact of_decide_eq_true (Bool.and_eq_true_iff.1 hway).1

/-- Whether an excursion has a way among the lines, beside which it is moved. -/
def moves (lines : List DayLine) (line : DayLine) : Bool :=
  line.kind = .excursion && (line.source.bind (·.refId)).any fun refId =>
    (wayOf lines refId .out).isSome || (wayOf lines refId .back).isSome

/-- An excursion stands beside its way. -/
def Beside (lines placed : List DayLine) (line : DayLine) : Prop :=
  ∀ refId, line.source.bind (·.refId) = some refId →
    match wayOf lines refId .out, wayOf lines refId .back with
    | some out, _ => Next placed out line
    | none, some back => Next placed line back
    | none, none => True

/-- What holds while the excursions are moved. -/
structure Between (lines done placed : List DayLine) : Prop where
  perm : placed.Perm lines
  kept : placed.filter (!moves lines ·) = lines.filter (!moves lines ·)
  beside : ∀ line ∈ done, Beside lines placed line

/-- The ways are not moved. -/
theorem wayOf_eq (h : Lines lines) (hp : placed.Perm lines)
    (hkept : placed.filter (!moves lines ·) = lines.filter (!moves lines ·)) (refId : String) (role : ExcursionRole) :
    wayOf placed refId role = wayOf lines refId role := by
  have hseen : ∀ l : List DayLine, (∀ x ∈ l, x ∈ lines) →
      wayOf l refId role = wayOf (l.filter (!moves lines ·)) refId role := by
    intro l hl
    unfold wayOf
    rw [List.find?_filter]
    refine List.find?_congr fun x hx => ?_
    cases hway : x.entry.any fun entry => entry.excursionId = some refId && entry.excursionRole = some role with
    | false => simp
    | true =>
      have hstays : moves lines x = false := by
        unfold moves
        by_cases hkind : x.kind = .excursion
        · rw [h.noEntry x (hl x hx) hkind] at hway
          cases hway
        · simp [hkind]
      rw [hstays]
      rfl
  rw [hseen placed fun x hx => hp.mem_iff.1 hx, hkept, ← hseen lines fun x hx => hx]

/-- A way is a way of one excursion. -/
theorem wayOf_ne (h : Lines lines) (hx : x ∈ lines) (hy : y ∈ lines) (hxkind : x.kind = .excursion)
    (hykind : y.kind = .excursion) (hne : y.key ≠ x.key) {ref ref' : String} {role role' : ExcursionRole}
    {way way' : DayLine} (hxref : x.source.bind (·.refId) = some ref) (hyref : y.source.bind (·.refId) = some ref')
    (hway : wayOf lines ref role = some way) (hway' : wayOf lines ref' role' = some way') : way' ≠ way := by
  rintro rfl
  obtain ⟨-, entry, hentry, hid⟩ := wayOf_spec hway
  obtain ⟨-, entry', hentry', hid'⟩ := wayOf_spec hway'
  rw [hentry] at hentry'
  cases hentry'
  rw [hid] at hid'
  cases hid'
  exact hne (congrArg _ (h.one y hy x hx hykind hxkind _ hyref hxref))

/-- An excursion is moved beside its way, and the others stay beside theirs. -/
theorem Between.step (h : Lines lines) (hbetween : Between lines done placed) (hx : x ∈ lines)
    (hkind : x.kind = .excursion) (hdone : ∀ y ∈ done, y ∈ lines ∧ y.kind = .excursion ∧ y.key ≠ x.key) :
    Between lines (done ++ [x]) (besideItsWay placed x) := by
  have hway := wayOf_eq h hbetween.perm hbetween.kept
  cases href : x.source.bind (·.refId) with
  | none =>
    have hsame : besideItsWay placed x = placed := by rw [besideItsWay, href]
    rw [hsame]
    refine ⟨hbetween.perm, hbetween.kept, fun y hy => ?_⟩
    rcases List.mem_append.1 hy with hy | hy
    · exact hbetween.beside y hy
    · rw [List.mem_singleton.1 hy]
      intro refId hid
      cases href.symm.trans hid
  | some ref =>
    have hrest : placed.Perm (x :: placed.filter (·.key ≠ x.key)) :=
      HandOrder.perm_cons_without (h.perm hbetween.perm).distinct (hbetween.perm.mem_iff.2 hx) rfl
    have hnodup : ((placed.filter (·.key ≠ x.key)).map (·.key)).Nodup :=
      (List.filter_sublist.map _).nodup (h.perm hbetween.perm).distinct
    -- a way is left when the excursion is taken out
    have hleft : ∀ {ref role way}, wayOf lines ref role = some way → way ∈ placed.filter (·.key ≠ x.key) ∧
        way.key ≠ x.key := by
      intro ref role way hwayOf
      obtain ⟨hmem, entry, hentry, -⟩ := wayOf_spec hwayOf
      have hne : way.key ≠ x.key := by
        intro hkey
        rw [Keyed.eq_of_key h.distinct hmem hx hkey, h.noEntry x hx hkind] at hentry
        cases hentry
      exact ⟨List.mem_filter.2 ⟨hbetween.perm.mem_iff.2 hmem, decide_eq_true hne⟩, hne⟩
    -- the excursions that were moved before are left beside their ways
    have hothers : ∀ y ∈ done, Beside lines (placed.filter (·.key ≠ x.key)) y := by
      intro y hy refId hid
      have hbeside := hbetween.beside y hy refId hid
      obtain ⟨-, -, hne⟩ := hdone y hy
      cases hout : wayOf lines refId .out with
      | some out =>
        rw [hout] at hbeside
        exact hbeside.filter (decide_eq_true (hleft hout).2) (decide_eq_true hne)
      | none =>
        cases hback : wayOf lines refId .back with
        | some back =>
          rw [hout, hback] at hbeside
          exact hbeside.filter (decide_eq_true hne) (decide_eq_true (hleft hback).2)
        | none => trivial
    have hkeep : moves lines x = true → ∀ n, (insertAt (placed.filter (·.key ≠ x.key)) n x).Perm lines ∧
        (insertAt (placed.filter (·.key ≠ x.key)) n x).filter (!moves lines ·) = lines.filter (!moves lines ·) := by
      intro hmoves n
      refine ⟨(Neighbours.insertAt_perm _ _ _).trans (hrest.symm.trans hbetween.perm), ?_⟩
      rw [Neighbours.filter_insertAt (by rw [hmoves]; rfl), List.filter_filter, ← hbetween.kept]
      refine List.filter_congr fun z hz => ?_
      by_cases hkey : z.key = x.key
      · rw [Keyed.eq_of_key h.distinct (hbetween.perm.mem_iff.1 hz) hx hkey]
        simp [hmoves]
      · simp [hkey]
    cases hout : wayOf lines ref .out with
    | some out =>
      obtain ⟨hmem, hne⟩ := hleft hout
      have hmoves : moves lines x = true := by simp [moves, hkind, href, hout]
      have hplaced : besideItsWay placed x = insertAt (placed.filter (·.key ≠ x.key))
          ((placed.filter (·.key ≠ x.key)).findIdx (·.key = out.key) + 1) x := by
        rw [besideItsWay, href]
        dsimp only
        rw [hway, hway, hout]
      rw [hplaced]
      refine ⟨(hkeep hmoves _).1, (hkeep hmoves _).2, fun y hy => ?_⟩
      obtain ⟨pre, post, hsplit⟩ := List.append_of_mem hmem
      rw [hsplit] at hnodup hothers ⊢
      rw [Neighbours.insertAt_after hnodup]
      rcases List.mem_append.1 hy with hy | hy
      · obtain ⟨hymem, hykind, hykey⟩ := hdone y hy
        intro refId hid
        have hbeside := hothers y hy refId hid
        cases hout' : wayOf lines refId .out with
        | some out' =>
          rw [hout'] at hbeside
          exact hbeside.after (wayOf_ne h hx hymem hkind hykind hykey href hid hout hout') x
        | none =>
          cases hback' : wayOf lines refId .back with
          | some back' =>
            rw [hout', hback'] at hbeside
            refine hbeside.after ?_ x
            rintro rfl
            obtain ⟨-, entry, hentry, -⟩ := wayOf_spec hout
            rw [h.noEntry _ hymem hykind] at hentry
            cases hentry
          | none => trivial
      · rw [List.mem_singleton.1 hy]
        intro refId hid
        obtain rfl : ref = refId := Option.some_inj.1 (href.symm.trans hid)
        rw [hout]
        exact Neighbours.next_after
    | none =>
      cases hback : wayOf lines ref .back with
      | some back =>
        obtain ⟨hmem, hne⟩ := hleft hback
        have hmoves : moves lines x = true := by simp [moves, hkind, href, hback]
        have hplaced : besideItsWay placed x = insertAt (placed.filter (·.key ≠ x.key))
            ((placed.filter (·.key ≠ x.key)).findIdx (·.key = back.key)) x := by
          rw [besideItsWay, href]
          dsimp only
          rw [hway, hway, hout, hback]
        rw [hplaced]
        refine ⟨(hkeep hmoves _).1, (hkeep hmoves _).2, fun y hy => ?_⟩
        obtain ⟨pre, post, hsplit⟩ := List.append_of_mem hmem
        rw [hsplit] at hnodup hothers ⊢
        rw [Neighbours.insertAt_before hnodup]
        rcases List.mem_append.1 hy with hy | hy
        · obtain ⟨hymem, hykind, hykey⟩ := hdone y hy
          intro refId hid
          have hbeside := hothers y hy refId hid
          cases hout' : wayOf lines refId .out with
          | some out' =>
            rw [hout'] at hbeside
            refine hbeside.before ?_ x
            rintro rfl
            obtain ⟨-, entry, hentry, -⟩ := wayOf_spec hback
            rw [h.noEntry _ hymem hykind] at hentry
            cases hentry
          | none =>
            cases hback' : wayOf lines refId .back with
            | some back' =>
              rw [hout', hback'] at hbeside
              exact hbeside.before (wayOf_ne h hx hymem hkind hykind hykey href hid hback hback') x
            | none => trivial
        · rw [List.mem_singleton.1 hy]
          intro refId hid
          obtain rfl : ref = refId := Option.some_inj.1 (href.symm.trans hid)
          rw [hout, hback]
          exact Neighbours.next_after
      | none =>
        have hsame : besideItsWay placed x = placed := by
          rw [besideItsWay, href]
          dsimp only
          rw [hway, hway, hout, hback]
        rw [hsame]
        refine ⟨hbetween.perm, hbetween.kept, fun y hy => ?_⟩
        rcases List.mem_append.1 hy with hy | hy
        · exact hbetween.beside y hy
        · rw [List.mem_singleton.1 hy]
          intro refId hid
          obtain rfl : ref = refId := Option.some_inj.1 (href.symm.trans hid)
          rw [hout, hback]
          trivial

theorem between_foldl (h : Lines lines) (excursions : List DayLine)
    (hexcursions : ∀ x ∈ excursions, x ∈ lines ∧ x.kind = .excursion) (hkeys : (excursions.map (·.key)).Nodup) :
    Between lines excursions (excursions.foldl besideItsWay lines) := by
  induction excursions using List.reverseRecOn with
  | nil => exact ⟨.refl _, rfl, fun _ h => nomatch h⟩
  | append_singleton excursions x ih =>
    rw [List.map_append, List.nodup_append] at hkeys
    rw [List.foldl_append]
    obtain ⟨hx, hkind⟩ := hexcursions x (by simp)
    refine (ih (fun y hy => hexcursions y (List.mem_append_left _ hy)) hkeys.1).step h hx hkind fun y hy => ?_
    obtain ⟨hy', hykind⟩ := hexcursions y (List.mem_append_left _ hy)
    exact ⟨hy', hykind, hkeys.2.2 _ (List.mem_map_of_mem hy) _ (by simp)⟩

/-- **Every excursion ends beside its way, and the other lines are as they were.** -/
theorem between_betweenItsWays (h : Lines lines) :
    Between lines (lines.filter (·.kind = .excursion)) (betweenItsWays lines) :=
  between_foldl h _ (fun _ hx => ⟨(List.mem_filter.1 hx).1, of_decide_eq_true (List.mem_filter.1 hx).2⟩)
    ((List.filter_sublist.map _).nodup h.distinct)

end

/-! ## The days of a trip -/

section
variable {start stop day : Day} {n : ℕ}

theorem number_le_of_mem_daysOf (h : day ∈ daysOf start stop n) : start.number ≤ day.number := by
  induction n generalizing start with
  | zero => cases h
  | succ n ih =>
    rw [daysOf] at h
    split at h
    · rcases List.mem_cons.1 h with rfl | h
      · exact le_rfl
      · cases hnext : start.next with
        | none => rw [hnext] at h; cases h
        | some next =>
          rw [hnext] at h
          have hle := ih h
          have hsucc := Day.number_next hnext
          omega
    · cases h

theorem nodup_daysOf : (daysOf start stop n).Nodup := by
  induction n generalizing start with
  | zero => exact .nil
  | succ n ih =>
    rw [daysOf]
    split
    · cases hnext : start.next with
      | none => simp
      | some next =>
        refine List.nodup_cons.2 ⟨fun hin => ?_, ih⟩
        have hle := number_le_of_mem_daysOf hin
        have hsucc := Day.number_next hnext
        omega
    · exact .nil

theorem nodup_tripDays (trip : TripDates) : (tripDays trip).Nodup := by
  unfold tripDays
  split
  · exact nodup_daysOf
  · exact .nil

end

/-! ## The lines of a day -/

section
variable {day : Day} {input : DayInput} {x : DayLine} {source : DayPlanLine} {idea : Idea}

theorem mem_standing : x ∈ standing day input ↔
    (input.trip.startDate = some day ∧ x = fixed .arrival day ∨
        input.trip.endDate = some day ∧ x = fixed .departure day) ∨
      (∃ source ∈ input.lines, covers day source ∧ sourceLine day input source = x) ∨
      (∃ idea ∈ input.ideas, (onThePlan idea && idea.plannedOn = some day &&
        idea.id ∉ ideasWithExcursion input.lines) ∧ ideaLine idea = x) ∨
      ∃ entry ∈ input.entries, entry.onDate = day ∧ entryLine input entry = x := by
  unfold standing
  simp only [List.mem_append, List.mem_map, List.mem_filter, List.mem_ite_nil_right, List.mem_singleton,
    decide_eq_true_eq, and_assoc, or_assoc]

theorem excursion_of_mem (h : x ∈ standing day input) (hkind : x.kind = .excursion) :
    ∃ source ∈ input.lines, source.kind = .excursion ∧ sourceLine day input source = x := by
  rcases mem_standing.1 h with
    (⟨-, rfl⟩ | ⟨-, rfl⟩) | ⟨source, hsource, -, rfl⟩ | ⟨idea, -, -, rfl⟩ | ⟨entry, -, -, rfl⟩
  · cases hkind
  · cases hkind
  · refine ⟨source, hsource, ?_, rfl⟩
    have hof : kindOfSource source.kind = .excursion := hkind
    cases hsourceKind : source.kind with
    | excursion => rfl
    | task => rw [hsourceKind] at hof; cases hof
    | meal => rw [hsourceKind] at hof; cases hof
  · cases hkind
  · unfold entryLine at hkind
    dsimp only at hkind
    split at hkind <;> cases hkind

theorem nodup_standing (day : Day) (input : DayInput) : ((standing day input).map (·.key)).Nodup := by
  have hsources : (((input.lines.filter (covers day)).map (sourceLine day input)).map (·.key)).Nodup := by
    have h : ((input.lines.filter (covers day)).map (·.key)).Nodup :=
      (List.filter_sublist.map _).nodup input.key_unique
    rw [List.map_map]
    have h' := h.map (f := LineKey.source) fun _ _ h => LineKey.source.inj h
    rwa [List.map_map] at h'
  have hideas : (((input.ideas.filter fun idea => onThePlan idea && idea.plannedOn = some day &&
      idea.id ∉ ideasWithExcursion input.lines).map ideaLine).map (·.key)).Nodup := by
    have h : ((input.ideas.filter fun idea => onThePlan idea && idea.plannedOn = some day &&
      idea.id ∉ ideasWithExcursion input.lines).map (·.id)).Nodup := (List.filter_sublist.map _).nodup input.idea_unique
    rw [List.map_map]
    have h' := h.map (f := LineKey.idea) fun _ _ h => LineKey.idea.inj h
    rwa [List.map_map] at h'
  have hentries : (((input.entries.filter (·.onDate = day)).map (entryLine input)).map (·.key)).Nodup := by
    have h : ((input.entries.filter (·.onDate = day)).map (·.id)).Nodup :=
      (List.filter_sublist.map _).nodup input.entry_unique
    rw [List.map_map]
    have h' := h.map (f := LineKey.entry) fun _ _ h => LineKey.entry.inj h
    rwa [List.map_map] at h'
  have hfixed : (((if input.trip.startDate = some day then [fixed .arrival day] else []) ++
      (if input.trip.endDate = some day then [fixed .departure day] else [])).map (·.key)).Nodup := by
    split <;> split <;> simp [fixed]
  have hfixedKey : ∀ key ∈ ((if input.trip.startDate = some day then [fixed .arrival day] else []) ++
      (if input.trip.endDate = some day then [fixed .departure day] else [])).map (·.key),
        ∃ kind, key = .fixed kind day := by
    intro key hkey
    split at hkey <;> split at hkey <;> simp [fixed] at hkey <;> grind
  unfold standing
  rw [List.map_append, List.map_append, List.map_append]
  refine List.nodup_append.2
    ⟨List.nodup_append.2 ⟨List.nodup_append.2 ⟨hfixed, hsources, ?_⟩, hideas, ?_⟩, hentries, ?_⟩
  · intro key hkey key' hkey' heq
    obtain ⟨kind, rfl⟩ := hfixedKey key hkey
    obtain ⟨line, hline, rfl⟩ := List.mem_map.1 hkey'
    obtain ⟨source, -, rfl⟩ := List.mem_map.1 hline
    cases heq
  · intro key hkey key' hkey' heq
    obtain ⟨line, hline, rfl⟩ := List.mem_map.1 hkey'
    obtain ⟨idea, -, rfl⟩ := List.mem_map.1 hline
    rcases List.mem_append.1 hkey with hkey | hkey
    · obtain ⟨kind, rfl⟩ := hfixedKey key hkey
      cases heq
    · obtain ⟨line, hline, rfl⟩ := List.mem_map.1 hkey
      obtain ⟨source, -, rfl⟩ := List.mem_map.1 hline
      cases heq
  · intro key hkey key' hkey' heq
    obtain ⟨line, hline, rfl⟩ := List.mem_map.1 hkey'
    obtain ⟨entry, -, rfl⟩ := List.mem_map.1 hline
    rcases List.mem_append.1 hkey with hkey | hkey
    · rcases List.mem_append.1 hkey with hkey | hkey
      · obtain ⟨kind, rfl⟩ := hfixedKey key hkey
        cases heq
      · obtain ⟨line, hline, rfl⟩ := List.mem_map.1 hkey
        obtain ⟨source, -, rfl⟩ := List.mem_map.1 hline
        cases heq
    · obtain ⟨line, hline, rfl⟩ := List.mem_map.1 hkey
      obtain ⟨idea, -, rfl⟩ := List.mem_map.1 hline
      cases heq

/-- The source of an excursion is told by its row. -/
theorem eq_of_refId {lines : List DayPlanLine} (h : ((lines.filter (·.kind = .excursion)).filterMap (·.refId)).Nodup)
    {a b : DayPlanLine} (ha : a ∈ lines) (hb : b ∈ lines) (hakind : a.kind = .excursion) (hbkind : b.kind = .excursion)
    {refId : String} (haref : a.refId = some refId) (hbref : b.refId = some refId) : a = b := by
  have ha : a ∈ lines.filter (·.kind = .excursion) := List.mem_filter.2 ⟨ha, decide_eq_true hakind⟩
  have hb : b ∈ lines.filter (·.kind = .excursion) := List.mem_filter.2 ⟨hb, decide_eq_true hbkind⟩
  generalize lines.filter (·.kind = .excursion) = excursions at *
  induction excursions with
  | nil => cases ha
  | cons c rest ih =>
    have hnot : ∀ {d : DayPlanLine}, d ∈ rest → d.refId = some refId → c.refId ≠ some refId := by
      intro d hd hdref hcref
      rw [List.filterMap_cons, hcref] at h
      exact (List.nodup_cons.1 h).1 (List.mem_filterMap.2 ⟨d, hd, hdref⟩)
    have hrest : (rest.filterMap (·.refId)).Nodup :=
      ((List.sublist_cons_self c rest).filterMap _).nodup h
    rcases List.mem_cons.1 ha with rfl | ha'
    · rcases List.mem_cons.1 hb with rfl | hb'
      · rfl
      · exact absurd haref (hnot hb' hbref)
    · rcases List.mem_cons.1 hb with rfl | hb'
      · exact absurd hbref (hnot ha' haref)
      · exact ih hrest ha' hb'

theorem lines_standing (day : Day) (input : DayInput) : Lines (standing day input) where
  distinct := nodup_standing day input
  noEntry := by
    intro x hx hkind
    obtain ⟨source, -, -, rfl⟩ := excursion_of_mem hx hkind
    rfl
  one := by
    intro x hx y hy hxkind hykind refId hxref hyref
    obtain ⟨source, hsource, hkind, rfl⟩ := excursion_of_mem hx hxkind
    obtain ⟨source', hsource', hkind', rfl⟩ := excursion_of_mem hy hykind
    rw [eq_of_refId input.ref_unique hsource hsource' hkind hkind' hxref hyref]

theorem lines_ordered (day : Day) (input : DayInput) : Lines (Ranked.byRank orderTime (standing day input)) :=
  (lines_standing day input).perm (Ranked.byRank_perm _ _)

theorem between_dayLines (day : Day) (input : DayInput) :
    Between (Ranked.byRank orderTime (standing day input))
      ((Ranked.byRank orderTime (standing day input)).filter (·.kind = .excursion)) (dayLines day input) :=
  between_betweenItsWays (lines_ordered day input)

/-- **A day's lines are those that stand on it**, each once. -/
theorem dayLines_perm (day : Day) (input : DayInput) : (dayLines day input).Perm (standing day input) :=
  (between_dayLines day input).perm.trans (Ranked.byRank_perm _ _)

theorem wayOf_dayLines (refId : String) (role : ExcursionRole) : wayOf (dayLines day input) refId role =
    wayOf (Ranked.byRank orderTime (standing day input)) refId role :=
  wayOf_eq (lines_ordered day input) (between_dayLines day input).perm (between_dayLines day input).kept refId role

theorem moves_dayLines : moves (dayLines day input) x = moves (Ranked.byRank orderTime (standing day input)) x := by
  simp only [moves, wayOf_dayLines]

/-! ## Nothing is lost -/

theorem filterMap_entry (day : Day) (input : DayInput) :
    ((dayLines day input).filterMap (·.entry)).Perm (input.entries.filter (·.onDate = day)) := by
  refine ((dayLines_perm day input).filterMap _).trans ?_
  have hfixed : ((if input.trip.startDate = some day then [fixed .arrival day] else []) ++
      (if input.trip.endDate = some day then [fixed .departure day] else [])).filterMap (·.entry) = [] := by
    split <;> split <;> rfl
  have hsources : ((input.lines.filter (covers day)).map (sourceLine day input)).filterMap (·.entry) = [] := by
    rw [List.filterMap_map]
    exact List.filterMap_eq_nil_iff.2 fun _ _ => rfl
  have hideas : ∀ ideas : List Idea, (ideas.map ideaLine).filterMap (·.entry) = [] := by
    intro ideas
    rw [List.filterMap_map]
    exact List.filterMap_eq_nil_iff.2 fun _ _ => rfl
  have hentries : ∀ entries : List DayEntry, (entries.map (entryLine input)).filterMap (·.entry) = entries := by
    intro entries
    rw [List.filterMap_map]
    exact List.filterMap_some
  unfold standing
  rw [List.filterMap_append, List.filterMap_append, List.filterMap_append, hfixed, hsources, hideas, hentries]
  exact .refl _

theorem filterMap_idea (day : Day) (input : DayInput) : ((dayLines day input).filterMap (·.idea)).Perm
    (input.ideas.filter fun idea => onThePlan idea && idea.plannedOn = some day &&
      idea.id ∉ ideasWithExcursion input.lines) := by
  refine ((dayLines_perm day input).filterMap _).trans ?_
  have hfixed : ((if input.trip.startDate = some day then [fixed .arrival day] else []) ++
      (if input.trip.endDate = some day then [fixed .departure day] else [])).filterMap (·.idea) = [] := by
    split <;> split <;> rfl
  have hsources : ((input.lines.filter (covers day)).map (sourceLine day input)).filterMap (·.idea) = [] := by
    rw [List.filterMap_map]
    exact List.filterMap_eq_nil_iff.2 fun _ _ => rfl
  have hideas : ∀ ideas : List Idea, (ideas.map ideaLine).filterMap (·.idea) = ideas := by
    intro ideas
    rw [List.filterMap_map]
    exact List.filterMap_some
  have hentries : ∀ entries : List DayEntry, (entries.map (entryLine input)).filterMap (·.idea) = [] := by
    intro entries
    rw [List.filterMap_map]
    exact List.filterMap_eq_nil_iff.2 fun _ _ => rfl
  unfold standing
  rw [List.filterMap_append, List.filterMap_append, List.filterMap_append, hfixed, hsources, hideas, hentries,
    List.append_nil]
  exact .refl _

/-- **Every entry stands on its day or outside.** -/
theorem entries_perm (input : DayInput) :
    (((tripDays input.trip).flatMap fun day => (dayLines day input).filterMap (·.entry)) ++
      entriesOutsideTrip input.entries (tripDays input.trip)).Perm input.entries := by
  have hdays : ((tripDays input.trip).flatMap fun day => (dayLines day input).filterMap (·.entry)).Perm
      (input.entries.filter (·.onDate ∈ tripDays input.trip)) :=
    (List.Perm.flatMap_left _ fun day _ => filterMap_entry day input).trans
      (Grouping.flatMap_filter_perm_filter (·.onDate) input.entries (nodup_tripDays _))
  have houtside : (entriesOutsideTrip input.entries (tripDays input.trip)).Perm
      (input.entries.filter fun entry => !decide (entry.onDate ∈ tripDays input.trip)) := by
    refine (Ranked.byRank_perm _ _).trans ?_
    simp
  exact (hdays.append houtside).trans (List.filter_append_perm _ _)

/-- An idea that has a place: it is on the plan for a day, or on the shortlist without one. -/
def hasPlace (idea : Idea) : Bool :=
  onThePlan idea && idea.plannedOn.isSome || idea.state = .shortlisted && idea.plannedOn = none

/-- **Every idea without an excursion stands on its day, in the pool or outside.** -/
theorem ideas_perm (input : DayInput) :
    (((tripDays input.trip).flatMap fun day => (dayLines day input).filterMap (·.idea)) ++
      unplannedIdeas input.ideas (ideasWithExcursion input.lines) ++
      ideasOutsideTrip input.ideas (tripDays input.trip) (ideasWithExcursion input.lines)).Perm
      (input.ideas.filter fun idea => hasPlace idea && idea.id ∉ ideasWithExcursion input.lines) := by
  generalize hwithout : ideasWithExcursion input.lines = without
  have hkeys : ((tripDays input.trip).map some).Nodup :=
    (nodup_tripDays _).map fun _ _ h => Option.some_inj.1 h
  have hdays : ((tripDays input.trip).flatMap fun day => (dayLines day input).filterMap (·.idea)).Perm
      ((input.ideas.filter fun idea => hasPlace idea && idea.id ∉ without).filter
        (·.plannedOn ∈ (tripDays input.trip).map some)) := by
    refine List.Perm.trans ?_ ((Grouping.flatMap_filter_perm_filter Idea.plannedOn
      (input.ideas.filter fun idea => hasPlace idea && idea.id ∉ without) hkeys).trans
        (List.Perm.of_eq (List.filter_congr fun _ _ => decide_eq_decide.2 Iff.rfl)))
    rw [List.flatMap_map]
    refine List.Perm.flatMap_left _ fun day _ => (filterMap_idea day input).trans ?_
    rw [hwithout, List.filter_filter]
    refine List.Perm.of_eq (List.filter_congr fun idea _ => ?_)
    cases hplanned : idea.plannedOn with
    | none => simp
    | some d =>
      simp only [hasPlace, hplanned, Option.isSome_some, Bool.and_true, reduceCtorEq, decide_false, Bool.and_false,
        Bool.or_false, Option.some_inj]
      rw [Bool.and_left_comm, Bool.and_assoc]
  have hpool : unplannedIdeas input.ideas without =
      ((input.ideas.filter fun idea => hasPlace idea && idea.id ∉ without).filter fun idea =>
        !decide (idea.plannedOn ∈ (tripDays input.trip).map some)).filter (·.plannedOn = none) := by
    rw [List.filter_filter, List.filter_filter]
    refine List.filter_congr fun idea _ => ?_
    cases hplanned : idea.plannedOn with
    | none => simp [hasPlace, hplanned]
    | some d => simp
  have houtside : ideasOutsideTrip input.ideas (tripDays input.trip) without =
      ((input.ideas.filter fun idea => hasPlace idea && idea.id ∉ without).filter fun idea =>
        !decide (idea.plannedOn ∈ (tripDays input.trip).map some)).filter
          fun idea => !decide (idea.plannedOn = none) := by
    rw [List.filter_filter, List.filter_filter]
    refine List.filter_congr fun idea _ => ?_
    cases hplanned : idea.plannedOn with
    | none => simp
    | some d => simp [hasPlace, hplanned, Bool.and_left_comm, Bool.and_assoc]
  rw [hpool, houtside, List.append_assoc]
  refine List.Perm.trans (hdays.append (List.filter_append_perm _ _)) ?_
  exact List.filter_append_perm _ _

/-- **An idea from which an excursion was made stands as its line**, on every day that the excursion covers. -/
theorem exists_excursion_line (hidea : idea ∈ input.ideas) (hsource : source ∈ input.lines)
    (hkind : source.kind = .excursion) (hof : source.ideaId = some idea.id) (hcovers : covers day source) :
    ∃ line ∈ dayLines day input, line.source = some source ∧ line.kind = .excursion ∧ line.origin = some idea := by
  refine ⟨sourceLine day input source, (dayLines_perm day input).mem_iff.2 ?_, rfl, ?_, ?_⟩
  · exact mem_standing.2 (.inr (.inl ⟨source, hsource, hcovers, rfl⟩))
  · show kindOfSource source.kind = .excursion
    rw [hkind]
    rfl
  · show source.ideaId.bind (Keyed.last Idea.id input.ideas) = some idea
    rw [hof]
    exact (Keyed.last_eq_some_iff input.idea_unique).2 ⟨hidea, rfl⟩

end

/-! ## The plan -/

/-- What the day plan of a trip is. -/
structure Plan (input : DayInput) : Prop where
  entries : (((tripDays input.trip).flatMap fun day => (dayLines day input).filterMap (·.entry)) ++
    entriesOutsideTrip input.entries (tripDays input.trip)).Perm input.entries
  ideas : (((tripDays input.trip).flatMap fun day => (dayLines day input).filterMap (·.idea)) ++
    unplannedIdeas input.ideas (ideasWithExcursion input.lines) ++
    ideasOutsideTrip input.ideas (tripDays input.trip) (ideasWithExcursion input.lines)).Perm
    (input.ideas.filter fun idea => hasPlace idea && idea.id ∉ ideasWithExcursion input.lines)
  excursions : ∀ idea ∈ input.ideas, ∀ source ∈ input.lines, source.kind = .excursion → source.ideaId = some idea.id →
    ∀ day, covers day source →
      ∃ line ∈ dayLines day input, line.source = some source ∧ line.kind = .excursion ∧ line.origin = some idea
  distinct : ∀ day, ((dayLines day input).map (·.key)).Nodup
  /-- The lines that are not moved beside a way are in the order of their times or places, those without one last. -/
  ordered : ∀ day, ((dayLines day input).filter (!moves (dayLines day input) ·)).Pairwise
    fun a b => orderTime a ≤ orderTime b
  beside : ∀ day, ∀ line ∈ dayLines day input, line.kind = .excursion →
    Beside (dayLines day input) (dayLines day input) line

/-- **The day plan.** -/
theorem day_plan_spec (input : DayInput) : Plan input where
  entries := entries_perm input
  ideas := ideas_perm input
  excursions := fun _ hidea _ hsource hkind hof _ hcovers => exists_excursion_line hidea hsource hkind hof hcovers
  distinct := fun day => ((dayLines_perm day input).map _).nodup_iff.2 (nodup_standing day input)
  ordered := by
    intro day
    have hmoves : ∀ line, (!moves (dayLines day input) line) =
        !moves (Ranked.byRank orderTime (standing day input)) line := fun line => by rw [moves_dayLines]
    simp only [hmoves]
    rw [(between_dayLines day input).kept]
    exact (Ranked.pairwise_byRank _ _).sublist List.filter_sublist
  beside := by
    intro day line hline hkind refId hid
    have hmem : line ∈ (Ranked.byRank orderTime (standing day input)).filter (·.kind = .excursion) :=
      List.mem_filter.2 ⟨(between_dayLines day input).perm.mem_iff.1 hline, decide_eq_true hkind⟩
    have hbeside := (between_dayLines day input).beside line hmem refId hid
    rw [wayOf_dayLines, wayOf_dayLines]
    exact hbeside

def firstOfJuly : Day := ⟨2026, 7, 1, year_2026_le, july_mem, by decide⟩

def fifthOfJuly : Day := ⟨2026, 7, 5, year_2026_le, july_mem, by decide⟩

/-- A day with a breakfast that has no time and a museum at noon, and an idea for it from which an excursion was made
that was put on another day. -/
def museumDay : DayInput where
  trip := ⟨some firstOfJuly, some firstOfJuly⟩
  ideas := [⟨"hike", "Hike", none, .shortlisted, some firstOfJuly, none⟩]
  entries := [⟨"museum", firstOfJuly, some "12:00", "Museum", none, 0, none, none⟩]
  lines := [⟨"meal:b", .meal, "Breakfast", firstOfJuly, firstOfJuly, none, none, none, none, none, none, none, none,
      some "08:00", []⟩,
    ⟨"excursion:h", .excursion, "Hike", fifthOfJuly, fifthOfJuly, none, none, none, some "h", some "hike", none, none,
      none, none, []⟩]
  travelers := []
  entryTravelers := []
  idea_unique := by decide
  entry_unique := by decide
  key_unique := by decide
  ref_unique := by decide

/-- The breakfast comes first, and the idea stands nowhere. -/
theorem breakfast_first :
    ¬ ((dayLines firstOfJuly museumDay).filter (·.kind ≠ .excursion)).Pairwise
        (fun a b => timeRank a.time ≤ timeRank b.time) ∧
      (∃ idea ∈ museumDay.ideas, hasPlace idea ∧
        (∀ day ∈ tripDays museumDay.trip, ∀ line ∈ dayLines day museumDay, line.idea ≠ some idea ∧
          line.origin ≠ some idea) ∧
        idea ∉ unplannedIdeas museumDay.ideas (ideasWithExcursion museumDay.lines) ∧
        idea ∉ ideasOutsideTrip museumDay.ideas (tripDays museumDay.trip) (ideasWithExcursion museumDay.lines)) := by
  decide

end DayPlan

end JitPack
