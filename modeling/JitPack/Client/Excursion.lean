import JitPack.Lib.Machine
import JitPack.Lib.Grouping
import JitPack.Client.PackingView

/-!
# The list of an excursion

An excursion has a list of its own, and the list follows its people. A change of who goes takes the open lines of those
who leave and gives those who join a line of every set made for all; a change of for whom a thing is makes its lines
the chosen ones. A line with something packed is never taken away (`packed_kept`), and a set made for all covers
everybody who goes (`covered_step`).

A person who joins is given a line of a set although they have one of their own that was not made for all. That is the
only way to two lines of one thing (`distinct_step_iff`), and the main theorem is `lists_iff`.
-/

namespace JitPack

namespace Excursion

open Packing (trim)
open PackState (stateFor clampQuantity)

/-! ## Lines -/

/-- `ExcursionLineMode`. -/
inductive ExcursionLineMode where
  | pack
  | buyLocal
  deriving DecidableEq

/-- `ExcursionLine`. -/
structure ExcursionLine where
  excursionId : String
  sourceItemId : Option String
  name : String
  categoryName : Option String
  assignedTravelerId : Option String
  quantity : ℤ
  packedCount : ℤ
  state : ItemState
  mode : ExcursionLineMode
  forAllParticipants : Bool
  deriving DecidableEq

/-- `DraftLine`. -/
structure DraftLine where
  sourceItemId : Option String
  name : String
  categoryName : Option String
  assignedTravelerId : Option String
  quantity : ℤ
  mode : ExcursionLineMode
  forAllParticipants : Bool
  weightGrams : Option ℤ
  valueCents : Option ℤ
  sourceTemplateId : Option String
  deriving DecidableEq

/-- What makes lines one thing. No id begins as the key of a name does. -/
inductive SetKey where
  | item (id : String)
  | name (normalized : String)
  deriving DecidableEq

/-- `LineFor`. -/
inductive LineFor where
  | shared
  | all
  | named (travelerIds : List String)

/-- `ParticipantChange`. -/
structure ParticipantChange where
  add : List DraftLine
  remove : List ExcursionLine

/-- `ForWhomChange`. -/
structure ForWhomChange where
  remove : List ExcursionLine
  add : List DraftLine
  reflag : List (ExcursionLine × Bool)

section
variable (toLowerCase : String → String)

/-- `normalizeName`. -/
def normalizeName (name : String) : String := toLowerCase (trim name)

/-- `setKey`. -/
def setKeyOf (sourceItemId : Option String) (name : String) : SetKey :=
  match sourceItemId with
  | some id => .item id
  | none => .name (normalizeName toLowerCase name)

def setKey (line : ExcursionLine) : SetKey := setKeyOf toLowerCase line.sourceItemId line.name

/-! ## Who goes -/

/-- The line of a set for somebody who joins. -/
def joinerLine (first : ExcursionLine) (quantity : ℤ) (person : String) : DraftLine where
  sourceItemId := first.sourceItemId
  name := first.name
  categoryName := first.categoryName
  assignedTravelerId := some person
  quantity := quantity
  mode := first.mode
  forAllParticipants := true
  weightGrams := none
  valueCents := none
  sourceTemplateId := none

/-- What a set made for all gains. -/
def growSet (joined : List String) : List ExcursionLine → List DraftLine
  | [] => []
  | first :: rest =>
    let set := first :: rest
    let quantity := if set.all (·.quantity = first.quantity) then first.quantity else 1
    (joined.filter fun person => ! set.any (·.assignedTravelerId = some person)).map (joinerLine first quantity)

/-- A line of somebody who leaves, with nothing packed. -/
def leaves (before after : List String) (line : ExcursionLine) : Bool :=
  match line.assignedTravelerId with
  | none => false
  | some person => person ∈ before ∧ person ∉ after ∧ line.packedCount ≤ 0

/-- The sets made for all, in the order of their first lines. -/
def sets (lines : List ExcursionLine) : List (SetKey × List ExcursionLine) :=
  Grouping.group (setKey toLowerCase) (fun line => [line]) (fun set line => set ++ [line])
    (lines.filter (·.forAllParticipants))

/-- `planParticipantChange`. -/
def planParticipantChange (lines : List ExcursionLine) (before after : List String) : ParticipantChange where
  remove := lines.filter (leaves before after)
  add := (sets toLowerCase lines).flatMap fun set => growSet (after.filter (· ∉ before)) set.2

/-! ## For whom -/

/-- The people that a thing is to be for; nobody in particular is `none`. -/
def wantedBy (target : LineFor) (participants : List String) : List (Option String) :=
  match target with
  | .shared => [none]
  | .all => Insertion.ofList (participants.map some)
  | .named travelerIds => Insertion.ofList (travelerIds.map some)

def LineFor.isAll : LineFor → Bool
  | .all => true
  | _ => false

/-- The line of a thing for somebody it is newly for. -/
def wantedLine (first : ExcursionLine) (forAll : Bool) (who : Option String) : DraftLine where
  sourceItemId := first.sourceItemId
  name := first.name
  categoryName := first.categoryName
  assignedTravelerId := who
  quantity := 1
  mode := first.mode
  forAllParticipants := who.isSome && forAll
  weightGrams := none
  valueCents := none
  sourceTemplateId := none

section

local instance lawfulTraveler : LawfulBEq (Option String) := inferInstance

/-- `planForWhom`. -/
def planForWhom (set : List ExcursionLine) (target : LineFor) (participants : List String) : ForWhomChange :=
  match set with
  | [] => ⟨[], [], []⟩
  | first :: rest =>
    let wanted := wantedBy target participants
    let forAll := target.isAll
    let remove := (first :: rest).filter fun l => l.assignedTravelerId ∉ wanted ∧ l.packedCount ≤ 0
    let kept := (first :: rest).filter (· ∉ remove)
    { remove := remove
      reflag := (kept.filter fun l => l.assignedTravelerId.isSome ∧ l.forAllParticipants ≠ forAll).map (·, forAll)
      add := (wanted.filter fun who => ! kept.any (·.assignedTravelerId = who)).map (wantedLine first forAll) }

end

/-- `lineSetOf`. -/
def lineSetOf (line : ExcursionLine) (lines : List ExcursionLine) : List ExcursionLine :=
  lines.filter fun l => l.excursionId = line.excursionId ∧ setKey toLowerCase l = setKey toLowerCase line

/-! ## Runs -/

/-- A line that is written: open, with nothing packed. -/
def DraftLine.written (excursionId : String) (draft : DraftLine) : ExcursionLine where
  excursionId := excursionId
  sourceItemId := draft.sourceItemId
  name := draft.name
  categoryName := draft.categoryName
  assignedTravelerId := draft.assignedTravelerId
  quantity := clampQuantity (.finite draft.quantity)
  packedCount := 0
  state := stateFor 0 (clampQuantity (.finite draft.quantity))
  mode := draft.mode
  forAllParticipants := draft.forAllParticipants

/-- An excursion: its lines, and who goes. -/
structure State where
  lines : List ExcursionLine
  participants : List String

/-- `setParticipants` and `setForWhom`. Nobody goes twice. -/
inductive Input where
  | participants (after : {ids : List String // ids.Nodup})
  | forWhom (line : ExcursionLine) (target : LineFor)

/-- The lines that stay, with the flags that follow. -/
def reflagged (reflag : List (ExcursionLine × Bool)) (line : ExcursionLine) : ExcursionLine :=
  match reflag.lookup line with
  | some forAll => { line with forAllParticipants := forAll }
  | none => line

/-- One change. -/
def step (excursionId : String) (s : State) : Input → State
  | .participants after =>
    let change := planParticipantChange toLowerCase s.lines s.participants after.1
    { lines := s.lines.filter (· ∉ change.remove) ++ change.add.map (·.written excursionId)
      participants := after.1 }
  | .forWhom line target =>
    let change := planForWhom (lineSetOf toLowerCase line s.lines) target s.participants
    { s with
      lines := (s.lines.filter (· ∉ change.remove)).map (reflagged change.reflag) ++
        change.add.map (·.written excursionId) }

def machine (excursionId : String) : Machine State Input Unit where
  step s i := ((), step toLowerCase excursionId s i)

end

/-! ## What a list is to be -/

section
variable (toLowerCase : String → String)

/-- No person has two lines of one thing. -/
def Distinct (lines : List ExcursionLine) : Prop :=
  lines.Pairwise fun a b => ∀ p, a.assignedTravelerId = some p → b.assignedTravelerId = some p →
    setKey toLowerCase a ≠ setKey toLowerCase b

/-- A thing that is made for all has a line for everybody who goes. -/
def Covered (key : SetKey) (s : State) : Prop :=
  ∀ f ∈ s.lines, f.forAllParticipants → setKey toLowerCase f = key → ∀ p ∈ s.participants,
    ∃ l ∈ s.lines, setKey toLowerCase l = key ∧ l.assignedTravelerId = some p

/-- The lines of one excursion. A line for nobody in particular is not one of a set made for all. -/
structure Valid (excursionId : String) (s : State) : Prop where
  of : ∀ l ∈ s.lines, l.excursionId = excursionId
  named : ∀ l ∈ s.lines, l.forAllParticipants → l.assignedTravelerId.isSome

/-- Nobody who joins has a line of their own of a thing that was made for all. -/
def JoinsFresh (s : State) : Input → Prop
  | .participants after => ∀ p ∈ after.1, p ∉ s.participants → ∀ l ∈ s.lines, l.assignedTravelerId = some p →
      l.forAllParticipants = false → ∀ f ∈ s.lines, f.forAllParticipants → setKey toLowerCase f ≠ setKey toLowerCase l
  | .forWhom _ _ => True

/-- A line, but for the flag. -/
def ExcursionLine.unflagged (line : ExcursionLine) : ExcursionLine := { line with forAllParticipants := false }

/-- What a change of for whom leaves of a thing. -/
structure Chosen (wanted : List (Option String)) (line : ExcursionLine) (lines : List ExcursionLine) : Prop where
  given : ∀ who ∈ wanted, ∃ l ∈ lines, setKey toLowerCase l = setKey toLowerCase line ∧ l.assignedTravelerId = who
  others : ∀ l ∈ lines, setKey toLowerCase l = setKey toLowerCase line → l.assignedTravelerId ∉ wanted →
    0 < l.packedCount

end

/-! ## Who goes, step by step -/

section
variable {toLowerCase : String → String} {excursionId : String} {lines : List ExcursionLine} {s : State}
  {before after : List String} {line : ExcursionLine}

theorem gather_append (lines : List ExcursionLine) : Grouping.gather (fun line => [line])
    (fun set line => set ++ [line]) lines = if lines = [] then none else some lines := by
  induction lines using List.reverseRecOn with
  | nil => rfl
  | append_singleton lines line ih =>
    rw [Grouping.gather_append_singleton, ih]
    by_cases hnil : lines = []
    · subst hnil
      rfl
    · simp [hnil]

theorem mem_sets {key : SetKey} {set : List ExcursionLine} : (key, set) ∈ sets toLowerCase lines ↔
    set ≠ [] ∧ set = (lines.filter (·.forAllParticipants)).filter (setKey toLowerCase · = key) := by
  rw [sets, Grouping.mem_group, gather_append]
  split
  · next hnil => simp [hnil]
  · next hne =>
    rw [Option.some.injEq]
    refine ⟨fun h => ⟨h ▸ hne, h.symm⟩, fun h => h.2.symm⟩

variable (toLowerCase) in
/-- A set made for all, by one of its lines. -/
theorem exists_set (hline : line ∈ lines) (hall : line.forAllParticipants) :
    ∃ set, (setKey toLowerCase line, set) ∈ sets toLowerCase lines ∧
      ∀ l, l ∈ set ↔ l ∈ lines ∧ l.forAllParticipants ∧ setKey toLowerCase l = setKey toLowerCase line := by
  have hmem : ∀ l, l ∈ (lines.filter (·.forAllParticipants)).filter
      (setKey toLowerCase · = setKey toLowerCase line) ↔
      l ∈ lines ∧ l.forAllParticipants ∧ setKey toLowerCase l = setKey toLowerCase line := by
    intro l
    rw [List.mem_filter, List.mem_filter, decide_eq_true_iff, and_assoc]
  exact ⟨_, mem_sets.2 ⟨List.ne_nil_of_mem ((hmem line).2 ⟨hline, hall, rfl⟩), rfl⟩, hmem⟩

theorem mem_growSet {joined : List String} {set : List ExcursionLine} {draft : DraftLine} :
    draft ∈ growSet joined set ↔ ∃ first rest quantity person, set = first :: rest ∧ person ∈ joined ∧
      (∀ l ∈ set, l.assignedTravelerId ≠ some person) ∧ draft = joinerLine first quantity person ∧
      quantity = if set.all (·.quantity = first.quantity) then first.quantity else 1 := by
  cases set with
  | nil => simp [growSet]
  | cons first rest =>
    unfold growSet
    simp only [List.mem_map, List.mem_filter, Bool.not_eq_true', List.any_eq_false, decide_eq_true_eq]
    constructor
    · rintro ⟨person, ⟨hjoined, hnone⟩, rfl⟩
      exact ⟨first, rest, _, person, rfl, hjoined, hnone, rfl, rfl⟩
    · rintro ⟨first', rest', quantity, person, heq, hjoined, hnone, rfl, rfl⟩
      cases heq
      exact ⟨person, ⟨hjoined, hnone⟩, rfl⟩

variable (toLowerCase excursionId lines before after) in
/-- The lines that a change of who goes adds. -/
def joinerLines : List ExcursionLine :=
  (planParticipantChange toLowerCase lines before after).add.map (·.written excursionId)

theorem setKey_joinerLine (first : ExcursionLine) (quantity : ℤ) (person : String) :
    setKey toLowerCase ((joinerLine first quantity person).written excursionId) = setKey toLowerCase first := rfl

/-- A line that is added is one of a set made for all, for somebody who joins and has none of the set. -/
theorem of_mem_joinerLines {l : ExcursionLine} (h : l ∈ joinerLines toLowerCase excursionId lines before after) :
    ∃ p ∈ after, p ∉ before ∧ l.assignedTravelerId = some p ∧ l.forAllParticipants = true ∧
      l.excursionId = excursionId ∧
      (∃ f ∈ lines, f.forAllParticipants ∧ setKey toLowerCase f = setKey toLowerCase l) ∧
      ∀ l' ∈ lines, l'.forAllParticipants → setKey toLowerCase l' = setKey toLowerCase l →
        l'.assignedTravelerId ≠ some p := by
  obtain ⟨draft, hdraft, rfl⟩ := List.mem_map.1 h
  obtain ⟨⟨key, set⟩, hset, hgrow⟩ := List.mem_flatMap.1 hdraft
  obtain ⟨first, rest, quantity, person, rfl, hjoined, hnone, rfl, -⟩ := mem_growSet.1 hgrow
  obtain ⟨hafter, hbefore⟩ := List.mem_filter.1 hjoined
  obtain ⟨-, heq⟩ := mem_sets.1 hset
  have hmem : ∀ l, l ∈ first :: rest ↔ l ∈ lines ∧ l.forAllParticipants ∧ setKey toLowerCase l = key := by
    intro l
    rw [heq, List.mem_filter, List.mem_filter, decide_eq_true_iff, and_assoc]
  obtain ⟨hfirst, hall, hkey⟩ := (hmem first).1 List.mem_cons_self
  refine ⟨person, hafter, of_decide_eq_true hbefore, rfl, rfl, rfl, ⟨first, hfirst, hall, rfl⟩, ?_⟩
  intro l' hl' hall' hkey'
  exact hnone l' ((hmem l').2 ⟨hl', hall', hkey'.trans hkey⟩)

variable (excursionId) in
/-- Whoever joins has a line of every set made for all. -/
theorem exists_joinerLine {p : String} (hafter : p ∈ after) (hbefore : p ∉ before) (hline : line ∈ lines)
    (hall : line.forAllParticipants)
    (hnone : ∀ l ∈ lines, l.forAllParticipants → setKey toLowerCase l = setKey toLowerCase line →
      l.assignedTravelerId ≠ some p) :
    ∃ l ∈ joinerLines toLowerCase excursionId lines before after,
      setKey toLowerCase l = setKey toLowerCase line ∧ l.assignedTravelerId = some p := by
  obtain ⟨set, hset, hmem⟩ := exists_set toLowerCase hline hall
  cases set with
  | nil => exact absurd ((hmem line).2 ⟨hline, hall, rfl⟩) List.not_mem_nil
  | cons first rest =>
    obtain ⟨hfirst, hallFirst, hkey⟩ := (hmem first).1 List.mem_cons_self
    have hgrow : joinerLine first _ p ∈ growSet (after.filter (· ∉ before)) (first :: rest) :=
      mem_growSet.2 ⟨first, rest, _, p, rfl, List.mem_filter.2 ⟨hafter, decide_eq_true hbefore⟩,
        fun l hl => hnone l ((hmem l).1 hl).1 ((hmem l).1 hl).2.1 ((hmem l).1 hl).2.2, rfl, rfl⟩
    exact ⟨_, List.mem_map_of_mem (List.mem_flatMap.2 ⟨_, hset, hgrow⟩), hkey, rfl⟩

theorem distinct_joinerLines (hafter : after.Nodup) :
    Distinct toLowerCase (joinerLines toLowerCase excursionId lines before after) := by
  unfold Distinct joinerLines planParticipantChange
  rw [List.pairwise_map, List.pairwise_flatMap]
  have hkeyOf : ∀ set ∈ sets toLowerCase lines, ∀ draft ∈ growSet (after.filter (· ∉ before)) set.2,
      setKey toLowerCase (draft.written excursionId) = set.1 := by
    rintro ⟨key, set⟩ hset draft hdraft
    obtain ⟨first, rest, quantity, person, rfl, -, -, rfl, -⟩ := mem_growSet.1 hdraft
    have hfirst : first ∈ first :: rest := List.mem_cons_self
    rw [(mem_sets.1 hset).2, List.mem_filter] at hfirst
    exact of_decide_eq_true hfirst.2
  constructor
  · rintro ⟨key, set⟩ hset
    cases set with
    | nil => exact List.Pairwise.nil
    | cons first rest =>
      unfold growSet
      rw [List.pairwise_map]
      refine ((hafter.filter _).filter _).imp fun {a b} hne p ha hb => ?_
      cases ha
      cases hb
      exact absurd rfl hne
  · have hkeys : ((sets toLowerCase lines).map Prod.fst).Nodup := Grouping.nodup_keys_group _
    refine (List.pairwise_map.1 hkeys).imp_of_mem fun {a b} ha hb hne x hx y hy p _ _ => ?_
    rw [hkeyOf a ha x hx, hkeyOf b hb y hy]
    exact hne

theorem mem_stayed {l : ExcursionLine} :
    l ∈ lines.filter (· ∉ (planParticipantChange toLowerCase lines before after).remove) ↔
      l ∈ lines ∧ leaves before after l = false := by
  rw [List.mem_filter, decide_eq_true_iff]
  refine and_congr_right fun hl => ?_
  show l ∉ lines.filter _ ↔ _
  rw [List.mem_filter, not_and]
  exact ⟨fun h => Bool.eq_false_iff.2 (h hl), fun h _ => Bool.eq_false_iff.1 h⟩

theorem leaves_eq_false_of_mem {l : ExcursionLine} {p : String} (hp : l.assignedTravelerId = some p)
    (h : p ∉ before ∨ p ∈ after) : leaves before after l = false := by
  unfold leaves
  rw [hp]
  simp only [decide_eq_false_iff_not, not_and]
  intro hbefore hafter
  rcases h with h | h
  · exact absurd hbefore h
  · exact absurd h hafter

theorem Distinct.ne {a b : ExcursionLine} {p : String} (h : Distinct toLowerCase lines) (ha : a ∈ lines) (hb : b ∈ lines)
    (hne : a ≠ b) (hpa : a.assignedTravelerId = some p) (hpb : b.assignedTravelerId = some p) :
    setKey toLowerCase a ≠ setKey toLowerCase b := by
  have hsymm : Std.Symm fun a b : ExcursionLine => ∀ p, a.assignedTravelerId = some p → b.assignedTravelerId = some p →
      setKey toLowerCase a ≠ setKey toLowerCase b := ⟨fun _ _ hab q hqb hqa => (hab q hqa hqb).symm⟩
  exact List.Pairwise.forall h ha hb hne p hpa hpb

/-- **The one way to two lines of one thing.** -/
theorem distinct_participants_iff (h : Distinct toLowerCase s.lines) (hafter : after.Nodup) :
    Distinct toLowerCase (step toLowerCase excursionId s (.participants ⟨after, hafter⟩)).lines ↔
      JoinsFresh toLowerCase s (.participants ⟨after, hafter⟩) := by
  show Distinct toLowerCase (_ ++ joinerLines toLowerCase excursionId s.lines s.participants after) ↔ _
  unfold Distinct
  rw [List.pairwise_append]
  constructor
  · rintro ⟨-, -, hcross⟩ p hp hbefore l hl hassigned hflag f hf hall hkey
    have hleaves : leaves s.participants after l = false := leaves_eq_false_of_mem hassigned (.inl hbefore)
    have hstays : l ∈ s.lines.filter (· ∉ (planParticipantChange toLowerCase s.lines s.participants after).remove) :=
      mem_stayed.2 ⟨hl, hleaves⟩
    obtain ⟨a, ha, hkeyA, hassignedA⟩ := exists_joinerLine excursionId hp hbefore hf hall
      fun l' hl' hall' hkey' hassigned' => by
        -- A line of the set and one that is not in it would be two already.
        have hne : l' ≠ l := by
          rintro rfl
          rw [hflag] at hall'
          cases hall'
        exact h.ne hl' hl hne hassigned' hassigned (hkey'.trans hkey)
    exact hcross l hstays a ha p hassigned hassignedA (hkey.symm.trans hkeyA.symm)
  · intro hfresh
    refine ⟨h.filter _, distinct_joinerLines hafter, fun l hl a ha p hassigned hassignedA hkey => ?_⟩
    obtain ⟨hl, -⟩ := mem_stayed.1 hl
    obtain ⟨p', hp, hbefore, hassigned', -, -, ⟨f, hf, hall, hkeyF⟩, hnone⟩ := of_mem_joinerLines ha
    rw [hassignedA] at hassigned'
    cases hassigned'
    cases hflag : l.forAllParticipants with
    | true => exact hnone l hl hflag hkey hassigned
    | false => exact hfresh p hp hbefore l hl hassigned hflag f hf hall (hkeyF.trans hkey.symm)

/-! ## For whom, step by step -/

variable {target : LineFor} {first : ExcursionLine} {rest : List ExcursionLine}

theorem nodup_wantedBy (target : LineFor) (participants : List String) : (wantedBy target participants).Nodup := by
  unfold wantedBy
  split
  · exact List.nodup_singleton none
  · exact Insertion.nodup_ofList _
  · exact Insertion.nodup_ofList _

/-- A line of a thing that goes: it is for nobody it is to be for, and nothing of it is packed. -/
def Goes (wanted : List (Option String)) (line : ExcursionLine) : Prop :=
  line.assignedTravelerId ∉ wanted ∧ line.packedCount ≤ 0

instance (wanted : List (Option String)) (line : ExcursionLine) : Decidable (Goes wanted line) :=
  inferInstanceAs (Decidable (_ ∧ _))

theorem mem_lineSetOf {l : ExcursionLine} : l ∈ lineSetOf toLowerCase line lines ↔
    l ∈ lines ∧ l.excursionId = line.excursionId ∧ setKey toLowerCase l = setKey toLowerCase line := by
  rw [lineSetOf, List.mem_filter, decide_eq_true_iff]

section
variable {participants : List String} {set : List ExcursionLine}

theorem mem_remove {l : ExcursionLine} : l ∈ (planForWhom set target participants).remove ↔
    l ∈ set ∧ Goes (wantedBy target participants) l := by
  cases set with
  | nil => simp [planForWhom]
  | cons first rest =>
    show l ∈ List.filter _ _ ↔ _
    rw [List.mem_filter, decide_eq_true_iff]
    rfl

theorem mem_kept {l : ExcursionLine} : l ∈ (first :: rest).filter
    (· ∉ (planForWhom (first :: rest) target participants).remove) ↔
      l ∈ first :: rest ∧ ¬ Goes (wantedBy target participants) l := by
  rw [List.mem_filter, decide_eq_true_iff, mem_remove, not_and]
  exact ⟨fun h => ⟨h.1, h.2 h.1⟩, fun h => ⟨h.1, fun _ => h.2⟩⟩

/-- A line that stays is what it was, but for the flag. -/
theorem unflagged_reflagged (reflag : List (ExcursionLine × Bool)) (l : ExcursionLine) :
    (reflagged reflag l).unflagged = l.unflagged := by
  unfold reflagged
  split <;> rfl

theorem lookup_map_pair {α : Type*} [BEq α] [LawfulBEq α] (as : List α) (b : Bool) (a : α) :
    (as.map (·, b)).lookup a = if a ∈ as then some b else none := by
  induction as with
  | nil => rfl
  | cons a' as ih =>
    rw [List.map_cons, List.lookup_cons, ih]
    by_cases h : a = a'
    · simp [h]
    · have hbeq : (a == a') = false := beq_eq_false_iff_ne.2 h
      simp [hbeq, h]

/-- The lines that are flagged anew. -/
theorem lookup_reflag (l : ExcursionLine) : (planForWhom (first :: rest) target participants).reflag.lookup l =
    if (l ∈ first :: rest ∧ ¬ Goes (wantedBy target participants) l) ∧
      l.assignedTravelerId.isSome ∧ l.forAllParticipants ≠ target.isAll then some target.isAll else none := by
  show (List.map (·, target.isAll) (List.filter _ ((first :: rest).filter
    (· ∉ (planForWhom (first :: rest) target participants).remove)))).lookup l = _
  rw [lookup_map_pair]
  refine if_congr ?_ rfl rfl
  rw [List.mem_filter, decide_eq_true_iff, mem_kept]

/-- Only the lines of the thing are flagged anew. -/
theorem reflagged_of_notMem {l : ExcursionLine} (h : l ∉ set) :
    reflagged (planForWhom set target participants).reflag l = l := by
  cases set with
  | nil => rfl
  | cons first rest => rw [reflagged, lookup_reflag, if_neg fun hmem => h hmem.1.1]

/-- A line for nobody in particular is not flagged. -/
theorem isSome_of_reflagged {l : ExcursionLine} (hnamed : l.forAllParticipants → l.assignedTravelerId.isSome)
    (hall : (reflagged (planForWhom set target participants).reflag l).forAllParticipants) :
    l.assignedTravelerId.isSome := by
  cases set with
  | nil => exact hnamed hall
  | cons first rest =>
    rw [reflagged, lookup_reflag] at hall
    by_cases hflag : (l ∈ first :: rest ∧ ¬ Goes (wantedBy target participants) l) ∧
        l.assignedTravelerId.isSome ∧ l.forAllParticipants ≠ target.isAll
    · exact hflag.2.1
    · rw [if_neg hflag] at hall
      exact hnamed hall

/-- A line of the thing that stays is one of a set made for all only where the thing is for all now. -/
theorem isAll_of_reflagged {l : ExcursionLine} (hl : l ∈ set) (hstays : ¬ Goes (wantedBy target participants) l)
    (hnamed : l.forAllParticipants → l.assignedTravelerId.isSome)
    (hall : (reflagged (planForWhom set target participants).reflag l).forAllParticipants) : target.isAll := by
  cases set with
  | nil => cases hl
  | cons first rest =>
    rw [reflagged, lookup_reflag] at hall
    by_cases hflag : l.assignedTravelerId.isSome ∧ l.forAllParticipants ≠ target.isAll
    · rw [if_pos ⟨⟨hl, hstays⟩, hflag⟩] at hall
      exact hall
    · rw [if_neg fun h => hflag h.2] at hall
      by_contra hne
      exact hflag ⟨hnamed hall, fun h => hne (h.symm.trans hall)⟩

theorem mem_add {draft : DraftLine} : draft ∈ (planForWhom (first :: rest) target participants).add ↔
    ∃ who ∈ wantedBy target participants,
      (∀ l ∈ first :: rest, ¬ Goes (wantedBy target participants) l → l.assignedTravelerId ≠ who) ∧
        draft = wantedLine first target.isAll who := by
  show draft ∈ List.map _ (List.filter _ _) ↔ _
  rw [List.mem_map]
  constructor
  · rintro ⟨who, hwho, rfl⟩
    obtain ⟨hwanted, hnone⟩ := List.mem_filter.1 hwho
    refine ⟨who, hwanted, fun l hl hstays heq => ?_, rfl⟩
    rw [Bool.not_eq_true', List.any_eq_false] at hnone
    exact hnone l (mem_kept.2 ⟨hl, hstays⟩) (decide_eq_true heq)
  · rintro ⟨who, hwanted, hnone, rfl⟩
    refine ⟨who, List.mem_filter.2 ⟨hwanted, ?_⟩, rfl⟩
    rw [Bool.not_eq_true', List.any_eq_false]
    intro l hl heq
    obtain ⟨hl, hstays⟩ := mem_kept.1 hl
    exact hnone l hl hstays (of_decide_eq_true heq)

end

variable (toLowerCase) in
/-- The lines of a thing that stay or come. -/
theorem mem_forWhom {l : ExcursionLine} :
    l ∈ (step toLowerCase excursionId s (.forWhom line target)).lines ↔
      (∃ l₀ ∈ s.lines, ¬ (l₀ ∈ lineSetOf toLowerCase line s.lines ∧ Goes (wantedBy target s.participants) l₀) ∧
        reflagged (planForWhom (lineSetOf toLowerCase line s.lines) target s.participants).reflag l₀ = l) ∨
      ∃ draft ∈ (planForWhom (lineSetOf toLowerCase line s.lines) target s.participants).add,
        draft.written excursionId = l := by
  show l ∈ (s.lines.filter (· ∉ (planForWhom (lineSetOf toLowerCase line s.lines) target s.participants).remove)).map _ ++
    List.map _ _ ↔ _
  rw [List.mem_append, List.mem_map, List.mem_map]
  refine or_congr ⟨?_, ?_⟩ Iff.rfl
  · rintro ⟨l₀, hl₀, rfl⟩
    obtain ⟨hl₀, hnot⟩ := List.mem_filter.1 hl₀
    exact ⟨l₀, hl₀, fun h => of_decide_eq_true hnot (mem_remove.2 h), rfl⟩
  · rintro ⟨l₀, hl₀, hnot, rfl⟩
    exact ⟨l₀, List.mem_filter.2 ⟨hl₀, decide_eq_true fun h => hnot (mem_remove.1 h)⟩, rfl⟩

theorem setKey_eq_of_unflagged {a b : ExcursionLine} (h : a.unflagged = b.unflagged) :
    setKey toLowerCase a = setKey toLowerCase b :=
  congrArg₂ (setKeyOf toLowerCase) (congrArg ExcursionLine.sourceItemId h :) (congrArg ExcursionLine.name h :)

theorem assigned_eq_of_unflagged {a b : ExcursionLine} (h : a.unflagged = b.unflagged) :
    a.assignedTravelerId = b.assignedTravelerId := (congrArg ExcursionLine.assignedTravelerId h :)

/-- **A line with something packed stays.** -/
theorem packed_kept (i : Input) {l : ExcursionLine} (hl : l ∈ s.lines) (hpacked : 0 < l.packedCount) :
    ∃ l' ∈ (step toLowerCase excursionId s i).lines, l'.unflagged = l.unflagged := by
  cases i with
  | participants after =>
    refine ⟨l, List.mem_append_left _ (mem_stayed.2 ⟨hl, ?_⟩), rfl⟩
    unfold leaves
    split
    · rfl
    · exact decide_eq_false fun h => absurd h.2.2 (not_le.2 hpacked)
  | forWhom line target =>
    refine ⟨_, (mem_forWhom toLowerCase).2 (.inl ⟨l, hl, fun h => absurd h.2.2 (not_le.2 hpacked), rfl⟩), ?_⟩
    exact unflagged_reflagged _ _

variable (excursionId) in
/-- A change of for whom does not touch the other things. -/
theorem of_mem_forWhom_add {l : ExcursionLine}
    (h : ∃ draft ∈ (planForWhom (lineSetOf toLowerCase line s.lines) target s.participants).add,
      draft.written excursionId = l) :
    setKey toLowerCase l = setKey toLowerCase line ∧ l.excursionId = excursionId ∧
      (l.forAllParticipants → l.assignedTravelerId.isSome ∧ target.isAll) ∧
      l.assignedTravelerId ∈ wantedBy target s.participants ∧
      ∀ l₀ ∈ lineSetOf toLowerCase line s.lines, ¬ Goes (wantedBy target s.participants) l₀ →
        l₀.assignedTravelerId ≠ l.assignedTravelerId := by
  obtain ⟨draft, hdraft, rfl⟩ := h
  cases hset : lineSetOf toLowerCase line s.lines with
  | nil =>
    rw [hset] at hdraft
    cases hdraft
  | cons first rest =>
    rw [hset] at hdraft
    obtain ⟨who, hwho, hnone, rfl⟩ := mem_add.1 hdraft
    have hfirst : first ∈ lineSetOf toLowerCase line s.lines := hset ▸ List.mem_cons_self
    refine ⟨(mem_lineSetOf.1 hfirst).2.2, rfl, fun hall => ?_, hwho, hnone⟩
    have hboth : (who.isSome && target.isAll) = true := hall
    rw [Bool.and_eq_true] at hboth
    exact hboth

theorem Valid.mem_lineSetOf {l : ExcursionLine} (h : Valid excursionId s) (hline : line ∈ s.lines) (hl : l ∈ s.lines)
    (hkey : setKey toLowerCase l = setKey toLowerCase line) : l ∈ lineSetOf toLowerCase line s.lines :=
  Excursion.mem_lineSetOf.2 ⟨hl, (h.of l hl).trans (h.of line hline).symm, hkey⟩

/-- **What a thing is after a change of for whom.** -/
theorem chosen_forWhom (h : Valid excursionId s) (hline : line ∈ s.lines) :
    Chosen toLowerCase (wantedBy target s.participants) line
      (step toLowerCase excursionId s (.forWhom line target)).lines where
  given who hwho := by
    by_cases hkept : ∃ l₀ ∈ lineSetOf toLowerCase line s.lines, ¬ Goes (wantedBy target s.participants) l₀ ∧
        l₀.assignedTravelerId = who
    · obtain ⟨l₀, hl₀, hstays, rfl⟩ := hkept
      have hsame := unflagged_reflagged
        (planForWhom (lineSetOf toLowerCase line s.lines) target s.participants).reflag l₀
      refine ⟨_, (mem_forWhom toLowerCase).2
        (.inl ⟨l₀, (Excursion.mem_lineSetOf.1 hl₀).1, fun h => hstays h.2, rfl⟩), ?_, ?_⟩
      · exact (setKey_eq_of_unflagged hsame).trans (Excursion.mem_lineSetOf.1 hl₀).2.2
      · exact assigned_eq_of_unflagged hsame
    · cases hset : lineSetOf toLowerCase line s.lines with
      | nil => exact absurd (h.mem_lineSetOf hline hline rfl) (by rw [hset]; exact List.not_mem_nil)
      | cons first rest =>
        have hfirst : first ∈ lineSetOf toLowerCase line s.lines := hset ▸ List.mem_cons_self
        have hadd : wantedLine first target.isAll who ∈
            (planForWhom (lineSetOf toLowerCase line s.lines) target s.participants).add := by
          rw [hset]
          refine mem_add.2 ⟨who, hwho, fun l₀ hl₀ hstays heq => ?_, rfl⟩
          exact hkept ⟨l₀, hset ▸ hl₀, hstays, heq⟩
        exact ⟨_, (mem_forWhom toLowerCase).2 (.inr ⟨_, hadd, rfl⟩), (Excursion.mem_lineSetOf.1 hfirst).2.2, rfl⟩
  others l hl hkey hother := by
    rcases (mem_forWhom toLowerCase).1 hl with ⟨l₀, hl₀, hnot, rfl⟩ | hadd
    · have hsame := unflagged_reflagged
        (planForWhom (lineSetOf toLowerCase line s.lines) target s.participants).reflag l₀
      have hpacked : (reflagged (planForWhom (lineSetOf toLowerCase line s.lines) target s.participants).reflag
        l₀).packedCount = l₀.packedCount := (congrArg ExcursionLine.packedCount hsame :)
      rw [assigned_eq_of_unflagged hsame] at hother
      rw [setKey_eq_of_unflagged hsame] at hkey
      rw [hpacked]
      by_contra hopen
      exact hnot ⟨h.mem_lineSetOf hline hl₀ hkey, hother, not_lt.1 hopen⟩
    · exact absurd (of_mem_forWhom_add excursionId hadd).2.2.2.1 hother

theorem distinct_forWhom (h : Valid excursionId s) (hdistinct : Distinct toLowerCase s.lines) :
    Distinct toLowerCase (step toLowerCase excursionId s (.forWhom line target)).lines := by
  show Distinct toLowerCase (List.map _ _ ++ List.map _ _)
  unfold Distinct
  rw [List.pairwise_append]
  refine ⟨?_, ?_, ?_⟩
  · rw [List.pairwise_map]
    refine (hdistinct.filter _).imp fun {a b} hab p ha hb => ?_
    have hsame := unflagged_reflagged
      (planForWhom (lineSetOf toLowerCase line s.lines) target s.participants).reflag
    rw [assigned_eq_of_unflagged (hsame a)] at ha
    rw [assigned_eq_of_unflagged (hsame b)] at hb
    rw [setKey_eq_of_unflagged (hsame a), setKey_eq_of_unflagged (hsame b)]
    exact hab p ha hb
  · cases lineSetOf toLowerCase line s.lines with
    | nil => exact List.Pairwise.nil
    | cons first rest =>
      show List.Pairwise _ (List.map _ (List.map _ (List.filter _ _)))
      rw [List.map_map, List.pairwise_map]
      refine ((nodup_wantedBy _ _).filter _).imp fun {a b} hne p ha hb => ?_
      exact absurd (Eq.trans (show a = some p from ha) (show b = some p from hb).symm) hne
  · intro l hl a ha p hpl hpa hkey
    obtain ⟨l₀, hl₀, rfl⟩ := List.mem_map.1 hl
    obtain ⟨hl₀, hnot⟩ := List.mem_filter.1 hl₀
    obtain ⟨hkeyA, -, -, -, hnone⟩ := of_mem_forWhom_add excursionId (List.mem_map.1 ha)
    have hsame := unflagged_reflagged
      (planForWhom (lineSetOf toLowerCase line s.lines) target s.participants).reflag l₀
    rw [assigned_eq_of_unflagged hsame] at hpl
    rw [setKey_eq_of_unflagged hsame, hkeyA] at hkey
    -- The thing has a line, since one is added to it.
    obtain ⟨first, hfirst⟩ : ∃ first, first ∈ lineSetOf toLowerCase line s.lines := by
      cases hset : lineSetOf toLowerCase line s.lines with
      | nil =>
        rw [hset] at ha
        cases ha
      | cons first rest => exact ⟨first, List.mem_cons_self⟩
    obtain ⟨hmem, hexcursion, -⟩ := mem_lineSetOf.1 hfirst
    have hset : l₀ ∈ lineSetOf toLowerCase line s.lines :=
      mem_lineSetOf.2 ⟨hl₀, (h.of l₀ hl₀).trans ((h.of first hmem).symm.trans hexcursion), hkey⟩
    refine hnone l₀ hset (fun hgoes => of_decide_eq_true hnot (mem_remove.2 ⟨hset, hgoes⟩)) ?_
    rw [hpl, hpa]

/-! ## One change -/

theorem Valid.step (h : Valid excursionId s) (i : Input) : Valid excursionId (step toLowerCase excursionId s i) := by
  cases i with
  | participants after =>
    constructor
    · intro l hl
      rcases List.mem_append.1 hl with hold | hnew
      · exact h.of l (mem_stayed.1 hold).1
      · obtain ⟨-, -, -, -, -, hof, -⟩ := of_mem_joinerLines hnew
        exact hof
    · intro l hl hall
      rcases List.mem_append.1 hl with hold | hnew
      · exact h.named l (mem_stayed.1 hold).1 hall
      · obtain ⟨p, -, -, hassigned, -⟩ := of_mem_joinerLines hnew
        rw [hassigned]
        rfl
  | forWhom line target =>
    constructor
    · intro l hl
      rcases (mem_forWhom toLowerCase).1 hl with ⟨l₀, hl₀, -, rfl⟩ | hadd
      · exact (congrArg ExcursionLine.excursionId (unflagged_reflagged _ l₀) :).trans (h.of l₀ hl₀)
      · exact (of_mem_forWhom_add excursionId hadd).2.1
    · intro l hl hall
      rcases (mem_forWhom toLowerCase).1 hl with ⟨l₀, hl₀, -, rfl⟩ | hadd
      · rw [assigned_eq_of_unflagged (unflagged_reflagged _ l₀)]
        exact isSome_of_reflagged (h.named l₀ hl₀) hall
      · exact ((of_mem_forWhom_add excursionId hadd).2.2.1 hall).1

theorem distinct_step_iff (h : Valid excursionId s) (hdistinct : Distinct toLowerCase s.lines) (i : Input) :
    Distinct toLowerCase (step toLowerCase excursionId s i).lines ↔ JoinsFresh toLowerCase s i := by
  cases i with
  | participants after => exact distinct_participants_iff hdistinct after.2
  | forWhom line target => exact ⟨fun _ => trivial, fun _ => distinct_forWhom h hdistinct⟩

/-- **A thing that is covered stays so.** -/
theorem covered_step (h : Valid excursionId s) {key : SetKey} (hcovered : Covered toLowerCase key s) (i : Input) :
    Covered toLowerCase key (step toLowerCase excursionId s i) := by
  cases i with
  | participants after =>
    intro f hf hall hkey p hp
    -- A set that gains a line had one before.
    obtain ⟨f₀, hf₀, hall₀, hkey₀⟩ : ∃ f₀ ∈ s.lines, f₀.forAllParticipants ∧ setKey toLowerCase f₀ = key := by
      rcases List.mem_append.1 hf with hold | hnew
      · exact ⟨f, (mem_stayed.1 hold).1, hall, hkey⟩
      · obtain ⟨-, -, -, -, -, -, ⟨f₀, hf₀, hall₀, hkey₀⟩, -⟩ := of_mem_joinerLines hnew
        exact ⟨f₀, hf₀, hall₀, hkey₀.trans hkey⟩
    by_cases hbefore : p ∈ s.participants
    · obtain ⟨l, hl, hkeyL, hassigned⟩ := hcovered f₀ hf₀ hall₀ hkey₀ p hbefore
      exact ⟨l, List.mem_append_left _ (mem_stayed.2 ⟨hl, leaves_eq_false_of_mem hassigned (.inr hp)⟩), hkeyL, hassigned⟩
    · by_cases hset : ∃ l ∈ s.lines, l.forAllParticipants ∧ setKey toLowerCase l = key ∧ l.assignedTravelerId = some p
      · obtain ⟨l, hl, -, hkeyL, hassigned⟩ := hset
        exact ⟨l, List.mem_append_left _ (mem_stayed.2 ⟨hl, leaves_eq_false_of_mem hassigned (.inl hbefore)⟩), hkeyL,
          hassigned⟩
      · obtain ⟨l, hl, hkeyL, hassigned⟩ := exists_joinerLine excursionId hp hbefore hf₀ hall₀
          fun l hl hall hkeyL hassigned => hset ⟨l, hl, hall, hkeyL.trans hkey₀, hassigned⟩
        exact ⟨l, List.mem_append_right _ hl, hkeyL.trans hkey₀, hassigned⟩
  | forWhom line target =>
    intro f hf hall hkey p hp
    by_cases hthing : ∃ l ∈ lineSetOf toLowerCase line s.lines, setKey toLowerCase l = key
    · -- The thing itself: it is for all now, so everybody who goes is wanted.
      obtain ⟨first, hfirst, hkeyFirst⟩ := hthing
      obtain ⟨hmem, -, hkeyLine⟩ := mem_lineSetOf.1 hfirst
      have hall' : target.isAll := by
        rcases (mem_forWhom toLowerCase).1 hf with ⟨l₀, hl₀, hnot, rfl⟩ | hadd
        · have hsame := unflagged_reflagged
            (planForWhom (lineSetOf toLowerCase line s.lines) target s.participants).reflag l₀
          rw [setKey_eq_of_unflagged hsame] at hkey
          have hset : l₀ ∈ lineSetOf toLowerCase line s.lines := mem_lineSetOf.2 ⟨hl₀,
            (h.of l₀ hl₀).trans ((h.of first hmem).symm.trans (mem_lineSetOf.1 hfirst).2.1),
            hkey.trans (hkeyFirst.symm.trans hkeyLine)⟩
          exact isAll_of_reflagged hset (fun hgoes => hnot ⟨hset, hgoes⟩) (h.named l₀ hl₀) hall
        · exact ((of_mem_forWhom_add excursionId hadd).2.2.1 hall).2
      have hset : lineSetOf toLowerCase first s.lines = lineSetOf toLowerCase line s.lines := by
        unfold lineSetOf
        rw [(mem_lineSetOf.1 hfirst).2.1, hkeyLine]
      have hchosen : Chosen toLowerCase (wantedBy target s.participants) first
          (step toLowerCase excursionId s (.forWhom first target)).lines := chosen_forWhom h hmem
      have hwanted : some p ∈ wantedBy target s.participants := by
        cases target with
        | all => exact Insertion.mem_ofList.2 (List.mem_map_of_mem hp)
        | shared => cases hall'
        | named ids => cases hall'
      obtain ⟨l, hl, hkeyL, hassigned⟩ := hchosen.given _ hwanted
      refine ⟨l, ?_, hkeyL.trans hkeyFirst, hassigned⟩
      simp only [step, hset] at hl ⊢
      exact hl
    · -- Another thing: its lines are what they were.
      have hother : ∀ l ∈ s.lines, setKey toLowerCase l = key → l ∉ lineSetOf toLowerCase line s.lines :=
        fun l _ hkeyL hmem => hthing ⟨l, hmem, hkeyL⟩
      have hold : f ∈ s.lines := by
        rcases (mem_forWhom toLowerCase).1 hf with ⟨l₀, hl₀, -, rfl⟩ | hadd
        · have hsame := unflagged_reflagged
            (planForWhom (lineSetOf toLowerCase line s.lines) target s.participants).reflag l₀
          rw [setKey_eq_of_unflagged hsame] at hkey
          rw [reflagged_of_notMem (hother l₀ hl₀ hkey)]
          exact hl₀
        · exfalso
          obtain ⟨draft, hdraft, rfl⟩ := hadd
          cases hset : lineSetOf toLowerCase line s.lines with
          | nil =>
            rw [hset] at hdraft
            cases hdraft
          | cons first rest =>
            have hfirst : first ∈ lineSetOf toLowerCase line s.lines := hset ▸ List.mem_cons_self
            have hkeyAdd := (of_mem_forWhom_add excursionId ⟨draft, hdraft, rfl⟩).1
            exact hthing ⟨first, hfirst, (mem_lineSetOf.1 hfirst).2.2.trans (hkeyAdd.symm.trans hkey)⟩
      obtain ⟨l, hl, hkeyL, hassigned⟩ := hcovered f hold hall hkey p hp
      refine ⟨l, (mem_forWhom toLowerCase).2 (.inl ⟨l, hl, fun hgone => hother l hl hkeyL hgone.1, ?_⟩), hkeyL, hassigned⟩
      exact reflagged_of_notMem (hother l hl hkeyL)

/-- A thing that is made for all is covered. -/
theorem covered_of_all (h : Valid excursionId s) (hline : line ∈ s.lines) :
    Covered toLowerCase (setKey toLowerCase line) (step toLowerCase excursionId s (.forWhom line .all)) := by
  intro f _ _ _ p hp
  have hchosen : Chosen toLowerCase (wantedBy .all s.participants) line _ := chosen_forWhom h hline
  exact hchosen.given (some p) (Insertion.mem_ofList.2 (List.mem_map_of_mem hp))

/-! ## Runs -/

variable (toLowerCase excursionId) in
/-- What holds along a run. -/
structure Follows (s : State) (is : List Input) : Prop where
  kept : ∀ pre i, pre ++ [i] <+: is → ∀ l ∈ ((machine toLowerCase excursionId).after s pre).lines, 0 < l.packedCount →
    ∃ l' ∈ ((machine toLowerCase excursionId).after s (pre ++ [i])).lines, l'.unflagged = l.unflagged
  distinct : ∀ pre, pre <+: is → Distinct toLowerCase ((machine toLowerCase excursionId).after s pre).lines
  chosen : ∀ pre line target, pre ++ [.forWhom line target] <+: is →
    line ∈ ((machine toLowerCase excursionId).after s pre).lines →
    Chosen toLowerCase (wantedBy target ((machine toLowerCase excursionId).after s pre).participants) line
      ((machine toLowerCase excursionId).after s (pre ++ [.forWhom line target])).lines
  covered : ∀ pre line post, pre ++ .forWhom line .all :: post <+: is →
    line ∈ ((machine toLowerCase excursionId).after s pre).lines →
    Covered toLowerCase (setKey toLowerCase line)
      ((machine toLowerCase excursionId).after s (pre ++ .forWhom line .all :: post))

theorem valid_after (h : Valid excursionId s) (is : List Input) :
    Valid excursionId ((machine toLowerCase excursionId).after s is) :=
  Machine.after_of_step (fun _ i hs => hs.step i) h is

theorem after_snoc (s : State) (pre : List Input) (i : Input) :
    (machine toLowerCase excursionId).after s (pre ++ [i]) =
      step toLowerCase excursionId ((machine toLowerCase excursionId).after s pre) i := Machine.after_append _

/-- **A list in which no person has two lines of one thing stays so, whatever changes, exactly if nobody ever joins who
has a line of their own of a thing that was made for all; and it keeps what is packed, follows every change of for whom,
and covers everybody who goes with what was made for all.** -/
theorem lists_iff (toLowerCase : String → String) (excursionId : String) (s : State) (is : List Input)
    (h : Valid excursionId s) (hdistinct : Distinct toLowerCase s.lines) :
    Follows toLowerCase excursionId s is ↔
      (machine toLowerCase excursionId).Legal (JoinsFresh toLowerCase) s is := by
  have hinvariant : (∀ pre, pre <+: is → Distinct toLowerCase ((machine toLowerCase excursionId).after s pre).lines) ↔
      (machine toLowerCase excursionId).Legal (JoinsFresh toLowerCase) s is := by
    have hboth : (∀ pre, pre <+: is → Valid excursionId ((machine toLowerCase excursionId).after s pre) ∧
        Distinct toLowerCase ((machine toLowerCase excursionId).after s pre).lines) ↔
          (Valid excursionId s ∧ Distinct toLowerCase s.lines) ∧
            (machine toLowerCase excursionId).Legal (JoinsFresh toLowerCase) s is :=
      Machine.invariant_iff_legal (I := fun s => Valid excursionId s ∧ Distinct toLowerCase s.lines) fun s i hs =>
        ⟨fun hstep => (distinct_step_iff hs.1 hs.2 i).1 hstep.2,
        fun hok => ⟨hs.1.step i, (distinct_step_iff hs.1 hs.2 i).2 hok⟩⟩
    refine ⟨fun hall => (hboth.1 fun pre hpre => ⟨valid_after h pre, hall pre hpre⟩).2, fun hlegal pre hpre => ?_⟩
    exact (hboth.2 ⟨⟨h, hdistinct⟩, hlegal⟩ pre hpre).2
  refine ⟨fun hfollows => hinvariant.1 hfollows.distinct, fun hlegal => ⟨?_, hinvariant.2 hlegal, ?_, ?_⟩⟩
  · intro pre i _ l hl hpacked
    rw [after_snoc]
    exact packed_kept i hl hpacked
  · intro pre line target _ hline
    rw [after_snoc]
    exact chosen_forWhom (valid_after h pre) hline
  · intro pre line post _ hline
    rw [← List.singleton_append, ← List.append_assoc, Machine.after_append, after_snoc]
    exact Machine.after_of_step (I := fun s => Valid excursionId s ∧ Covered toLowerCase (setKey toLowerCase line) s)
      (fun _ i hs => ⟨hs.1.step i, covered_step hs.1 hs.2 i⟩)
      ⟨(valid_after h pre).step _, covered_of_all (valid_after h pre) hline⟩ post |>.2

end

/-! ## A tent -/

/-- A tent of somebody. -/
def tentOf (person : String) (forAll : Bool) : ExcursionLine where
  excursionId := "hike"
  sourceItemId := some "tent"
  name := "Tent"
  categoryName := none
  assignedTravelerId := some person
  quantity := 1
  packedCount := 0
  state := .opened
  mode := .pack
  forAllParticipants := forAll

def annaAndBen : {ids : List String // ids.Nodup} := ⟨["anna", "ben"], by decide⟩

/-- Anna goes, and her tent is one of a set made for all. -/
def annaGoes : State := ⟨[tentOf "anna" true], ["anna"]⟩

theorem tents_follow : Follows id "hike" annaGoes [.participants annaAndBen] := by
  have hvalid : Valid "hike" annaGoes := by
    constructor
    · intro l hl
      cases List.mem_singleton.1 hl
      rfl
    · intro l hl _
      cases List.mem_singleton.1 hl
      rfl
  refine (lists_iff id "hike" annaGoes [.participants annaAndBen] hvalid (List.pairwise_singleton _ _)).2 ?_
  refine Machine.legal_cons.2 ⟨?_, Machine.legal_nil⟩
  intro p _ _ l hl _ hflag
  cases List.mem_singleton.1 hl
  cases hflag

/-- Ben has a tent of his own in the list, and does not go yet. -/
def benStays : State := ⟨[tentOf "anna" true, tentOf "ben" false], ["anna"]⟩

/-- When Ben joins, he has two tents. -/
theorem ben_has_two_tents : Distinct id benStays.lines ∧
    ¬ Distinct id ((machine id "hike").after benStays [.participants annaAndBen]).lines := by
  constructor
  · refine List.pairwise_cons.2 ⟨fun l hl p hanna hben => ?_, List.pairwise_singleton _ _⟩
    cases List.mem_singleton.1 hl
    exact absurd (hanna.trans hben.symm) (by decide)
  · intro h
    have hlines : ((machine id "hike").after benStays [.participants annaAndBen]).lines =
        [tentOf "anna" true, tentOf "ben" false, tentOf "ben" true] := by decide +kernel
    rw [hlines] at h
    have hben := List.pairwise_cons.1 (List.pairwise_cons.1 h).2
    exact hben.1 _ (List.mem_singleton_self _) "ben" rfl rfl rfl

end Excursion

end JitPack
