import Mathlib

/-!
# Routes being edited

`domain/shared/route.ts`: a draft of a route is its handles and, between each two of them, a leg. A leg
that an edit makes is waiting for its line, and carries an id that the draft gives out. The edits are
`Edit.apply`; `Edit.edited` says of each of them what it does to the shape of the draft and to the legs
that wait.

A coordinate is of any type with the three operations that `insertAt` computes with, and what counts as
a closed loop (`haversine` and `LOOP_CLOSED_M`) is a parameter, so nothing here rests on how floating
point numbers round.
-/

namespace JitPack

/-! ## Drafts -/

/-- `LatLon`. -/
structure LatLon (ν : Type) where
  lat : ν
  lon : ν
  deriving DecidableEq

/-- `RoutePoint`. The height is unknown where there is none. -/
structure RoutePoint (ν : Type) extends LatLon ν where
  ele : Option ν

/-- `LegMode`. -/
inductive LegMode where
  | kept
  | path
  | line
  deriving DecidableEq

/-- `NewLegMode`: how a new leg is made. -/
inductive NewLegMode where
  | path
  | line
  deriving DecidableEq

def NewLegMode.leg : NewLegMode → LegMode
  | .path => .path
  | .line => .line

/-- The mode of a leg, `line` for a stretch that was kept. -/
def LegMode.renewed : LegMode → NewLegMode
  | .kept | .line => .line
  | .path => .path

/-- `Leg`. It has no points while it is being fetched. -/
structure Leg (ν : Type) where
  id : Nat
  mode : LegMode
  original : Bool
  points : Option (List (RoutePoint ν))

/-- `RouteDraft`: `legs[i]` joins `handles[i]` and `handles[i + 1]`. -/
structure RouteDraft (ν : Type) where
  handles : List (LatLon ν)
  legs : List (Leg ν)
  fromFile : Bool
  nextId : Nat

/-- `PendingLeg`: what to ask for, and how. -/
structure PendingLeg (ν : Type) where
  id : Nat
  mode : NewLegMode
  fromPlace : LatLon ν
  toPlace : LatLon ν
  deriving DecidableEq

/-- `Pass`, without what only the map shows of it. -/
structure Pass (ν : Type) where
  leg : Nat
  step : Nat
  t : ν

variable {ν : Type}

namespace RouteDraft

/-- `emptyDraft`. -/
def emptyDraft : RouteDraft ν := ⟨[], [], false, 1⟩

/-- `MAX_HANDLES_FROM_FILE`. -/
def maxHandlesFromFile : Nat := 14

/-- `draftFromPoints`. The points that keep the shape of the line are chosen by `simplify`, which sees
them with their index. -/
def draftFromPoints (simplify : List (LatLon ν × Nat) → Nat → List (LatLon ν × Nat))
    (points : List (RoutePoint ν)) : RouteDraft ν :=
  let indexed := points.zipIdx.map fun (p, i) => (p.toLatLon, i)
  let kept := simplify indexed maxHandlesFromFile
  let legs := (kept.zip kept.tail).zipIdx.map fun ((start, stop), n) =>
    ⟨n + 1, .kept, true, some ((points.take (stop.2 + 1)).drop start.2)⟩
  ⟨kept.map (·.1), legs, true, legs.length + 1⟩

/-! ## Edits -/

/-- `newLeg`. -/
def newLeg (draft : RouteDraft ν) (mode : NewLegMode) : Leg ν × RouteDraft ν :=
  (⟨draft.nextId, mode.leg, false, none⟩, { draft with nextId := draft.nextId + 1 })

/-- `append`. -/
def append (draft : RouteDraft ν) (place : LatLon ν) (mode : NewLegMode) : RouteDraft ν :=
  if draft.handles.length = 0 then { draft with handles := [place] }
  else
    let (leg, next) := newLeg draft mode
    { next with handles := draft.handles ++ [place], legs := draft.legs ++ [leg] }

/-- The leg `side` made again, if there is one: a turn of the loop of `moveHandle`. -/
def remake (mode : NewLegMode) (draft : RouteDraft ν) (side : Nat) : RouteDraft ν :=
  if draft.legs.length ≤ side then draft
  else
    let (leg, after) := newLeg draft mode
    { after with legs := draft.legs.set side leg }

/-- `moveHandle`. -/
def moveHandle (draft : RouteDraft ν) (index : Nat) (place : LatLon ν) (mode : NewLegMode) :
    RouteDraft ν :=
  let next := { draft with handles := draft.handles.set index place }
  let next := if index = 0 then next else remake mode next (index - 1)
  remake mode next index

/-- `removeHandle`. It has no answer where it returns the draft it was given, here and below. -/
def removeHandle (draft : RouteDraft ν) (index : Nat) (mode : NewLegMode) : Option (RouteDraft ν) :=
  if draft.handles.length ≤ index then none
  else
    let handles := draft.handles.eraseIdx index
    if index = 0 then some { draft with handles, legs := draft.legs.drop 1 }
    else if index = draft.handles.length - 1 then some { draft with handles, legs := draft.legs.dropLast }
    else
      let (leg, next) := newLeg draft mode
      some { next with handles, legs := draft.legs.take (index - 1) ++ leg :: draft.legs.drop (index + 1) }

/-- `startAt`. -/
def startAt (draft : RouteDraft ν) (index : Nat) : RouteDraft ν :=
  { draft with handles := draft.handles.drop index, legs := draft.legs.drop index }

/-- `endAt`. -/
def endAt (draft : RouteDraft ν) (index : Nat) : RouteDraft ν :=
  { draft with handles := draft.handles.take (index + 1), legs := draft.legs.take index }

/-- `isLoop`: the ends are nearer than `LOOP_CLOSED_M`. -/
def isLoop (draft : RouteDraft ν) (near : LatLon ν → LatLon ν → Bool) : Bool :=
  match draft.handles.head?, draft.handles.getLast? with
  | some first, some last => 2 < draft.handles.length && near first last
  | _, _ => false

/-- `closeLoop`. -/
def closeLoop (draft : RouteDraft ν) (near : LatLon ν → LatLon ν → Bool) (mode : NewLegMode) :
    Option (RouteDraft ν) :=
  match draft.handles.head? with
  | none => none
  | some first =>
    if draft.handles.length < 2 ∨ draft.isLoop near then none else some (append draft first mode)

/-- The legs of `reverse`, each of which may take an id from the draft. -/
def turned (draft : RouteDraft ν) : List (Leg ν) → List (Leg ν) × RouteDraft ν
  | [] => ([], draft)
  | leg :: legs =>
    match leg.points with
    | some points =>
      let (rest, next) := turned draft legs
      ({ leg with points := some points.reverse } :: rest, next)
    | none =>
      let (fresh, after) := newLeg draft leg.mode.renewed
      let (rest, next) := turned after legs
      (fresh :: rest, next)

/-- `reverse`. -/
def reverse (draft : RouteDraft ν) : RouteDraft ν :=
  let (legs, next) := turned draft draft.legs.reverse
  { next with handles := draft.handles.reverse, legs }

/-- `resolveLeg`. -/
def resolveLeg (draft : RouteDraft ν) (id : Nat) (points : List (RoutePoint ν)) : RouteDraft ν :=
  { draft with legs := draft.legs.map fun leg =>
      if leg.id = id ∧ leg.points.isNone then { leg with points := some points } else leg }

/-- What is to be asked for the leg `legs[i]`, if it waits. -/
def pendingAt (handles : List (LatLon ν)) (leg : Leg ν) (i : Nat) : Option (PendingLeg ν) :=
  match leg.points, leg.mode, handles[i]?, handles[i + 1]? with
  | none, .path, some fromPlace, some toPlace => some ⟨leg.id, .path, fromPlace, toPlace⟩
  | none, .line, some fromPlace, some toPlace => some ⟨leg.id, .line, fromPlace, toPlace⟩
  | _, _, _, _ => none

/-- `pendingLegs`. -/
def pendingLegs (draft : RouteDraft ν) : List (PendingLeg ν) :=
  draft.legs.zipIdx.filterMap fun (leg, i) => pendingAt draft.handles leg i

/-- `legPoints`, for a leg that is there. -/
def legPoints (draft : RouteDraft ν) (leg : Leg ν) (index : Nat) : Option (List (RoutePoint ν)) :=
  match leg.points, draft.handles[index]?, draft.handles[index + 1]? with
  | some points, _, _ => some points
  | none, some a, some b => some [⟨a, none⟩, ⟨b, none⟩]
  | none, _, _ => none

section
variable [Add ν] [Sub ν] [Mul ν]

/-- The point on the way from `a` to `b`. -/
def between (a b : RoutePoint ν) (t : ν) : RoutePoint ν where
  lat := a.lat + (b.lat - a.lat) * t
  lon := a.lon + (b.lon - a.lon) * t
  ele := do
    let aEle ← a.ele
    let bEle ← b.ele
    some (aEle + (bEle - aEle) * t)

/-- `insertAt`. It has no answer where the pass names no leg or no step of it: there the source throws. -/
def insertAt (draft : RouteDraft ν) (pass : Pass ν) : Option (RouteDraft ν) := do
  let leg ← draft.legs[pass.leg]?
  let points ← legPoints draft leg pass.leg
  if pass.step = 0 then none
  else
    let split := between (← points[pass.step - 1]?) (← points[pass.step]?) pass.t
    let handles := draft.handles.take (pass.leg + 1) ++ split.toLatLon :: draft.handles.drop (pass.leg + 1)
    let (halves, next) : List (Leg ν) × RouteDraft ν :=
      if leg.points.isSome then
        ([{ leg with id := draft.nextId, mode := .kept, points := some (points.take pass.step ++ [split]) },
          { leg with
            id := draft.nextId + 1
            mode := .kept
            points := some (split :: points.drop pass.step) }],
          { draft with nextId := draft.nextId + 2 })
      else
        let (first, after) := newLeg draft leg.mode.renewed
        let (second, last) := newLeg after leg.mode.renewed
        ([first, second], last)
    some { next with
      handles
      legs := draft.legs.take pass.leg ++ halves ++ draft.legs.drop (pass.leg + 1) }

end

end RouteDraft

/-- An edit of the route. -/
inductive Edit (ν : Type) where
  | append (place : LatLon ν) (mode : NewLegMode)
  | moveHandle (index : Nat) (place : LatLon ν) (mode : NewLegMode)
  | removeHandle (index : Nat) (mode : NewLegMode)
  | insertAt (pass : Pass ν)
  | reverse
  | startAt (index : Nat)
  | endAt (index : Nat)
  | closeLoop (mode : NewLegMode)

/-- The new draft, or none where the draft stays the one it was. -/
def Edit.apply [Add ν] [Sub ν] [Mul ν] (near : LatLon ν → LatLon ν → Bool) (draft : RouteDraft ν) :
    Edit ν → Option (RouteDraft ν)
  | .append place mode => some (draft.append place mode)
  | .moveHandle index place mode => some (draft.moveHandle index place mode)
  | .removeHandle index mode => draft.removeHandle index mode
  | .insertAt pass => draft.insertAt pass
  | .reverse => some draft.reverse
  | .startAt index => some (draft.startAt index)
  | .endAt index => some (draft.endAt index)
  | .closeLoop mode => draft.closeLoop near mode

/-! ## Well-formed drafts -/

namespace RouteDraft

/-- A leg between each two handles, under ids that the draft has given out, and a line wherever the leg
was kept. -/
structure WellFormed (draft : RouteDraft ν) : Prop where
  length : draft.legs.length = draft.handles.length - 1
  nodup : (draft.legs.map (·.id)).Nodup
  lt : ∀ leg ∈ draft.legs, leg.id < draft.nextId
  line : ∀ leg ∈ draft.legs, leg.points = none → leg.mode ≠ .kept

/-- What an edit makes of a draft: every leg that waits in the new draft waited there before, or has an id
that the old one had not given out. -/
structure Edited (draft next : RouteDraft ν) : Prop where
  wellFormed : next.WellFormed
  nextId : draft.nextId ≤ next.nextId
  pending : ∀ q ∈ next.pendingLegs, q ∈ draft.pendingLegs ∨ draft.nextId ≤ q.id

section
variable {draft next : RouteDraft ν} {q : PendingLeg ν} {leg : Leg ν} {place : LatLon ν}
variable {mode : NewLegMode} {index : Nat}

/-- The waiting legs, by the place they have in the draft. -/
theorem mem_pendingLegs : q ∈ draft.pendingLegs ↔ ∃ i leg, draft.legs[i]? = some leg ∧
    leg.points = none ∧ leg.mode = q.mode.leg ∧ leg.id = q.id ∧ draft.handles[i]? = some q.fromPlace ∧
    draft.handles[i + 1]? = some q.toPlace := by
  have hat (leg : Leg ν) (i : Nat) : pendingAt draft.handles leg i = some q ↔ leg.points = none ∧
      leg.mode = q.mode.leg ∧ leg.id = q.id ∧ draft.handles[i]? = some q.fromPlace ∧
      draft.handles[i + 1]? = some q.toPlace := by
    obtain ⟨id, mode, fromPlace, toPlace⟩ := q
    unfold pendingAt
    split <;> cases mode <;> simp_all [NewLegMode.leg]
  simp only [pendingLegs, List.mem_filterMap, Prod.exists, List.mem_zipIdx_iff_getElem?, hat]
  exact exists_comm

theorem WellFormed.lt_of_pending (h : draft.WellFormed) (hq : q ∈ draft.pendingLegs) : q.id < draft.nextId := by
  obtain ⟨i, leg, hleg, -, -, hid, -, -⟩ := mem_pendingLegs.1 hq
  exact hid ▸ h.lt leg (List.mem_of_getElem? hleg)

theorem WellFormed.pending_unique {q' : PendingLeg ν} (h : draft.WellFormed) (hq : q ∈ draft.pendingLegs)
    (hq' : q' ∈ draft.pendingLegs) (hid : q.id = q'.id) : q = q' := by
  obtain ⟨i, leg, hleg, -, hmode, hlegid, hfrom, hto⟩ := mem_pendingLegs.1 hq
  obtain ⟨j, leg', hleg', -, hmode', hlegid', hfrom', hto'⟩ := mem_pendingLegs.1 hq'
  have hi : i < (draft.legs.map (·.id)).length := by
    rw [List.length_map]
    exact (List.getElem?_eq_some_iff.1 hleg).1
  obtain rfl : i = j := (List.getElem?_inj hi h.nodup).1 (by
    rw [List.getElem?_map, List.getElem?_map, hleg, hleg', Option.map_some, Option.map_some, hlegid, hlegid', hid])
  rw [hleg] at hleg'
  obtain rfl := Option.some.inj hleg'
  obtain ⟨id, mode, fromPlace, toPlace⟩ := q
  obtain ⟨id', mode', fromPlace', toPlace'⟩ := q'
  obtain rfl : mode = mode' := by
    rw [hmode] at hmode'
    cases mode <;> cases mode' <;> first | rfl | cases hmode'
  obtain rfl : id = id' := hid
  obtain rfl := Option.some.inj (hfrom.symm.trans hfrom')
  obtain rfl := Option.some.inj (hto.symm.trans hto')
  rfl

/-- A leg without a line is asked for. -/
theorem WellFormed.waits {i : Nat} (h : draft.WellFormed) (hleg : draft.legs[i]? = some leg)
    (hpoints : leg.points = none) : ∃ q ∈ draft.pendingLegs, q.id = leg.id ∧ leg.mode = q.mode.leg ∧
      draft.handles[i]? = some q.fromPlace ∧ draft.handles[i + 1]? = some q.toPlace := by
  have hlt : i < draft.legs.length := (List.getElem?_eq_some_iff.1 hleg).1
  have hlength := h.length
  have hfrom : draft.handles[i]? = some draft.handles[i] := List.getElem?_eq_getElem (by omega)
  have hto : draft.handles[i + 1]? = some draft.handles[i + 1] := List.getElem?_eq_getElem (by omega)
  obtain ⟨mode, hmode⟩ : ∃ mode : NewLegMode, leg.mode = mode.leg := by
    cases hmode : leg.mode with
    | kept => exact absurd hmode (h.line leg (List.mem_of_getElem? hleg) hpoints)
    | path => exact ⟨.path, rfl⟩
    | line => exact ⟨.line, rfl⟩
  exact ⟨⟨leg.id, mode, _, _⟩, mem_pendingLegs.2 ⟨i, leg, hleg, hpoints, hmode, rfl, hfrom, hto⟩,
    rfl, hmode, hfrom, hto⟩

/-! ## What the edits do -/

theorem emptyDraft_wellFormed : (emptyDraft : RouteDraft ν).WellFormed where
  length := rfl
  nodup := List.nodup_nil
  lt := nofun
  line := nofun

theorem startAt_edited (h : draft.WellFormed) : draft.Edited (draft.startAt index) where
  wellFormed := {
    length := by simp only [startAt, List.length_drop, h.length]; omega
    nodup := ((List.drop_sublist index draft.legs).map _).nodup h.nodup
    lt := fun leg hleg => h.lt leg (List.mem_of_mem_drop hleg)
    line := fun leg hleg => h.line leg (List.mem_of_mem_drop hleg) }
  nextId := le_rfl
  pending q hq := by
    obtain ⟨i, leg, hleg, hpoints, hmode, hid, hfrom, hto⟩ := mem_pendingLegs.1 hq
    simp only [startAt, List.getElem?_drop] at hleg hfrom hto
    exact .inl (mem_pendingLegs.2 ⟨_, leg, hleg, hpoints, hmode, hid, hfrom, hto⟩)

theorem endAt_edited (h : draft.WellFormed) : draft.Edited (draft.endAt index) where
  wellFormed := {
    length := by simp only [endAt, List.length_take, h.length]; omega
    nodup := ((List.take_sublist index draft.legs).map _).nodup h.nodup
    lt := fun leg hleg => h.lt leg (List.mem_of_mem_take hleg)
    line := fun leg hleg => h.line leg (List.mem_of_mem_take hleg) }
  nextId := le_rfl
  pending q hq := by
    obtain ⟨i, leg, hleg, hpoints, hmode, hid, hfrom, hto⟩ := mem_pendingLegs.1 hq
    simp only [endAt, List.getElem?_take] at hleg hfrom hto
    split at hleg
    · rw [if_pos (by omega)] at hfrom hto
      exact .inl (mem_pendingLegs.2 ⟨i, leg, hleg, hpoints, hmode, hid, hfrom, hto⟩)
    · cases hleg

/-- The ids with a new one behind them. -/
theorem nodup_concat (h : draft.WellFormed) : ((draft.legs.map (·.id)) ++ [draft.nextId]).Nodup := by
  rw [List.nodup_append]
  refine ⟨h.nodup, List.nodup_singleton _, fun a ha b hb => ?_⟩
  obtain ⟨leg, hleg, rfl⟩ := List.mem_map.1 ha
  rw [List.mem_singleton.1 hb]
  exact (h.lt leg hleg).ne

theorem append_edited (h : draft.WellFormed) : draft.Edited (draft.append place mode) := by
  unfold append
  split
  · next hnone =>
    have hlegs : draft.legs = [] := List.eq_nil_of_length_eq_zero (by rw [h.length, hnone])
    refine ⟨⟨by simp [hlegs], by simp [hlegs], by simp [hlegs], by simp [hlegs]⟩, le_rfl, fun q hq => ?_⟩
    simp [pendingLegs, hlegs] at hq
  next hsome =>
  have hlength : draft.handles.length = draft.legs.length + 1 := by rw [h.length]; omega
  refine ⟨⟨?_, ?_, ?_, ?_⟩, Nat.le_succ _, fun q hq => ?_⟩
  · simp [newLeg, hlength]
  · simpa [newLeg] using nodup_concat h
  · simp only [newLeg, List.mem_append, List.mem_singleton]
    rintro leg (hleg | rfl)
    · exact (h.lt leg hleg).trans (Nat.lt_succ_self _)
    · exact Nat.lt_succ_self _
  · simp only [newLeg, List.mem_append, List.mem_singleton]
    rintro leg (hleg | rfl) hpoints
    · exact h.line leg hleg hpoints
    · cases mode <;> nofun
  · obtain ⟨i, leg, hleg, hpoints, hmode, hid, hfrom, hto⟩ := mem_pendingLegs.1 hq
    simp only [newLeg, List.getElem?_append] at hleg hfrom hto
    split at hleg
    · rw [if_pos (by omega)] at hfrom hto
      exact .inl (mem_pendingLegs.2 ⟨i, leg, hleg, hpoints, hmode, hid, hfrom, hto⟩)
    · right
      obtain rfl := List.mem_singleton.1 (List.mem_of_getElem? hleg)
      exact hid.le

/-- A leg that is made again has a new id, and every other leg stays in its place. -/
theorem remake_getElem? {side i : Nat} (h : (remake mode draft side).legs[i]? = some leg) :
    i = side ∧ draft.nextId ≤ leg.id ∨ i ≠ side ∧ draft.legs[i]? = some leg := by
  unfold remake at h
  split at h
  · next hside =>
    refine .inr ⟨?_, h⟩
    rintro rfl
    rw [List.getElem?_eq_none hside] at h
    cases h
  · by_cases hi : i = side
    · subst hi
      simp only [newLeg, List.getElem?_set_self'] at h
      obtain ⟨_, -, rfl⟩ := Option.map_eq_some_iff.1 h
      exact .inl ⟨rfl, le_rfl⟩
    · refine .inr ⟨hi, ?_⟩
      simpa [newLeg, List.getElem?_set_ne (Ne.symm hi)] using h

theorem remake_wellFormed {side : Nat} (h : draft.WellFormed) : (remake mode draft side).WellFormed := by
  unfold remake
  split
  · exact h
  refine ⟨by simpa [newLeg] using h.length, ?_, fun leg hleg => ?_, fun leg hleg hpoints => ?_⟩
  · simp only [newLeg, List.map_set]
    refine h.nodup.set fun hmem => ?_
    obtain ⟨leg, hleg, hid⟩ := List.mem_map.1 hmem
    exact absurd (h.lt leg hleg) (by omega)
  · rcases List.mem_or_eq_of_mem_set hleg with hleg | rfl
    · exact (h.lt leg hleg).trans (Nat.lt_succ_self _)
    · exact Nat.lt_succ_self _
  · rcases List.mem_or_eq_of_mem_set hleg with hleg | rfl
    · exact h.line leg hleg hpoints
    · cases mode <;> nofun

theorem remake_frame (mode : NewLegMode) (draft : RouteDraft ν) (side : Nat) :
    (remake mode draft side).handles = draft.handles ∧ draft.nextId ≤ (remake mode draft side).nextId := by
  unfold remake
  split
  · exact ⟨rfl, le_rfl⟩
  · exact ⟨rfl, Nat.le_succ _⟩

theorem moveHandle_edited (h : draft.WellFormed) : draft.Edited (draft.moveHandle index place mode) := by
  let moved : RouteDraft ν := { draft with handles := draft.handles.set index place }
  let before := if index = 0 then moved else remake mode moved (index - 1)
  have hmoved : moved.WellFormed := ⟨by simpa [moved] using h.length, h.nodup, h.lt, h.line⟩
  have hbefore : before.WellFormed ∧ before.handles = moved.handles ∧ draft.nextId ≤ before.nextId ∧
      ∀ i leg, before.legs[i]? = some leg →
        draft.nextId ≤ leg.id ∨ (i + 1 ≠ index ∧ draft.legs[i]? = some leg) := by
    by_cases hzero : index = 0
    · rw [show before = moved from if_pos hzero]
      exact ⟨hmoved, rfl, le_rfl, fun i leg hleg => .inr ⟨by omega, hleg⟩⟩
    · rw [show before = remake mode moved (index - 1) from if_neg hzero]
      obtain ⟨hhandles, hnext⟩ := remake_frame mode moved (index - 1)
      refine ⟨remake_wellFormed hmoved, hhandles, hnext, fun i leg hleg => ?_⟩
      rcases remake_getElem? hleg with ⟨-, hid⟩ | ⟨hi, hold⟩
      · exact .inl hid
      · exact .inr ⟨by omega, hold⟩
  obtain ⟨hwf, hhandles, hnext, hlegs⟩ := hbefore
  obtain ⟨hhandles', hnext'⟩ := remake_frame mode before index
  refine ⟨remake_wellFormed hwf, hnext.trans hnext', fun q hq => ?_⟩
  obtain ⟨i, leg, hleg, hpoints, hmode, hid, hfrom, hto⟩ := mem_pendingLegs.1 hq
  rw [show (draft.moveHandle index place mode).handles = moved.handles from hhandles'.trans hhandles] at hfrom hto
  rcases remake_getElem? hleg with ⟨-, hnew⟩ | ⟨hi, hleg⟩
  · exact .inr (hid ▸ hnext.trans hnew)
  rcases hlegs i leg hleg with hnew | ⟨hi', hold⟩
  · exact .inr (hid ▸ hnew)
  · -- neither end of the leg has moved
    rw [List.getElem?_set_ne (Ne.symm hi)] at hfrom
    rw [List.getElem?_set_ne (Ne.symm hi')] at hto
    exact .inl (mem_pendingLegs.2 ⟨i, leg, hold, hpoints, hmode, hid, hfrom, hto⟩)

theorem take_append_drop_sublist {α : Type} (l : List α) {a b : Nat} (h : a ≤ b) :
    (l.take a ++ l.drop b).Sublist l := by
  have hdrop : (l.drop b).Sublist (l.drop a) := List.drop_sublist_drop_left l h
  simpa using (List.Sublist.refl (l.take a)).append hdrop

theorem removeHandle_edited (h : draft.WellFormed) (hn : draft.removeHandle index mode = some next) :
    draft.Edited next := by
  unfold removeHandle at hn
  split at hn
  · cases hn
  next hindex =>
  have hlength := h.length
  dsimp only at hn
  split at hn
  · next hzero =>
    subst hzero
    cases hn
    rw [List.eraseIdx_zero, ← List.drop_one]
    exact startAt_edited h
  next hzero =>
  split at hn
  · next hlast =>
    cases hn
    have hends : draft.Edited (draft.endAt (index - 1)) := endAt_edited h
    rw [endAt, show index - 1 + 1 = index by omega] at hends
    rw [List.dropLast_eq_take, show draft.legs.length - 1 = index - 1 by omega,
      List.eraseIdx_eq_take_drop_succ, List.drop_eq_nil_of_le (by omega), List.append_nil]
    exact hends
  next hlast =>
  cases hn
  have hsub := take_append_drop_sublist draft.legs (show index - 1 ≤ index + 1 by omega)
  have hmem {leg : Leg ν} (hleg : leg ∈ draft.legs.take (index - 1) ++ (newLeg draft mode).1 ::
      draft.legs.drop (index + 1)) : leg = (newLeg draft mode).1 ∨ leg ∈ draft.legs := by
    rcases List.mem_append.1 hleg with hleg | hleg
    · exact .inr (List.mem_of_mem_take hleg)
    · exact (List.mem_cons.1 hleg).imp_right List.mem_of_mem_drop
  refine ⟨⟨?_, ?_, fun leg hleg => ?_, fun leg hleg hpoints => ?_⟩, Nat.le_succ _, fun q hq => ?_⟩
  · simp only [newLeg, List.length_append, List.length_take, List.length_cons, List.length_drop,
      List.length_eraseIdx]
    split <;> omega
  · rw [newLeg, List.map_append, List.map_cons, List.nodup_middle, ← List.map_append, List.nodup_cons]
    refine ⟨fun hid => ?_, (hsub.map _).nodup h.nodup⟩
    obtain ⟨leg, hleg, hid⟩ := List.mem_map.1 hid
    exact (h.lt leg (hsub.subset hleg)).ne hid
  · rcases hmem hleg with rfl | hleg
    · exact Nat.lt_succ_self _
    · exact (h.lt leg hleg).trans (Nat.lt_succ_self _)
  · rcases hmem hleg with rfl | hleg
    · cases mode <;> nofun
    · exact h.line leg hleg hpoints
  · obtain ⟨i, leg, hleg, hpoints, hmode, hid, hfrom, hto⟩ := mem_pendingLegs.1 hq
    simp only [newLeg, List.getElem?_append, List.length_take, List.getElem?_eraseIdx] at hleg hfrom hto
    split at hleg
    · next hi =>
      rw [if_pos (by omega)] at hfrom hto
      rw [List.getElem?_take_of_lt (by omega)] at hleg
      exact .inl (mem_pendingLegs.2 ⟨i, leg, hleg, hpoints, hmode, hid, hfrom, hto⟩)
    · next hi =>
      by_cases hnew : i = index - 1
      · right
        rw [show i - min (index - 1) draft.legs.length = 0 by omega] at hleg
        cases hleg
        exact hid.le
      · rw [if_neg (by omega)] at hfrom hto
        obtain ⟨k, hk⟩ : ∃ k, i - min (index - 1) draft.legs.length = k + 1 := ⟨i - index, by omega⟩
        rw [hk, List.getElem?_cons_succ, List.getElem?_drop, show index + 1 + k = i + 1 by omega] at hleg
        exact .inl (mem_pendingLegs.2 ⟨i + 1, leg, hleg, hpoints, hmode, hid, hfrom, hto⟩)

/-- The legs of `reverse`: what waits is new, and what has its line keeps its id. -/
theorem turned_spec (draft : RouteDraft ν) (legs : List (Leg ν)) (hlt : ∀ leg ∈ legs, leg.id < draft.nextId)
    (hnodup : (legs.map (·.id)).Nodup) :
    (turned draft legs).1.length = legs.length ∧ draft.nextId ≤ (turned draft legs).2.nextId ∧
    ((turned draft legs).1.map (·.id)).Nodup ∧
    ∀ leg ∈ (turned draft legs).1, leg.id < (turned draft legs).2.nextId ∧
      (leg.points ≠ none ∧ (∃ old ∈ legs, old.id = leg.id) ∨ leg.mode ≠ .kept ∧ draft.nextId ≤ leg.id) := by
  induction legs generalizing draft with
  | nil => exact ⟨rfl, le_rfl, List.nodup_nil, nofun⟩
  | cons leg legs ih =>
    rw [List.map_cons, List.nodup_cons] at hnodup
    have hhead := hlt leg (List.mem_cons_self ..)
    have htail : ∀ leg ∈ legs, leg.id < draft.nextId := fun l hl => hlt l (List.mem_cons_of_mem _ hl)
    unfold turned
    cases hpoints : leg.points with
    | some points =>
      obtain ⟨hlength, hnext, hdistinct, hlegs⟩ := ih draft htail hnodup.2
      refine ⟨by simp [hlength], hnext, List.nodup_cons.2 ⟨fun hmem => ?_, hdistinct⟩, fun l hl => ?_⟩
      · obtain ⟨l, hl, hid⟩ := List.mem_map.1 hmem
        dsimp only at hid
        rcases (hlegs l hl).2 with ⟨-, old, hold, hsame⟩ | ⟨-, hnew⟩
        · exact hnodup.1 (List.mem_map.2 ⟨old, hold, hsame.trans hid⟩)
        · omega
      · rcases List.mem_cons.1 hl with rfl | hl
        · exact ⟨hhead.trans_le hnext, .inl ⟨nofun, leg, List.mem_cons_self .., rfl⟩⟩
        · refine ⟨(hlegs l hl).1, (hlegs l hl).2.imp_left ?_⟩
          rintro ⟨hline, old, hold, hsame⟩
          exact ⟨hline, old, List.mem_cons_of_mem _ hold, hsame⟩
    | none =>
      obtain ⟨hlength, hnext, hdistinct, hlegs⟩ :=
        ih (newLeg draft leg.mode.renewed).2 (fun l hl => (htail l hl).trans (Nat.lt_succ_self _)) hnodup.2
      have hnext' : draft.nextId + 1 ≤ (turned (newLeg draft leg.mode.renewed).2 legs).2.nextId := hnext
      have hlegs' (l : Leg ν) (hl : l ∈ (turned (newLeg draft leg.mode.renewed).2 legs).1) :
          (∃ old ∈ legs, old.id = l.id) ∨ draft.nextId + 1 ≤ l.id := (hlegs l hl).2.imp And.right And.right
      refine ⟨by simp [hlength], Nat.le_of_succ_le hnext', List.nodup_cons.2 ⟨fun hmem => ?_, hdistinct⟩, fun l hl => ?_⟩
      · obtain ⟨l, hl, hid⟩ := List.mem_map.1 hmem
        replace hid : l.id = draft.nextId := hid
        rcases hlegs' l hl with ⟨old, hold, hsame⟩ | hnew
        · exact absurd (htail old hold) (by omega)
        · omega
      · rcases List.mem_cons.1 hl with rfl | hl
        · refine ⟨hnext', .inr ⟨?_, le_rfl⟩⟩
          cases hmode : leg.mode <;> simp [newLeg, LegMode.renewed, NewLegMode.leg]
        · refine ⟨(hlegs l hl).1, (hlegs l hl).2.imp ?_ ?_⟩
          · rintro ⟨hline, old, hold, hsame⟩
            exact ⟨hline, old, List.mem_cons_of_mem _ hold, hsame⟩
          · exact fun ⟨hmode, hnew⟩ => ⟨hmode, Nat.le_of_succ_le hnew⟩

theorem reverse_edited (h : draft.WellFormed) : draft.Edited draft.reverse := by
  obtain ⟨hlength, hnext, hdistinct, hlegs⟩ := turned_spec draft draft.legs.reverse
    (fun leg hleg => h.lt leg (List.mem_reverse.1 hleg))
    (by rw [List.map_reverse, List.nodup_reverse]; exact h.nodup)
  refine ⟨⟨?_, hdistinct, fun leg hleg => (hlegs leg hleg).1, fun leg hleg hpoints => ?_⟩, hnext, fun q hq => ?_⟩
  · change (turned draft draft.legs.reverse).1.length = draft.handles.reverse.length - 1
    rw [hlength, List.length_reverse, List.length_reverse, h.length]
  · exact ((hlegs leg hleg).2.resolve_left fun hold => hold.1 hpoints).1
  · obtain ⟨i, leg, hleg, hpoints, -, hid, -⟩ := mem_pendingLegs.1 hq
    have hnew := (hlegs leg (List.mem_of_getElem? hleg)).2.resolve_left fun hold => hold.1 hpoints
    exact .inr (hid ▸ hnew.2)

theorem closeLoop_edited {near : LatLon ν → LatLon ν → Bool} (h : draft.WellFormed)
    (hn : draft.closeLoop near mode = some next) : draft.Edited next := by
  unfold closeLoop at hn
  split at hn
  · cases hn
  split at hn
  · cases hn
  · cases hn
    exact append_edited h

/-- A leg is split in two, at a new handle. -/
theorem split_edited {k : Nat} {first second : Leg ν} (h : draft.WellFormed) (hk : k < draft.legs.length)
    (hfirst : first.id = draft.nextId) (hsecond : second.id = draft.nextId + 1)
    (hline : ∀ leg ∈ [first, second], leg.points = none → leg.mode ≠ .kept) :
    draft.Edited { draft with
      nextId := draft.nextId + 2
      handles := draft.handles.take (k + 1) ++ place :: draft.handles.drop (k + 1)
      legs := draft.legs.take k ++ [first, second] ++ draft.legs.drop (k + 1) } := by
  have hlength := h.length
  have hsub := take_append_drop_sublist draft.legs (Nat.le_succ k)
  have hmem {leg : Leg ν} (hleg : leg ∈ draft.legs.take k ++ [first, second] ++ draft.legs.drop (k + 1)) :
      leg ∈ [first, second] ∨ leg ∈ draft.legs := by
    rcases List.mem_append.1 hleg with hleg | hleg
    · exact (List.mem_append.1 hleg).symm.imp_right List.mem_of_mem_take
    · exact .inr (List.mem_of_mem_drop hleg)
  have hnew {leg : Leg ν} (hleg : leg ∈ [first, second]) : draft.nextId ≤ leg.id ∧ leg.id < draft.nextId + 2 := by
    simp only [List.mem_cons, List.not_mem_nil, or_false] at hleg
    rcases hleg with rfl | rfl <;> omega
  refine ⟨⟨?_, ?_, fun leg hleg => ?_, fun leg hleg hpoints => ?_⟩, Nat.le_add_right .., fun q hq => ?_⟩
  · simp only [List.length_append, List.length_take, List.length_cons, List.length_nil, List.length_drop]
    omega
  · have hperm : (draft.legs.take k ++ [first, second] ++ draft.legs.drop (k + 1)).Perm
        ([first, second] ++ (draft.legs.take k ++ draft.legs.drop (k + 1))) := by
      rw [List.append_assoc]
      exact List.perm_append_comm_assoc _ _ _
    refine (hperm.map _).nodup_iff.2 ?_
    rw [List.map_append, List.nodup_append]
    refine ⟨by simp [hfirst, hsecond], (hsub.map _).nodup h.nodup, fun a ha b hb => ?_⟩
    obtain ⟨leg, hleg, rfl⟩ := List.mem_map.1 ha
    obtain ⟨old, hold, rfl⟩ := List.mem_map.1 hb
    exact ((h.lt old (hsub.subset hold)).trans_le (hnew hleg).1).ne'
  · rcases hmem hleg with hleg | hleg
    · exact (hnew hleg).2
    · exact (h.lt leg hleg).trans_le (Nat.le_add_right ..)
  · rcases hmem hleg with hleg | hleg
    · exact hline leg hleg hpoints
    · exact h.line leg hleg hpoints
  · obtain ⟨i, leg, hleg, hpoints, hmode, hid, hfrom, hto⟩ := mem_pendingLegs.1 hq
    by_cases hmid : leg ∈ [first, second]
    · exact .inr (hid ▸ (hnew hmid).1)
    left
    simp only [List.getElem?_append, List.length_append, List.length_take, List.length_cons,
      List.length_nil] at hleg hfrom hto
    split at hleg
    · split at hleg
      · rw [if_pos (by omega)] at hfrom hto
        rw [List.getElem?_take_of_lt (by omega)] at hleg hfrom hto
        exact mem_pendingLegs.2 ⟨i, leg, hleg, hpoints, hmode, hid, hfrom, hto⟩
      · exact absurd (List.mem_of_getElem? hleg) hmid
    · -- behind the split every place is one further
      obtain ⟨n, rfl⟩ : ∃ n, i = k + 2 + n := ⟨i - (k + 2), by omega⟩
      rw [if_neg (by omega)] at hfrom hto
      rw [List.getElem?_drop, show k + 1 + (k + 2 + n - (min k draft.legs.length + (0 + 1 + 1))) = k + 1 + n
        by omega] at hleg
      rw [show k + 2 + n - min (k + 1) draft.handles.length = n + 1 by omega, List.getElem?_cons_succ,
        List.getElem?_drop] at hfrom
      rw [show k + 2 + n + 1 - min (k + 1) draft.handles.length = n + 2 by omega, List.getElem?_cons_succ,
        List.getElem?_drop] at hto
      exact mem_pendingLegs.2 ⟨k + 1 + n, leg, hleg, hpoints, hmode, hid, hfrom, hto⟩

theorem insertAt_edited [Add ν] [Sub ν] [Mul ν] {pass : Pass ν} (h : draft.WellFormed)
    (hn : draft.insertAt pass = some next) : draft.Edited next := by
  simp only [insertAt, Option.bind_eq_bind, Option.bind_eq_some_iff] at hn
  obtain ⟨leg, hleg, points, hpoints, hn⟩ := hn
  split at hn
  · cases hn
  simp only [Option.bind_eq_some_iff] at hn
  obtain ⟨a, -, b, -, hn⟩ := hn
  have hk : pass.leg < draft.legs.length := (List.getElem?_eq_some_iff.1 hleg).1
  cases hline : leg.points with
  | some line =>
    simp only [hline, Option.isSome_some, if_true] at hn
    cases hn
    exact split_edited h hk rfl rfl (by simp)
  | none =>
    simp only [hline, Option.isSome_none, Bool.false_eq_true, if_false] at hn
    cases hn
    refine split_edited h hk rfl rfl fun l hl _ => ?_
    simp only [newLeg, List.mem_cons, List.not_mem_nil, or_false] at hl
    rcases hl with rfl | rfl <;> cases leg.mode <;> nofun

/-! ## Answers -/

theorem mem_resolveLeg {id : Nat} {points : List (RoutePoint ν)} (hleg : leg ∈ (draft.resolveLeg id points).legs) :
    ∃ old ∈ draft.legs, old.id = leg.id ∧ old.mode = leg.mode ∧ (leg.points = none → old.points = none) := by
  obtain ⟨old, hold, rfl⟩ := List.mem_map.1 hleg
  refine ⟨old, hold, ?_⟩
  split
  · exact ⟨rfl, rfl, nofun⟩
  · exact ⟨rfl, rfl, fun h => h⟩

theorem resolveLeg_wellFormed (h : draft.WellFormed) (id : Nat) (points : List (RoutePoint ν)) :
    (draft.resolveLeg id points).WellFormed where
  length := by simpa [resolveLeg] using h.length
  nodup := by
    have hids : (draft.resolveLeg id points).legs.map (·.id) = draft.legs.map (·.id) := by
      rw [resolveLeg, List.map_map]
      refine List.map_congr_left fun leg _ => ?_
      dsimp only [Function.comp]
      split <;> rfl
    exact hids ▸ h.nodup
  lt leg hleg := by
    obtain ⟨old, hold, hid, -⟩ := mem_resolveLeg hleg
    exact hid ▸ h.lt old hold
  line leg hleg hpoints := by
    obtain ⟨old, hold, -, hmode, hwait⟩ := mem_resolveLeg hleg
    exact hmode ▸ h.line old hold (hwait hpoints)

/-- An answer is written into the legs that wait under its id, and no other leg changes. -/
theorem mem_pendingLegs_resolveLeg {id : Nat} {points : List (RoutePoint ν)} :
    q ∈ (draft.resolveLeg id points).pendingLegs ↔ q ∈ draft.pendingLegs ∧ q.id ≠ id := by
  rw [mem_pendingLegs, mem_pendingLegs]
  constructor
  · rintro ⟨i, leg, hleg, hpoints, hmode, hid, hfrom, hto⟩
    simp only [resolveLeg, List.getElem?_map, Option.map_eq_some_iff] at hleg
    obtain ⟨old, hold, rfl⟩ := hleg
    split at hpoints
    · cases hpoints
    next hother =>
    rw [if_neg hother] at hmode hid
    refine ⟨⟨i, old, hold, hpoints, hmode, hid, hfrom, hto⟩, fun hq => hother ⟨hid.trans hq, ?_⟩⟩
    rw [hpoints]
    rfl
  · rintro ⟨⟨i, leg, hleg, hpoints, hmode, hid, hfrom, hto⟩, hq⟩
    refine ⟨i, leg, ?_, hpoints, hmode, hid, hfrom, hto⟩
    simp only [resolveLeg, List.getElem?_map, hleg, Option.map_some]
    rw [if_neg fun h => hq (hid ▸ h.1)]

end

/-- A line from a file: every leg is there already. -/
theorem draftFromPoints_wellFormed (simplify : List (LatLon ν × Nat) → Nat → List (LatLon ν × Nat))
    (points : List (RoutePoint ν)) : (draftFromPoints simplify points).WellFormed where
  length := by simp [draftFromPoints]
  nodup := by
    let kept := simplify (points.zipIdx.map fun (p, i) => (p.toLatLon, i)) maxHandlesFromFile
    have hids : (draftFromPoints simplify points).legs.map (·.id) =
        (List.range' 0 (kept.zip kept.tail).length).map (· + 1) := by
      rw [← List.zipIdx_map_snd 0 (kept.zip kept.tail), List.map_map]
      simp only [draftFromPoints, List.map_map]
      rfl
    rw [hids]
    exact (List.nodup_range' ..).map (add_left_injective 1)
  lt leg hleg := by
    simp only [draftFromPoints, List.mem_map] at hleg ⊢
    obtain ⟨x, hx, rfl⟩ := hleg
    rw [List.length_map, List.length_zipIdx]
    exact Nat.succ_lt_succ (List.snd_lt_of_mem_zipIdx hx)
  line leg hleg hpoints := by
    simp only [draftFromPoints, List.mem_map] at hleg
    obtain ⟨x, -, rfl⟩ := hleg
    cases hpoints

/-- Every edit keeps a draft well-formed. -/
theorem Edited.of_apply [Add ν] [Sub ν] [Mul ν] {near : LatLon ν → LatLon ν → Bool} {draft next : RouteDraft ν}
    {edit : Edit ν} (h : draft.WellFormed) (hn : edit.apply near draft = some next) : draft.Edited next := by
  cases edit with
  | append place mode => cases hn; exact append_edited h
  | moveHandle index place mode => cases hn; exact moveHandle_edited h
  | removeHandle index mode => exact removeHandle_edited h hn
  | insertAt pass => exact insertAt_edited h hn
  | reverse => cases hn; exact reverse_edited h
  | startAt index => cases hn; exact startAt_edited h
  | endAt index => cases hn; exact endAt_edited h
  | closeLoop mode => exact closeLoop_edited h hn

end RouteDraft

end JitPack
