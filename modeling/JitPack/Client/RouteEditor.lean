import JitPack.Lib.Machine
import JitPack.Client.Route

/-!
# The route editor

`composables/routeEditor.ts`: the draft, its undo and redo, and the requests its new legs make. A request
is remembered by the id of its leg. An id is counted by the draft, so an undo turns the count back, and an
edit that follows may give out an id under which a request for another leg is still remembered.
`settles_iff_fresh` proves that this is the only thing that can go wrong: a run keeps answers to their own
legs (`RouteEditor.Settles`) exactly as long as no edit does it.

`dispose` is left out: it ends the run. Only there a straight line is not answered (`fetchStraight`).
-/

namespace JitPack

/-- `TrackKind`. -/
inductive TrackKind where
  | hike
  | bike
  deriving DecidableEq

/-- How far a request is: the router was asked, or the straight line, which a router without a path falls
back to, or the answer is written and what `finally` does is still to come. -/
inductive Stage where
  | router
  | straight
  | written
  deriving DecidableEq

/-- A request that `asked` remembers. -/
structure LegRequest (ν : Type) where
  leg : PendingLeg ν
  kind : TrackKind
  stage : Stage

/-- The state of `createRouteEditor`. The last draft of either stack is on its top. -/
structure RouteEditor (ν : Type) where
  current : RouteDraft ν
  undos : List (RouteDraft ν)
  redos : List (RouteDraft ν)
  kind : TrackKind
  asked : List (LegRequest ν)
  /-- How many wait for `settled`. -/
  waiters : Nat

/-- What happens to the editor: the user edits, or a request comes one stage further. -/
inductive EditorCall (ν : Type) where
  | edit (change : Edit ν)
  | undo
  | redo
  | setKind (kind : TrackKind)
  | settled
  | noPath (id : Nat)
  | answer (id : Nat) (points : List (RoutePoint ν))
  | finish (id : Nat)

namespace RouteEditor

variable {ν : Type}

/-- `wake`. -/
def wake (editor : RouteEditor ν) : RouteEditor ν :=
  if editor.current.pendingLegs.isEmpty then { editor with waiters := 0 } else editor

/-- A turn of the loop of `ask`. -/
def askFor (kind : TrackKind) (asked : List (LegRequest ν)) (leg : PendingLeg ν) : List (LegRequest ν) :=
  if asked.any (·.leg.id = leg.id) then asked
  else asked ++ [⟨leg, kind, match leg.mode with | .path => .router | .line => .straight⟩]

/-- `ask`. -/
def ask (editor : RouteEditor ν) : RouteEditor ν :=
  wake { editor with asked := editor.current.pendingLegs.foldl (askFor editor.kind) editor.asked }

/-- `createRouteEditor`. -/
def create (draft : RouteDraft ν) (kind : TrackKind) : RouteEditor ν := ask ⟨draft, [], [], kind, [], 0⟩

/-- `resolveEverywhere`. -/
def resolveEverywhere (editor : RouteEditor ν) (id : Nat) (points : List (RoutePoint ν)) : RouteEditor ν :=
  { editor with
    current := editor.current.resolveLeg id points
    undos := editor.undos.map (·.resolveLeg id points)
    redos := editor.redos.map (·.resolveLeg id points) }

/-- `edit`, for what the change has made of the draft. -/
def edit (editor : RouteEditor ν) (next : Option (RouteDraft ν)) : RouteEditor ν :=
  match next with
  | none => editor
  | some next => ask { editor with undos := editor.undos ++ [editor.current], redos := [], current := next }

/-- `undo`. -/
def undo (editor : RouteEditor ν) : RouteEditor ν :=
  match editor.undos.getLast? with
  | none => editor
  | some last => ask { editor with
      redos := editor.redos ++ [editor.current], undos := editor.undos.dropLast, current := last }

/-- `redo`. -/
def redo (editor : RouteEditor ν) : RouteEditor ν :=
  match editor.redos.getLast? with
  | none => editor
  | some last => ask { editor with
      undos := editor.undos ++ [editor.current], redos := editor.redos.dropLast, current := last }

/-- `settled`. -/
def settled (editor : RouteEditor ν) : RouteEditor ν :=
  if editor.current.pendingLegs.isEmpty then editor else { editor with waiters := editor.waiters + 1 }

/-- The request under the id comes to a stage. -/
def reach (editor : RouteEditor ν) (id : Nat) (stage : Stage) : RouteEditor ν :=
  { editor with asked := editor.asked.map fun r => if r.leg.id = id then { r with stage } else r }

/-- The request under the id is at one of the stages. -/
def isAt (editor : RouteEditor ν) (id : Nat) (stages : List Stage) : Bool :=
  editor.asked.any fun r => r.leg.id = id && r.stage ∈ stages

/-- What follows a call. A request that is not at the stage for it is not moved. -/
def next [Add ν] [Sub ν] [Mul ν] (near : LatLon ν → LatLon ν → Bool) (editor : RouteEditor ν) :
    EditorCall ν → RouteEditor ν
  | .edit change => editor.edit (change.apply near editor.current)
  | .undo => editor.undo
  | .redo => editor.redo
  | .setKind kind => { editor with kind }
  | .settled => editor.settled
  | .noPath id => if editor.isAt id [.router] then editor.reach id .straight else editor
  | .answer id points =>
    if editor.isAt id [.router, .straight] then (editor.resolveEverywhere id points).reach id .written
    else editor
  | .finish id =>
    if editor.isAt id [.written] then wake { editor with asked := editor.asked.filter (·.leg.id ≠ id) }
    else editor

/-- The drafts that the editor holds, each the work of an edit of the one before. -/
def drafts (editor : RouteEditor ν) : List (RouteDraft ν) :=
  editor.undos ++ [editor.current] ++ editor.redos.reverse

end RouteEditor

/-- The editor as a machine. -/
def routeEditor {ν : Type} [Add ν] [Sub ν] [Mul ν] (near : LatLon ν → LatLon ν → Bool) :
    Machine (RouteEditor ν) (EditorCall ν) Unit where
  step editor call := ((), editor.next near call)

namespace RouteEditor

variable {ν : Type}

/-- Answers reach only their legs, and every leg that is waited for has a request on the way. -/
structure Settles (editor : RouteEditor ν) : Prop where
  shaped : ∀ draft ∈ editor.drafts, draft.legs.length = draft.handles.length - 1 ∧
    (draft.legs.map (·.id)).Nodup ∧ ∀ leg ∈ draft.legs, leg.id < draft.nextId
  /-- A leg that an answer would be written into is the one the request was made for. -/
  own : ∀ r ∈ editor.asked, r.stage ≠ .written → ∀ draft ∈ editor.drafts, ∀ i leg,
    draft.legs[i]? = some leg → leg.points = none → leg.id = r.leg.id →
      leg.mode = r.leg.mode.leg ∧ draft.handles[i]? = some r.leg.fromPlace ∧
        draft.handles[i + 1]? = some r.leg.toPlace
  inFlight : ∀ q ∈ editor.current.pendingLegs, ∃ r ∈ editor.asked, r.stage ≠ .written ∧ r.leg = q
  settled : editor.asked = [] → editor.waiters = 0

end RouteEditor

/-- An edit gives no leg an id under which the editor remembers a request for another leg, or one that
has been answered. -/
def EditorCall.Fresh {ν : Type} [Add ν] [Sub ν] [Mul ν] (near : LatLon ν → LatLon ν → Bool)
    (editor : RouteEditor ν) : EditorCall ν → Prop
  | .edit change => ∀ next, change.apply near editor.current = some next → ∀ q ∈ next.pendingLegs,
      ∀ r ∈ editor.asked, r.leg.id = q.id → r.stage ≠ .written ∧ r.leg = q
  | _ => True

namespace RouteEditor

section
variable {ν : Type} {editor : RouteEditor ν} {draft draft' : RouteDraft ν} {q q' : PendingLeg ν}
variable {asked : List (LegRequest ν)} {legs : List (PendingLeg ν)} {kind : TrackKind}

/-! ## Asking -/

/-- No two requests are remembered under one id. -/
def AskedOnce (asked : List (LegRequest ν)) : Prop := (asked.map (·.leg.id)).Nodup

theorem askFor_old {r : LegRequest ν} (leg : PendingLeg ν) (h : r ∈ asked) : r ∈ askFor kind asked leg := by
  unfold askFor
  split
  · exact h
  · exact List.mem_append_left _ h

/-- A request that is new was made for the leg, and nothing was remembered under its id. -/
theorem askFor_cases {leg : PendingLeg ν} {r : LegRequest ν} (h : r ∈ askFor kind asked leg) :
    r ∈ asked ∨ r.leg = leg ∧ r.stage ≠ .written ∧ ∀ r' ∈ asked, r'.leg.id ≠ leg.id := by
  unfold askFor at h
  split at h
  · exact .inl h
  next hnew =>
  rcases List.mem_append.1 h with h | h
  · exact .inl h
  · obtain rfl := List.mem_singleton.1 h
    refine .inr ⟨rfl, ?_, by simpa using hnew⟩
    cases leg.mode <;> simp

theorem askFor_once {leg : PendingLeg ν} (h : AskedOnce asked) : AskedOnce (askFor kind asked leg) := by
  unfold askFor
  split
  · exact h
  next hnew =>
  unfold AskedOnce
  rw [List.map_append, List.nodup_append]
  refine ⟨h, List.nodup_singleton _, fun a ha b hb => ?_⟩
  obtain ⟨r, hr, rfl⟩ := List.mem_map.1 ha
  rw [List.mem_singleton.1 hb]
  simp only [List.any_eq_true, decide_eq_true_eq, not_exists, not_and] at hnew
  exact hnew r hr

theorem asked_for (kind : TrackKind) (asked : List (LegRequest ν)) (leg : PendingLeg ν) :
    ∃ r ∈ askFor kind asked leg, r.leg.id = leg.id := by
  unfold askFor
  split
  · next h =>
    obtain ⟨r, hr, hid⟩ := List.any_eq_true.1 h
    exact ⟨r, hr, of_decide_eq_true hid⟩
  · exact ⟨_, List.mem_append_right _ (List.mem_singleton_self _), rfl⟩

/-- What `ask` makes of the requests: the old ones are still there, a new one is for a leg under whose id
there was none, and every leg has one under its id. -/
theorem askFor_foldl (kind : TrackKind) (legs : List (PendingLeg ν)) (asked : List (LegRequest ν)) :
    (∀ r ∈ asked, r ∈ legs.foldl (askFor kind) asked) ∧
    (∀ r ∈ legs.foldl (askFor kind) asked, r ∈ asked ∨ r.leg ∈ legs ∧ r.stage ≠ .written) ∧
    (∀ q ∈ legs, ∃ r ∈ legs.foldl (askFor kind) asked, r.leg.id = q.id) ∧
    (AskedOnce asked → AskedOnce (legs.foldl (askFor kind) asked)) := by
  induction legs generalizing asked with
  | nil => exact ⟨fun r h => h, fun r h => .inl h, nofun, fun h => h⟩
  | cons leg legs ih =>
    obtain ⟨hold, hnew, hall, honce⟩ := ih (askFor kind asked leg)
    refine ⟨fun r h => hold r (askFor_old leg h), fun r h => ?_, fun q hq => ?_, fun h => honce (askFor_once h)⟩
    · rcases hnew r h with h | ⟨h, hstage⟩
      · refine (askFor_cases h).imp_right ?_
        rintro ⟨rfl, hstage, -⟩
        exact ⟨List.mem_cons_self .., hstage⟩
      · exact .inr ⟨List.mem_cons_of_mem _ h, hstage⟩
    · rcases List.mem_cons.1 hq with rfl | hq
      · obtain ⟨r, hr, hid⟩ := asked_for kind asked q
        exact ⟨r, hold r hr, hid⟩
      · exact hall q hq

/-! ## The invariant -/

/-- The drafts agree on what waits under an id, they stand in the order in which their ids were given out,
and what waits under the id of a request is what the request was made for. -/
structure Agreed (editor : RouteEditor ν) : Prop where
  wellFormed : ∀ draft ∈ editor.drafts, draft.WellFormed
  sorted : editor.drafts.Pairwise fun draft later => draft.nextId ≤ later.nextId
  agree : ∀ draft ∈ editor.drafts, ∀ draft' ∈ editor.drafts, ∀ q ∈ draft.pendingLegs,
    ∀ q' ∈ draft'.pendingLegs, q.id = q'.id → q = q'
  once : AskedOnce editor.asked
  own : ∀ r ∈ editor.asked, ∀ draft ∈ editor.drafts, ∀ q ∈ draft.pendingLegs, q.id = r.leg.id →
    r.stage ≠ .written ∧ q = r.leg

/-- What every run of fresh edits keeps. -/
structure Kept (editor : RouteEditor ν) : Prop extends Agreed editor where
  asks : ∀ q ∈ editor.current.pendingLegs, ∃ r ∈ editor.asked, r.leg.id = q.id
  waits : editor.waiters ≠ 0 → editor.current.pendingLegs ≠ [] ∨ ∃ r ∈ editor.asked, r.stage = .written

theorem current_mem : editor.current ∈ editor.drafts :=
  List.mem_append_left _ (List.mem_append_right _ (List.mem_singleton_self _))

theorem AskedOnce.eq {r r' : LegRequest ν} (h : AskedOnce asked) (hr : r ∈ asked) (hr' : r' ∈ asked)
    (hid : r.leg.id = r'.leg.id) : r = r' :=
  List.inj_on_of_nodup_map h hr hr' hid

@[simp] theorem wake_drafts : editor.wake.drafts = editor.drafts := by
  unfold wake
  split <;> rfl

@[simp] theorem wake_asked : editor.wake.asked = editor.asked := by
  unfold wake
  split <;> rfl

@[simp] theorem wake_current : editor.wake.current = editor.current := by
  unfold wake
  split <;> rfl

theorem wake_waiters (editor : RouteEditor ν) (h : editor.wake.waiters ≠ 0) : editor.current.pendingLegs ≠ [] := by
  unfold wake at h
  split at h
  · exact absurd rfl h
  · next hwait => exact fun hnone => hwait (by rw [hnone]; rfl)

@[simp] theorem ask_drafts : editor.ask.drafts = editor.drafts := wake_drafts

@[simp] theorem ask_current : editor.ask.current = editor.current := wake_current

theorem ask_asked :
    editor.ask.asked = editor.current.pendingLegs.foldl (askFor editor.kind) editor.asked := wake_asked

theorem ask_waiters (h : editor.ask.waiters ≠ 0) : editor.current.pendingLegs ≠ [] := by
  have hwait := wake_waiters _ h
  exact hwait

/-- What the drafts agree on is asked for. -/
theorem Agreed.ask (h : editor.Agreed) : editor.ask.Kept := by
  obtain ⟨-, hnew, hall, honce⟩ := askFor_foldl editor.kind editor.current.pendingLegs editor.asked
  refine ⟨⟨?_, ?_, ?_, ?_, fun r hr draft hdraft q hq hid => ?_⟩, fun q hq => ?_, fun hw => .inl ?_⟩
  · rw [ask_drafts]; exact h.wellFormed
  · rw [ask_drafts]; exact h.sorted
  · rw [ask_drafts]; exact h.agree
  · rw [ask_asked]; exact honce h.once
  · rw [ask_asked] at hr
    rw [ask_drafts] at hdraft
    rcases hnew r hr with hr | ⟨hr, hstage⟩
    · exact h.own r hr draft hdraft q hq hid
    · exact ⟨hstage, h.agree draft hdraft _ current_mem q hq r.leg hr hid⟩
  · rw [ask_current] at hq
    rw [ask_asked]
    exact hall q hq
  · rw [ask_current]
    exact ask_waiters hw

theorem create_kept (h : draft.WellFormed) (kind : TrackKind) : (create draft kind).Kept := by
  have honly {d : RouteDraft ν} (hd : d ∈ drafts ⟨draft, [], [], kind, [], 0⟩) : d = draft :=
    List.mem_singleton.1 hd
  refine Agreed.ask ⟨fun d hd => ?_, List.pairwise_singleton .., fun d hd d' hd' q hq q' hq' hid => ?_,
    List.nodup_nil, nofun⟩
  · exact honly hd ▸ h
  · rw [honly hd] at hq
    rw [honly hd'] at hq'
    exact h.pending_unique hq hq' hid

theorem Agreed.congr {editor' : RouteEditor ν} (h : editor.Agreed) (hdrafts : editor'.drafts = editor.drafts)
    (hasked : editor'.asked = editor.asked) : editor'.Agreed where
  wellFormed := hdrafts ▸ h.wellFormed
  sorted := hdrafts ▸ h.sorted
  agree := hdrafts ▸ h.agree
  once := hasked ▸ h.once
  own := by rw [hdrafts, hasked]; exact h.own

/-! ## What a call keeps -/

theorem edit_kept [Add ν] [Sub ν] [Mul ν] {near : LatLon ν → LatLon ν → Bool} {change : Edit ν}
    (h : editor.Kept) (hfresh : EditorCall.Fresh near editor (.edit change)) :
    (editor.next near (.edit change)).Kept := by
  show (editor.edit (change.apply near editor.current)).Kept
  cases hnext : change.apply near editor.current with
  | none => exact h
  | some next =>
    have hnew := RouteDraft.Edited.of_apply (h.wellFormed _ current_mem) hnext
    have hold {d : RouteDraft ν} (hd : d ∈ editor.undos ++ [editor.current]) : d ∈ editor.drafts :=
      List.mem_append_left _ hd
    have hle {d : RouteDraft ν} (hd : d ∈ editor.undos ++ [editor.current]) :
        d.nextId ≤ editor.current.nextId := by
      rcases List.mem_append.1 hd with hd | hd
      · exact (List.pairwise_append.1 (List.pairwise_append.1 h.sorted).1).2.2 d hd _ (List.mem_singleton_self _)
      · rw [List.mem_singleton.1 hd]
    -- an id of the new draft is one that waited in the old one, or no draft has given it out
    have hcross {d : RouteDraft ν} (hd : d ∈ editor.undos ++ [editor.current]) {q q' : PendingLeg ν}
        (hq : q ∈ d.pendingLegs) (hq' : q' ∈ next.pendingLegs) (hid : q.id = q'.id) : q = q' := by
      rcases hnew.pending q' hq' with hq' | hq'
      · exact h.agree d (hold hd) _ current_mem q hq q' hq' hid
      · have hlt := (h.wellFormed d (hold hd)).lt_of_pending hq
        have := hle hd
        omega
    have hmem {d : RouteDraft ν} (hd : d ∈ editor.undos ++ [editor.current] ++ [next] ++ [].reverse) :
        d ∈ editor.undos ++ [editor.current] ∨ d = next := by
      rw [List.reverse_nil, List.append_nil] at hd
      exact (List.mem_append.1 hd).imp_right List.mem_singleton.1
    refine Agreed.ask ⟨fun d hd => ?_, ?_, fun d hd d' hd' q hq q' hq' hid => ?_, h.once, fun r hr d hd q hq hid => ?_⟩
    · rcases hmem hd with hd | rfl
      · exact h.wellFormed d (hold hd)
      · exact hnew.wellFormed
    · show List.Pairwise _ (editor.undos ++ [editor.current] ++ [next] ++ [].reverse)
      rw [List.reverse_nil, List.append_nil, List.pairwise_append]
      refine ⟨(List.pairwise_append.1 h.sorted).1, List.pairwise_singleton .., fun d hd d' hd' => ?_⟩
      rw [List.mem_singleton.1 hd']
      exact (hle hd).trans hnew.nextId
    · rcases hmem hd with hin | rfl
      · rcases hmem hd' with hin' | rfl
        · exact h.agree d (hold hin) d' (hold hin') q hq q' hq' hid
        · exact hcross hin hq hq' hid
      · rcases hmem hd' with hin' | rfl
        · exact (hcross hin' hq' hq hid.symm).symm
        · exact hnew.wellFormed.pending_unique hq hq' hid
    · rcases hmem hd with hd | rfl
      · exact h.own r hr d (hold hd) q hq hid
      · obtain ⟨hstage, hleg⟩ := hfresh _ hnext q hq r hr hid.symm
        exact ⟨hstage, hleg.symm⟩

/-- An undo moves along the drafts. -/
theorem undo_kept (h : editor.Kept) : editor.undo.Kept := by
  unfold undo
  cases hlast : editor.undos.getLast? with
  | none => exact h
  | some last =>
    refine Agreed.ask (h.toAgreed.congr ?_ rfl)
    have hundos := List.dropLast_append_getLast? last hlast
    simp only [drafts, List.reverse_append, List.reverse_singleton]
    rw [hundos, ← List.append_assoc]

theorem redo_kept (h : editor.Kept) : editor.redo.Kept := by
  unfold redo
  cases hlast : editor.redos.getLast? with
  | none => exact h
  | some last =>
    refine Agreed.ask (h.toAgreed.congr ?_ rfl)
    have hredos := List.dropLast_append_getLast? last hlast
    show editor.undos ++ [editor.current] ++ [last] ++ editor.redos.dropLast.reverse =
      editor.undos ++ [editor.current] ++ editor.redos.reverse
    conv_rhs => rw [← hredos, List.reverse_append, List.reverse_singleton]
    rw [List.append_assoc]

theorem settled_kept (h : editor.Kept) : editor.settled.Kept := by
  unfold settled
  split
  · exact h
  · next hwait =>
    refine ⟨h.toAgreed.congr rfl rfl, h.asks, fun _ => .inl fun hnone => hwait ?_⟩
    show editor.current.pendingLegs.isEmpty = true
    rw [hnone]
    rfl

/-! ### The requests -/

theorem reach_mem {id : Nat} {stage : Stage} {r : LegRequest ν} (h : r ∈ (editor.reach id stage).asked) :
    r.leg.id ≠ id ∧ r ∈ editor.asked ∨ r.leg.id = id ∧ r.stage = stage ∧ ∃ old ∈ editor.asked, old.leg = r.leg := by
  obtain ⟨old, hold, rfl⟩ := List.mem_map.1 h
  split
  · next hid => exact .inr ⟨hid, rfl, old, hold, rfl⟩
  · next hid => exact .inl ⟨hid, hold⟩

/-- The request under the id is one that `isAt` sees. -/
theorem AskedOnce.isAt {id : Nat} {stages : List Stage} {r : LegRequest ν} (h : AskedOnce editor.asked)
    (hat : editor.isAt id stages = true) (hr : r ∈ editor.asked) (hid : r.leg.id = id) : r.stage ∈ stages := by
  obtain ⟨r', hr', hstage⟩ := List.any_eq_true.1 hat
  simp only [Bool.and_eq_true, decide_eq_true_eq] at hstage
  rw [h.eq hr hr' (hid.trans hstage.1.symm)]
  exact hstage.2

theorem isAt_exists {id : Nat} {stages : List Stage} (hat : editor.isAt id stages = true) :
    ∃ r ∈ editor.asked, r.leg.id = id ∧ r.stage ∈ stages := by
  obtain ⟨r, hr, hstage⟩ := List.any_eq_true.1 hat
  simp only [Bool.and_eq_true, decide_eq_true_eq] at hstage
  exact ⟨r, hr, hstage⟩

theorem reach_old (editor : RouteEditor ν) (id : Nat) (stage : Stage) {r : LegRequest ν} (h : r ∈ editor.asked) :
    ∃ r' ∈ (editor.reach id stage).asked, r'.leg = r.leg ∧ (r.leg.id ≠ id → r' = r) ∧
      (r.leg.id = id → r'.stage = stage) := by
  refine ⟨_, List.mem_map_of_mem h, ?_⟩
  split
  · next hid => exact ⟨rfl, fun hne => absurd hid hne, fun _ => rfl⟩
  · next hid => exact ⟨rfl, fun _ => rfl, fun heq => absurd heq hid⟩

theorem AskedOnce.reach {id : Nat} {stage : Stage} (h : AskedOnce editor.asked) :
    AskedOnce (editor.reach id stage).asked := by
  have hids : (editor.reach id stage).asked.map (·.leg.id) = editor.asked.map (·.leg.id) := by
    rw [RouteEditor.reach, List.map_map]
    refine List.map_congr_left fun r _ => ?_
    dsimp only [Function.comp]
    split <;> rfl
  unfold AskedOnce
  rw [hids]
  exact h

theorem noPath_kept {id : Nat} (h : editor.Kept) (hat : editor.isAt id [.router] = true) :
    (editor.reach id .straight).Kept := by
  refine ⟨⟨h.wellFormed, h.sorted, h.agree, h.once.reach, fun r hr draft hdraft q hq hid => ?_⟩,
    fun q hq => ?_, fun hw => (h.waits hw).imp_right ?_⟩
  · rcases reach_mem hr with ⟨-, hr⟩ | ⟨-, hstage, old, hold, hleg⟩
    · exact h.own r hr draft hdraft q hq hid
    · obtain ⟨-, hq⟩ := h.own old hold draft hdraft q hq (by rw [hleg, hid])
      exact ⟨by rw [hstage]; nofun, hq.trans hleg⟩
  · obtain ⟨r, hr, hid⟩ := h.asks q hq
    obtain ⟨r', hr', hleg, -⟩ := reach_old editor id .straight hr
    exact ⟨r', hr', hleg ▸ hid⟩
  · -- what is written is not what the router is still asked for
    rintro ⟨r, hr, hstage⟩
    have hne : r.leg.id ≠ id := fun hid => by
      have := h.once.isAt hat hr hid
      rw [hstage, List.mem_singleton] at this
      cases this
    obtain ⟨r', hr', -, hsame, -⟩ := reach_old editor id .straight hr
    exact ⟨r', hr', hsame hne ▸ hstage⟩

theorem resolveEverywhere_drafts (editor : RouteEditor ν) (id : Nat) (points : List (RoutePoint ν)) :
    (editor.resolveEverywhere id points).drafts = editor.drafts.map (·.resolveLeg id points) := by
  simp [resolveEverywhere, drafts]

/-- An answer ends the wait of every leg under its id, and of no other. -/
theorem answer_kept {id : Nat} {points : List (RoutePoint ν)} {stages : List Stage} (h : editor.Kept)
    (hat : editor.isAt id stages = true) : ((editor.resolveEverywhere id points).reach id .written).Kept := by
  have hdraft {d : RouteDraft ν} (hd : d ∈ ((editor.resolveEverywhere id points).reach id .written).drafts) :
      ∃ old ∈ editor.drafts, old.resolveLeg id points = d := by
    refine List.mem_map.1 ?_
    rw [← resolveEverywhere_drafts]
    exact hd
  refine ⟨⟨fun d hd => ?_, ?_, fun d hd d' hd' q hq q' hq' hid => ?_, h.once.reach, fun r hr d hd q hq hid => ?_⟩,
    fun q hq => ?_, fun _ => .inr ?_⟩
  · obtain ⟨old, hold, rfl⟩ := hdraft hd
    exact RouteDraft.resolveLeg_wellFormed (h.wellFormed old hold) id points
  · show (editor.resolveEverywhere id points).drafts.Pairwise _
    rw [resolveEverywhere_drafts, List.pairwise_map]
    exact h.sorted
  · obtain ⟨old, hold, rfl⟩ := hdraft hd
    obtain ⟨old', hold', rfl⟩ := hdraft hd'
    exact h.agree old hold old' hold' q (RouteDraft.mem_pendingLegs_resolveLeg.1 hq).1 q'
      (RouteDraft.mem_pendingLegs_resolveLeg.1 hq').1 hid
  · obtain ⟨old, hold, rfl⟩ := hdraft hd
    obtain ⟨hq, hne⟩ := RouteDraft.mem_pendingLegs_resolveLeg.1 hq
    rcases reach_mem hr with ⟨-, hr⟩ | ⟨hrid, -⟩
    · exact h.own r hr old hold q hq hid
    · exact absurd (hid.trans hrid) hne
  · obtain ⟨r, hr, hid⟩ := h.asks q (RouteDraft.mem_pendingLegs_resolveLeg.1 hq).1
    obtain ⟨r', hr', hleg, -⟩ := reach_old (editor.resolveEverywhere id points) id .written hr
    exact ⟨r', hr', hleg ▸ hid⟩
  · obtain ⟨r, hr, hid, -⟩ := isAt_exists hat
    obtain ⟨r', hr', -, -, hstage⟩ := reach_old (editor.resolveEverywhere id points) id .written hr
    exact ⟨r', hr', hstage hid⟩

theorem finish_kept {id : Nat} (h : editor.Kept) (hat : editor.isAt id [.written] = true) :
    (wake { editor with asked := editor.asked.filter (·.leg.id ≠ id) }).Kept := by
  have hsub {r : LegRequest ν} (hr : r ∈ editor.asked.filter (·.leg.id ≠ id)) : r ∈ editor.asked :=
    List.mem_of_mem_filter hr
  refine ⟨⟨?_, ?_, ?_, ?_, fun r hr draft hdraft q hq hid => ?_⟩, fun q hq => ?_, fun hw => .inl ?_⟩
  · rw [wake_drafts]; exact h.wellFormed
  · rw [wake_drafts]; exact h.sorted
  · rw [wake_drafts]; exact h.agree
  · rw [wake_asked]
    exact (List.filter_sublist.map _).nodup h.once
  · rw [wake_asked] at hr
    rw [wake_drafts] at hdraft
    exact h.own r (hsub hr) draft hdraft q hq hid
  · rw [wake_current] at hq
    rw [wake_asked]
    obtain ⟨r, hr, hid⟩ := h.asks q hq
    refine ⟨r, List.mem_filter.2 ⟨hr, decide_eq_true fun hrid => ?_⟩, hid⟩
    have hstage := h.once.isAt hat hr hrid
    exact (h.own r hr _ current_mem q hq hid.symm).1 (List.mem_singleton.1 hstage)
  · rw [wake_current]
    exact wake_waiters _ hw

theorem next_kept [Add ν] [Sub ν] [Mul ν] {near : LatLon ν → LatLon ν → Bool} {call : EditorCall ν}
    (h : editor.Kept) (hfresh : EditorCall.Fresh near editor call) : (editor.next near call).Kept := by
  cases call with
  | edit change => exact edit_kept h hfresh
  | undo => exact undo_kept h
  | redo => exact redo_kept h
  | setKind kind => exact ⟨h.toAgreed.congr rfl rfl, h.asks, h.waits⟩
  | settled => exact settled_kept h
  | noPath id =>
    simp only [next]
    split
    · next hat => exact noPath_kept h hat
    · exact h
  | answer id points =>
    simp only [next]
    split
    · next hat => exact answer_kept h hat
    · exact h
  | finish id =>
    simp only [next]
    split
    · next hat => exact finish_kept h hat
    · exact h

theorem Kept.settles (h : editor.Kept) : editor.Settles where
  shaped draft hdraft := ⟨(h.wellFormed draft hdraft).length, (h.wellFormed draft hdraft).nodup,
    (h.wellFormed draft hdraft).lt⟩
  own r hr hstage draft hdraft i leg hleg hpoints hid := by
    obtain ⟨q, hq, hqid, hmode, hfrom, hto⟩ := (h.wellFormed draft hdraft).waits hleg hpoints
    obtain ⟨-, rfl⟩ := h.own r hr draft hdraft q hq (hqid.trans hid)
    exact ⟨hmode, hfrom, hto⟩
  inFlight q hq := by
    obtain ⟨r, hr, hid⟩ := h.asks q hq
    obtain ⟨hstage, hleg⟩ := h.own r hr _ current_mem q hq hid.symm
    exact ⟨r, hr, hstage, hleg.symm⟩
  settled hnone := by
    by_contra hw
    rcases h.waits hw with hwait | ⟨r, hr, -⟩
    · obtain ⟨q, hq⟩ := List.exists_mem_of_ne_nil _ hwait
      obtain ⟨r, hr, -⟩ := h.asks q hq
      rw [hnone] at hr
      cases hr
    · rw [hnone] at hr
      cases hr

/-- An edit after which every leg is asked for gave out no id of an older request. -/
theorem Settles.fresh [Add ν] [Sub ν] [Mul ν] {near : LatLon ν → LatLon ν → Bool} {call : EditorCall ν}
    (h : (editor.next near call).Settles) (honce : AskedOnce editor.asked) : EditorCall.Fresh near editor call := by
  cases call with
  | edit change =>
    intro next hnext q hq r hr hid
    have hedit : editor.next near (.edit change) = ask { editor with
        undos := editor.undos ++ [editor.current], redos := [], current := next } := by
      show editor.edit (change.apply near editor.current) = _
      rw [hnext]
      rfl
    rw [hedit] at h
    obtain ⟨hold, -, -, hkeep⟩ := askFor_foldl editor.kind next.pendingLegs editor.asked
    obtain ⟨r', hr', hstage, hleg⟩ := h.inFlight q (by rw [ask_current]; exact hq)
    rw [ask_asked] at hr'
    obtain rfl := (hkeep honce).eq hr' (hold r hr) (by rw [hleg, hid])
    exact ⟨hstage, hleg⟩
  | _ => trivial

theorem legal_of_settles [Add ν] [Sub ν] [Mul ν] {near : LatLon ν → LatLon ν → Bool}
    {calls : List (EditorCall ν)} (h : editor.Kept)
    (hsettles : ∀ pre post, calls = pre ++ post → ((routeEditor near).after editor pre).Settles) :
    (routeEditor near).Legal (EditorCall.Fresh near) editor calls := by
  induction calls generalizing editor with
  | nil => exact Machine.legal_nil
  | cons call calls ih =>
    have hfresh : EditorCall.Fresh near editor call := (hsettles [call] calls rfl).fresh h.once
    refine Machine.legal_cons.2 ⟨hfresh, ih (next_kept h hfresh) fun pre post hcalls => ?_⟩
    exact hsettles (call :: pre) post (by rw [hcalls, List.cons_append])

end

/-- **A run of the editor keeps answers to their own legs exactly as long as no edit gives out an id under
which another leg's request is remembered.** -/
theorem settles_iff_fresh {ν : Type} [Add ν] [Sub ν] [Mul ν] (near : LatLon ν → LatLon ν → Bool)
    {draft : RouteDraft ν} (h : draft.WellFormed) (kind : TrackKind) (calls : List (EditorCall ν)) :
    (∀ pre post, calls = pre ++ post → ((routeEditor near).after (create draft kind) pre).Settles) ↔
      (routeEditor near).Legal (EditorCall.Fresh near) (create draft kind) calls := by
  constructor
  · exact fun hsettles => legal_of_settles (create_kept h kind) hsettles
  · rintro hlegal pre post rfl
    have hkept : ((routeEditor near).after (create draft kind) pre).Kept :=
      Machine.after_invariant (fun _ _ hfresh hkept => next_kept hkept hfresh) (create_kept h kind)
        (Machine.Legal.append_left hlegal)
    exact hkept.settles

/-- Two legs are drawn, each with a request of its own. -/
theorem settles_two_legs :
    ((routeEditor fun _ _ => false).after (create (.emptyDraft : RouteDraft Int) .hike)
      [.edit (.append ⟨0, 0⟩ .line), .edit (.append ⟨1, 0⟩ .line), .edit (.append ⟨2, 0⟩ .path)]).Settles := by
  refine (settles_iff_fresh _ RouteDraft.emptyDraft_wellFormed _ _).2 ?_ _ [] (List.append_nil _).symm
  refine Machine.legal_cons.2 ⟨?_, Machine.legal_cons.2 ⟨?_, Machine.legal_cons.2 ⟨?_, Machine.legal_nil⟩⟩⟩
  · rintro next ⟨⟩ q hq r hr
    cases hr
  · rintro next ⟨⟩ q hq r hr
    cases hr
  · rintro next ⟨⟩
    decide

/-- A point is taken back and another one set in its place. The request for the first is still on the way, so
none is made for the second, and its answer is drawn into the way to the second. -/
theorem undo_answers_other_leg :
    ¬ ((routeEditor fun _ _ => false).after (create (.emptyDraft : RouteDraft Int) .hike)
        [.edit (.append ⟨0, 0⟩ .line), .edit (.append ⟨1, 0⟩ .line), .undo, .edit (.append ⟨5, 5⟩ .line)]).Settles ∧
    ((routeEditor fun _ _ => false).after (create (.emptyDraft : RouteDraft Int) .hike)
        [.edit (.append ⟨0, 0⟩ .line), .edit (.append ⟨1, 0⟩ .line), .undo, .edit (.append ⟨5, 5⟩ .line),
          .answer 1 [⟨⟨0, 0⟩, none⟩, ⟨⟨1, 0⟩, none⟩]]).current =
      ⟨[⟨0, 0⟩, ⟨5, 5⟩], [⟨1, .line, false, some [⟨⟨0, 0⟩, none⟩, ⟨⟨1, 0⟩, none⟩]⟩], false, 2⟩ := by
  refine ⟨fun h => ?_, rfl⟩
  obtain ⟨r, hr, -, hleg⟩ := h.inFlight ⟨1, .line, ⟨0, 0⟩, ⟨5, 5⟩⟩ (List.mem_singleton_self _)
  have hleg' : r.leg = ⟨1, .line, ⟨0, 0⟩, ⟨1, 0⟩⟩ := congrArg LegRequest.leg (List.mem_singleton.1 hr)
  rw [hleg', PendingLeg.mk.injEq] at hleg
  exact absurd hleg.2.2.2 (by decide)

end RouteEditor

end JitPack
