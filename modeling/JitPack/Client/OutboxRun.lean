import JitPack.Client.Outbox

/-!
# What the outbox keeps

A step is read once, as what it does to the queues, the open pushes and the writes (`Calls`, `Quiet`, `Answered`), and
from that all else follows. What the outbox holds was enqueued, and a write takes a mutation from what is pending only
where the server has answered or refused it (`BoxOf`), so that a mutation that has once reached the storage is kept there
until then (`Kept`).
-/

namespace JitPack

namespace Outbox

variable {cap : Nat} {box : SyncOutbox} {key k : PartitionKey} {m : Mutation} {s : State} {chunk queue : List Mutation}
  {entries : List ParkedMutation}

/-! ## The parts of a step -/

namespace SyncOutbox

theorem parkAll_nil : box.parkAll [] = box := rfl

theorem parkAll_cons (e : ParkedMutation) : box.parkAll (e :: entries) = (box.park e).parkAll entries := rfl

theorem parkAll_queues (h : ∀ e ∈ entries, e.partition = key) :
    (box.parkAll entries).queues =
      Function.update box.queues key
        ((box.queues key).filter (·.mutationID ∉ entries.map (·.mutation.mutationID))) := by
  induction entries generalizing box with
  | nil => simp [parkAll_nil]
  | cons e entries ih =>
    rw [List.forall_mem_cons] at h
    have hpark : (box.park e).queues =
        Function.update box.queues key ((box.queues key).filter (·.mutationID ≠ e.mutation.mutationID)) := by
      rw [← h.1]
      rfl
    rw [parkAll_cons, ih h.2, hpark, Function.update_idem, Function.update_self, List.filter_filter]
    simp [Bool.and_comm, not_or]

theorem parkAll_writes : (box.parkAll entries).writes = box.writes ++ entries.map .park := by
  induction entries generalizing box with
  | nil => simp [parkAll_nil]
  | cons e entries ih =>
    have hpark : (box.park e).writes = box.writes ++ [.park e] := rfl
    rw [parkAll_cons, ih, hpark]
    simp

theorem parkAll_draining : (box.parkAll entries).draining = box.draining := by
  induction entries generalizing box with
  | nil => rfl
  | cons e entries ih => exact ih

theorem parkAll_loaded : (box.parkAll entries).loaded = box.loaded := by
  induction entries generalizing box with
  | nil => rfl
  | cons e entries ih => exact ih

/-- A round of the loop hands out the next chunk, or goes on to the pull. -/
theorem pushFrom_cases (cap : Nat) (box : SyncOutbox) (key : PartitionKey) (array : Option (List Mutation))
    (offset : Nat) :
    (box.pushFrom cap key array offset).2.queues = box.queues ∧
      (box.pushFrom cap key array offset).2.writes = box.writes ∧
      (box.pushFrom cap key array offset).2.loaded = box.loaded ∧
      ((∃ chunk, chunk = ((array.getD (box.queues key)).drop offset).take cap ∧
          (array.getD (box.queues key)).drop offset ≠ [] ∧
          (box.pushFrom cap key array offset).1 = [.push key chunk] ∧
          (box.pushFrom cap key array offset).2.draining =
            Function.update box.draining key (some (.pushing array offset chunk))) ∨
        ((array.getD (box.queues key)).drop offset = [] ∧ (box.pushFrom cap key array offset).1 = [] ∧
          (box.pushFrom cap key array offset).2.draining =
            Function.update box.draining key (some (.pulling (box.cursors key))))) := by
  unfold pushFrom
  dsimp only
  split
  · next hlt => exact ⟨rfl, rfl, rfl, .inl ⟨_, rfl, by simpa [List.drop_eq_nil_iff] using hlt, rfl, rfl⟩⟩
  · next hge => exact ⟨rfl, rfl, rfl, .inr ⟨List.drop_eq_nil_iff.2 (not_lt.1 hge), rfl, rfl⟩⟩

/-- Nothing is pushed and nothing queued. -/
structure Quiet (box box' : SyncOutbox) : Prop where
  queues : box'.queues = box.queues
  writes : box'.writes = box.writes
  loaded : box'.loaded = box.loaded
  draining : ∀ k, box'.draining k = box.draining k ∨
    ∀ array offset chunk, box'.draining k ≠ some (.pushing array offset chunk)

theorem quiet_refl : Quiet box box := ⟨rfl, rfl, rfl, fun _ => .inl rfl⟩

theorem quiet_endDrain : Quiet box (box.endDrain key) := by
  refine ⟨rfl, rfl, rfl, fun k => ?_⟩
  by_cases hk : k = key
  · subst hk
    exact .inr (by simp [endDrain])
  · exact .inl (by simp [endDrain, hk])

theorem quiet_pull : Quiet box (box.pull key) := by
  refine ⟨rfl, rfl, rfl, fun k => ?_⟩
  by_cases hk : k = key
  · subst hk
    exact .inr (by simp [pull])
  · exact .inl (by simp [pull, hk])

theorem quiet_page (p : Page) : Quiet box (box.page key p).2 := by
  unfold page
  split
  · dsimp only
    split
    · exact ⟨rfl, rfl, rfl, (quiet_pull : Quiet { box with cursors := _ } _).draining⟩
    · exact ⟨rfl, rfl, rfl, (quiet_endDrain : Quiet { box with cursors := _ } _).draining⟩
  · exact quiet_refl

theorem page_events {p : Page} {k : PartitionKey} {c : List Mutation} : Event.push k c ∉ (box.page key p).1 := by
  unfold page
  split
  · dsimp only
    split <;> simp
  · simp

/-- What a call does that may start a drain: it starts one where none is running, or promises one. -/
structure Calls (cap : Nat) (box : SyncOutbox) (key : PartitionKey) (r : List Event × SyncOutbox) : Prop where
  cases : ∃ promised, (box.draining key = none ∧ r = { box with queuedDrain := promised }.runDrain cap key) ∨
    r = ([], { box with queuedDrain := promised })

theorem calls_drain : Calls cap box key (box.drain cap key) := by
  unfold drain
  split
  · next h => exact ⟨box.queuedDrain, .inl ⟨h, rfl⟩⟩
  · exact ⟨_, .inr rfl⟩

theorem calls_follow : Calls cap box key (box.follow cap key) := by
  unfold follow
  split
  · obtain ⟨promised, h⟩ : Calls cap { box with queuedDrain := Function.update box.queuedDrain key false } key _ :=
      calls_drain
    exact ⟨promised, h⟩
  · exact ⟨box.queuedDrain, .inr rfl⟩

theorem calls_whenSent : Calls cap box key (box.whenSent cap key) := by
  unfold whenSent
  split
  · exact calls_drain
  · exact ⟨box.queuedDrain, .inr rfl⟩

theorem Calls.writes {r : List Event × SyncOutbox} (h : Calls cap box key r) : r.2.writes = box.writes := by
  obtain ⟨promised, ⟨-, rfl⟩ | rfl⟩ := h.cases
  · exact (pushFrom_cases ..).2.1
  · rfl

end SyncOutbox

variable (key chunk) in
/-- The mutations that `parkRejected` parks are those refused. -/
theorem rejectedEntries_ids (results : List WireResult) (now : Mutation → Nat) :
    (rejectedEntries key chunk results now).map (·.mutation.mutationID) =
      (chunk.filter fun m => (refusalOf results m).isSome).map (·.mutationID) := by
  unfold rejectedEntries
  induction chunk with
  | nil => rfl
  | cons m chunk ih =>
    cases h : refusalOf results m with
    | none => simpa [List.filterMap_cons, List.filter_cons, h] using ih
    | some r => simpa [List.filterMap_cons, List.filter_cons, h] using ih

theorem mem_rejectedEntries {results : List WireResult} {now : Mutation → Nat} {e : ParkedMutation}
    (h : e ∈ rejectedEntries key chunk results now) :
    e.partition = key ∧ e.mutation ∈ chunk ∧ (refusalOf results e.mutation).isSome := by
  obtain ⟨m, hm, hrefused⟩ := List.mem_filterMap.1 h
  obtain ⟨r, hr, rfl⟩ := Option.map_eq_some_iff.1 hrefused
  exact ⟨rfl, hm, by rw [hr]; rfl⟩

/-- What a verdict does to the outbox, before the next round of the loop: the chunk leaves the queue, what is refused is
parked, and nothing else is removed from the storage than what was answered. -/
structure Took (box : SyncOutbox) (key : PartitionKey) (chunk : List Mutation) (a : Answer) (box' : SyncOutbox) :
    Prop where
  queues : box'.queues =
    Function.update box.queues key ((box.queues key).filter (·.mutationID ∉ chunk.map (·.mutationID)))
  draining : box'.draining = box.draining
  loaded : box'.loaded = box.loaded
  writes : ∃ (entries : List ParkedMutation) (removed : List Write),
    box'.writes = box.writes ++ (entries.map .park ++ removed) ∧
    (∀ e ∈ entries, e.partition = key ∧ e.mutation ∈ chunk ∧ e.mutation.mutationID ∈ (verdicts box key a).2) ∧
    ∀ w ∈ removed, ∃ ids, w = .remove ids ∧ ∀ id ∈ ids, id ∈ (verdicts box key a).1
  told : ∀ id, id ∈ (verdicts box key a).1 ∨ id ∈ (verdicts box key a).2 ↔ id ∈ chunk.map (·.mutationID)

section
variable {array : Option (List Mutation)} {offset : Nat}

theorem took_refused (message : String) (now : Mutation → Nat)
    (hd : box.draining key = some (.pushing array offset chunk)) :
    Took box key chunk (.refused message) (box.parkAll (chunk.map fun m => ⟨key, m, .message message, now m⟩)) := by
  have hkeys : ∀ e ∈ chunk.map fun m => (⟨key, m, .message message, now m⟩ : ParkedMutation), e.partition = key :=
    List.forall_mem_map.2 fun m hm => rfl
  have hverdicts : verdicts box key (.refused message) = ([], chunk.map (·.mutationID)) := by simp only [verdicts, hd]
  refine ⟨?_, SyncOutbox.parkAll_draining, SyncOutbox.parkAll_loaded, ?_, ?_⟩
  · rw [SyncOutbox.parkAll_queues hkeys, List.map_map]
    rfl
  · refine ⟨_, [], by rw [List.append_nil]; exact SyncOutbox.parkAll_writes, ?_, by simp⟩
    rw [hverdicts]
    exact List.forall_mem_map.2 fun m hm => ⟨rfl, hm, List.mem_map_of_mem hm⟩
  · simp [hverdicts]

/-- What is parked of a chunk and what is not make up the chunk. -/
theorem mem_entries_or_unparked (entries : List ParkedMutation) (hm : m ∈ chunk) :
    m.mutationID ∈ entries.map (·.mutation.mutationID) ∨ m ∈ unparked chunk entries := by
  by_cases hmem : m.mutationID ∈ entries.map (·.mutation.mutationID)
  · exact .inl hmem
  · exact .inr (List.mem_filter.2 ⟨hm, decide_eq_true hmem⟩)

theorem took_response (results : List WireResult) (now : Mutation → Nat)
    (hd : box.draining key = some (.pushing array offset chunk)) :
    Took box key chunk (.response results) ((box.parkAll (rejectedEntries key chunk results now)).forget key
      (unparked chunk (rejectedEntries key chunk results now))) := by
  have hkeys : ∀ e ∈ rejectedEntries key chunk results now, e.partition = key := fun e he => (mem_rejectedEntries he).1
  have hverdicts : verdicts box key (.response results) =
      ((chunk.map (·.mutationID)).filter
        (· ∉ (chunk.filter fun m => (refusalOf results m).isSome).map (·.mutationID)),
        (chunk.filter fun m => (refusalOf results m).isSome).map (·.mutationID)) := by
    simp only [verdicts, hd]
  have hids := rejectedEntries_ids key chunk results now
  refine ⟨?_, SyncOutbox.parkAll_draining, SyncOutbox.parkAll_loaded, ?_, fun id => ?_⟩
  · have hforget : ∀ (b : SyncOutbox) c, (b.forget key c).queues =
        Function.update b.queues key ((b.queues key).filter (·.mutationID ∉ c.map (·.mutationID))) := fun b c => rfl
    rw [hforget, SyncOutbox.parkAll_queues hkeys, Function.update_idem, Function.update_self, List.filter_filter]
    refine congrArg (Function.update box.queues key) (List.filter_congr fun m hm => ?_)
    rw [Bool.eq_iff_iff]
    simp only [Bool.and_eq_true, decide_eq_true_eq]
    constructor
    · rintro ⟨hkeep, hnot⟩ hmem
      obtain ⟨m', hm', heq⟩ := List.mem_map.1 hmem
      rcases mem_entries_or_unparked (rejectedEntries key chunk results now) hm' with hentry | hleft
      · exact hnot (heq ▸ hentry)
      · exact hkeep (heq ▸ List.mem_map_of_mem hleft)
    · refine fun hnot => ⟨fun hleft => hnot ?_, fun hentry => hnot ?_⟩
      · obtain ⟨m', hm', heq⟩ := List.mem_map.1 hleft
        exact heq ▸ List.mem_map_of_mem (List.mem_of_mem_filter hm')
      · rw [hids] at hentry
        obtain ⟨m', hm', heq⟩ := List.mem_map.1 hentry
        exact heq ▸ List.mem_map_of_mem (List.mem_of_mem_filter hm')
  · refine ⟨rejectedEntries key chunk results now,
      [.remove ((unparked chunk (rejectedEntries key chunk results now)).map (·.mutationID))], ?_, fun e he => ?_,
      fun w hw => ?_⟩
    · rw [← List.append_assoc, ← SyncOutbox.parkAll_writes]
      rfl
    · obtain ⟨hkey, hmem, -⟩ := mem_rejectedEntries he
      refine ⟨hkey, hmem, ?_⟩
      rw [hverdicts, ← hids]
      exact List.mem_map_of_mem he
    · rw [List.mem_singleton.1 hw]
      refine ⟨_, rfl, fun id hid => ?_⟩
      obtain ⟨m, hm, rfl⟩ := List.mem_map.1 hid
      obtain ⟨hm, hnot⟩ := List.mem_filter.1 hm
      rw [hverdicts]
      refine List.mem_filter.2 ⟨List.mem_map_of_mem hm, ?_⟩
      rwa [← hids]
  · rw [hverdicts]
    simp only [List.mem_filter, decide_eq_true_eq]
    constructor
    · rintro (h | h)
      · exact h.1
      · obtain ⟨m, hm, rfl⟩ := List.mem_map.1 h
        exact List.mem_map_of_mem (List.mem_of_mem_filter hm)
    · intro h
      by_cases hrefused : id ∈ (chunk.filter fun m => (refusalOf results m).isSome).map (·.mutationID)
      · exact .inr hrefused
      · exact .inl ⟨h, hrefused⟩

theorem repairRejected_push {results : List WireResult} : Event.push k queue ∉ repairRejected key chunk results := by
  unfold repairRejected
  dsimp only
  split
  · exact List.not_mem_nil
  · intro hmem
    rcases List.mem_append.1 hmem with hmem | hmem
    · split at hmem
      · cases hmem
      · cases List.mem_singleton.1 hmem
    · cases List.mem_singleton.1 hmem

theorem reportConflicts_push {results : List WireResult} : Event.push k queue ∉ reportConflicts key results := by
  unfold reportConflicts
  dsimp only
  split
  · intro hmem
    cases List.mem_singleton.1 hmem
  · exact List.not_mem_nil

end

/-- What an answer does. -/
inductive Answered (cap : Nat) (box : SyncOutbox) (key : PartitionKey) (a : Answer) (r : List Event × SyncOutbox) : Prop
  | stray (hdrain : ∀ array offset chunk, box.draining key ≠ some (.pushing array offset chunk)) (hr : r = ([], box))
      (hverdicts : verdicts box key a = ([], []))
  | failed {array : Option (List Mutation)} {offset : Nat} {chunk : List Mutation}
      (hdrain : box.draining key = some (.pushing array offset chunk)) (ha : a = .failed) (hr : r = ([], box.endDrain key))
      (hverdicts : verdicts box key a = ([], []))
  | took {array : Option (List Mutation)} {offset : Nat} {chunk : List Mutation} {box' : SyncOutbox}
      {events : List Event} (hdrain : box.draining key = some (.pushing array offset chunk)) (ha : a ≠ .failed)
      (htook : Took box key chunk a box') (hevents : ∀ k c, Event.push k c ∉ events)
      (hr : r = (events ++ (box'.pushFrom cap key (some (array.getD (box.queues key))) (offset + cap)).1,
        (box'.pushFrom cap key (some (array.getD (box.queues key))) (offset + cap)).2))

theorem answered (cap : Nat) (box : SyncOutbox) (key : PartitionKey) (now : Mutation → Nat) (a : Answer) :
    Answered cap box key a (box.answer cap key now a) := by
  cases hd : box.draining key with
  | none => exact .stray (by simp [hd]) (by simp only [SyncOutbox.answer, hd]) (by simp only [verdicts, hd])
  | some d =>
    cases d with
    | pulling cursor => exact .stray (by simp [hd]) (by simp only [SyncOutbox.answer, hd]) (by simp only [verdicts, hd])
    | pushing array offset chunk =>
      cases a with
      | failed => exact .failed hd rfl (by simp only [SyncOutbox.answer, hd]) (by simp only [verdicts, hd])
      | refused message =>
        refine .took hd (by simp) (took_refused message now hd) (fun k c hmem => ?_)
          (by simp only [SyncOutbox.answer, hd]; rfl)
        obtain ⟨e, -, he⟩ := List.mem_map.1 hmem
        cases he
      | response results =>
        refine .took hd (by simp) (took_response results now hd) (fun k c hmem => ?_)
          (by simp only [SyncOutbox.answer, hd]; rfl)
        rw [List.append_assoc] at hmem
        rcases List.mem_append.1 hmem with hmem | hmem
        · obtain ⟨e, -, he⟩ := List.mem_map.1 hmem
          cases he
        · rcases List.mem_append.1 hmem with hmem | hmem
          · exact repairRejected_push hmem
          · exact reportConflicts_push hmem

/-! ## Where mutations come from -/

/-- A mutation id is given out once. -/
def Fresh (s : State) : Step → Prop
  | .enqueue _ m => m.mutationID ∉ s.history.enqueued.map (·.2.mutationID)
  | _ => True

/-- A write is of what was enqueued: it removes what was answered, and parks what was refused. -/
def Write.Of (h : History) : Write → Prop
  | .append key m => (key, m) ∈ h.enqueued
  | .remove ids => ∀ id ∈ ids, id ∈ h.answered
  | .park e => (e.partition, e.mutation) ∈ h.enqueued ∧ e.mutation.mutationID ∈ h.refused

/-- A drain works through what was enqueued for its partition. -/
def Drain.Of (h : History) (k : PartitionKey) (live : List Mutation) : Drain → Prop
  | .pushing array _ chunk => (∀ m ∈ array.getD live, (k, m) ∈ h.enqueued) ∧ ∀ m ∈ chunk, (k, m) ∈ h.enqueued
  | .pulling _ => True

/-- All that an outbox holds was enqueued. -/
structure BoxOf (h : History) (box : SyncOutbox) : Prop where
  queues : ∀ k, ∀ m ∈ box.queues k, (k, m) ∈ h.enqueued
  drains : ∀ k d, box.draining k = some d → d.Of h k (box.queues k)
  writes : ∀ w ∈ box.writes, w.Of h
  loaded : ∀ pending, box.loaded = some pending → ∀ x ∈ pending, x ∈ h.enqueued

/-- More has happened. -/
structure History.Grows (h h' : History) : Prop where
  enqueued : ∀ x ∈ h.enqueued, x ∈ h'.enqueued
  answered : ∀ id ∈ h.answered, id ∈ h'.answered
  refused : ∀ id ∈ h.refused, id ∈ h'.refused

theorem Write.Of.mono {h h' : History} (hgrows : h.Grows h') {w : Write} (hw : w.Of h) : w.Of h' := by
  cases w with
  | append key m => exact hgrows.enqueued _ hw
  | remove ids => exact fun id hid => hgrows.answered id (hw id hid)
  | park e => exact ⟨hgrows.enqueued _ hw.1, hgrows.refused _ hw.2⟩

theorem Drain.Of.mono {h h' : History} (hgrows : h.Grows h') {live : List Mutation} {d : Drain}
    (hd : d.Of h k live) : d.Of h' k live := by
  cases d with
  | pushing array offset chunk =>
    exact ⟨fun m hm => hgrows.enqueued _ (hd.1 m hm), fun m hm => hgrows.enqueued _ (hd.2 m hm)⟩
  | pulling cursor => trivial

/-- A drain sees the queue only where it works through the queue itself. -/
theorem Drain.Of.of_queue {h : History} {live live' : List Mutation} {d : Drain} (hd : d.Of h k live)
    (hlive : ∀ m ∈ live', (k, m) ∈ h.enqueued) : d.Of h k live' := by
  cases d with
  | pushing array offset chunk =>
    cases array with
    | none => exact ⟨hlive, hd.2⟩
    | some array => exact hd
  | pulling cursor => trivial

namespace BoxOf
variable {h h' : History} {array : Option (List Mutation)} {offset : Nat}

theorem mono (hgrows : h.Grows h') (hb : BoxOf h box) : BoxOf h' box where
  queues k m hm := hgrows.enqueued _ (hb.queues k m hm)
  drains k d hd := (hb.drains k d hd).mono hgrows
  writes w hw := (hb.writes w hw).mono hgrows
  loaded pending hp x hx := hgrows.enqueued _ (hb.loaded pending hp x hx)

theorem pushFrom (hb : BoxOf h box) (harray : ∀ m ∈ array.getD (box.queues key), (key, m) ∈ h.enqueued) :
    BoxOf h (box.pushFrom cap key array offset).2 := by
  obtain ⟨hqueues, hwrites, hloaded, hcases⟩ := SyncOutbox.pushFrom_cases cap box key array offset
  refine ⟨by rw [hqueues]; exact hb.queues, fun k d hd => ?_, by rw [hwrites]; exact hb.writes,
    by rw [hloaded]; exact hb.loaded⟩
  rw [hqueues]
  have hother : k ≠ key → box.draining k = some d → d.Of h k (box.queues k) := fun _ hd => hb.drains k d hd
  rcases hcases with ⟨chunk, rfl, -, -, hdrain⟩ | ⟨-, -, hdrain⟩
  all_goals
    rw [hdrain] at hd
    by_cases hk : k = key
    · subst hk
      rw [Function.update_self] at hd
      cases hd
      first
        | exact ⟨harray, fun m hm => harray m (List.mem_of_mem_drop (List.mem_of_mem_take hm))⟩
        | trivial
    · rw [Function.update_of_ne hk] at hd
      exact hother hk hd

theorem calls {r : List Event × SyncOutbox} (hb : BoxOf h box) (hcalls : SyncOutbox.Calls cap box key r) :
    BoxOf h r.2 := by
  obtain ⟨promised, ⟨-, rfl⟩ | rfl⟩ := hcalls.cases
  · have hsame : BoxOf h { box with queuedDrain := promised } := ⟨hb.queues, hb.drains, hb.writes, hb.loaded⟩
    exact hsame.pushFrom (hb.queues key)
  · exact ⟨hb.queues, hb.drains, hb.writes, hb.loaded⟩

theorem quiet {box' : SyncOutbox} (hb : BoxOf h box) (hq : SyncOutbox.Quiet box box') : BoxOf h box' where
  queues := by rw [hq.queues]; exact hb.queues
  drains k d hd := by
    rw [hq.queues]
    rcases hq.draining k with hsame | hnot
    · exact hb.drains k d (hsame ▸ hd)
    · cases d with
      | pushing array offset chunk => exact absurd hd (hnot array offset chunk)
      | pulling cursor => trivial
  writes := by rw [hq.writes]; exact hb.writes
  loaded := by rw [hq.loaded]; exact hb.loaded

theorem took {a : Answer} {box' : SyncOutbox} (hb : BoxOf h box) (htook : Took box key chunk a box')
    (hchunk : ∀ m ∈ chunk, (key, m) ∈ h.enqueued)
    (hanswered : ∀ id ∈ (verdicts box key a).1, id ∈ h.answered)
    (hrefused : ∀ id ∈ (verdicts box key a).2, id ∈ h.refused) : BoxOf h box' := by
  have hqueue : ∀ k, ∀ m ∈ box'.queues k, m ∈ box.queues k := by
    intro k m hm
    rw [htook.queues] at hm
    by_cases hk : k = key
    · subst hk
      rw [Function.update_self] at hm
      exact List.mem_of_mem_filter hm
    · rwa [Function.update_of_ne hk] at hm
  refine ⟨fun k m hm => hb.queues k m (hqueue k m hm), fun k d hd => ?_, fun w hw => ?_, ?_⟩
  · rw [htook.draining] at hd
    exact (hb.drains k d hd).of_queue fun m hm => hb.queues k m (hqueue k m hm)
  · obtain ⟨entries, removed, hwrites, hentries, hremoved⟩ := htook.writes
    rw [hwrites, List.mem_append, List.mem_append] at hw
    rcases hw with hw | hw | hw
    · exact hb.writes w hw
    · obtain ⟨e, he, rfl⟩ := List.mem_map.1 hw
      obtain ⟨hkey, hmem, hid⟩ := hentries e he
      exact ⟨by rw [hkey]; exact hchunk _ hmem, hrefused _ hid⟩
    · obtain ⟨ids, rfl, hids⟩ := hremoved w hw
      exact fun id hid => hanswered id (hids id hid)
  · rw [htook.loaded]
    exact hb.loaded

end BoxOf

/-! ## Nothing is lost -/

/-- A mutation id is given out once, and all that the outbox and the storage hold was enqueued. -/
structure Sound (s : State) : Prop where
  ids : (s.history.enqueued.map (·.2.mutationID)).Nodup
  told : ∀ id ∈ s.history.told, id ∈ s.history.enqueued.map (·.2.mutationID)
  pending : ∀ x ∈ s.device.pending, x ∈ s.history.enqueued
  once : (s.device.pending.map (·.2.mutationID)).Nodup
  box : BoxOf s.history s.box

/-- What was enqueued is known by its id. -/
theorem Sound.eq_of_id (h : Sound s) {x y : PartitionKey × Mutation} (hx : x ∈ s.history.enqueued)
    (hy : y ∈ s.history.enqueued) (hid : x.2.mutationID = y.2.mutationID) : x = y :=
  List.inj_on_of_nodup_map h.ids hx hy hid

theorem boxOf_new {h : History} : BoxOf h .new where
  queues k m hm := by cases hm
  drains k d hd := by cases hd
  writes w hw := by cases hw
  loaded p hp := by cases hp

theorem sound_init : Sound .init where
  ids := List.nodup_nil
  told id hid := by cases hid
  pending x hx := by cases hx
  once := List.nodup_nil
  box := boxOf_new

theorem step_grows (cap : Nat) (s : State) (i : Step) : s.history.Grows (s.step cap i).2.history := by
  have hrefl : s.history.Grows s.history := ⟨fun x hx => hx, fun id hid => hid, fun id hid => hid⟩
  cases i with
  | enqueue key m => exact ⟨fun x hx => List.mem_append_left _ hx, fun id hid => hid, fun id hid => hid⟩
  | answer key now a =>
    exact ⟨fun x hx => hx, fun id hid => List.mem_append_left _ hid, fun id hid => List.mem_append_left _ hid⟩
  | pageFailed key =>
    simp only [State.step]
    split
    · exact hrefl
    · exact hrefl
  | settle ok =>
    simp only [State.step, State.settle]
    split
    · exact hrefl
    · exact hrefl
  | load ok => cases ok <;> exact hrefl
  | rebuild ok =>
    simp only [State.step, State.rebuild]
    split
    · exact hrefl
    · cases ok <;> exact hrefl
  | crash => exact ⟨fun x hx => hx, fun id hid => hid, fun id hid => hid⟩
  | drain key => exact hrefl
  | follow key => exact hrefl
  | whenSent key => exact hrefl
  | page key p => exact hrefl

theorem mem_write_pending {d : Device} {w : Write} {x : PartitionKey × Mutation} (hx : x ∈ (d.write w).pending) :
    x ∈ d.pending ∨ w = .append x.1 x.2 := by
  cases w with
  | append key m =>
    rcases List.mem_append.1 hx with hx | hx
    · exact .inl (List.mem_of_mem_filter hx)
    · rw [List.mem_singleton.1 hx]
      exact .inr rfl
  | remove ids => exact .inl (List.mem_of_mem_filter hx)
  | park e => exact .inl (List.mem_of_mem_filter hx)

/-- A new mutation goes to the end of its queue, and to the storage. -/
theorem BoxOf.enqueue {h : History} (hb : BoxOf h box) :
    BoxOf { h with enqueued := h.enqueued ++ [(key, m)] } (box.enqueue key m) := by
  have hgrows : h.Grows { h with enqueued := h.enqueued ++ [(key, m)] } :=
    ⟨fun x hx => List.mem_append_left _ hx, fun id hid => hid, fun id hid => hid⟩
  have hb' := hb.mono hgrows
  have hqueue : ∀ k, ∀ m' ∈ (box.enqueue key m).queues k, (k, m') ∈ h.enqueued ++ [(key, m)] := by
    intro k m' hm'
    change m' ∈ Function.update box.queues key (box.queues key ++ [m]) k at hm'
    by_cases hk : k = key
    · subst hk
      rw [Function.update_self] at hm'
      rcases List.mem_append.1 hm' with hm' | hm'
      · exact hb'.queues k m' hm'
      · rw [List.mem_singleton.1 hm']
        exact List.mem_append_right _ (List.mem_singleton.2 rfl)
    · rw [Function.update_of_ne hk] at hm'
      exact hb'.queues k m' hm'
  refine ⟨hqueue, fun k d hd => (hb'.drains k d hd).of_queue (hqueue k), fun w hw => ?_, hb'.loaded⟩
  rcases List.mem_append.1 hw with hw | hw
  · exact hb'.writes w hw
  · rw [List.mem_singleton.1 hw]
    exact List.mem_append_right _ (List.mem_singleton.2 rfl)

/-- The queues that `restore` rebuilds hold what they held, and what it has read. -/
theorem mem_rebuilt {queues : PartitionKey → List Mutation} {pending : List (PartitionKey × Mutation)} :
    m ∈ rebuilt queues pending k ↔ m ∈ queues k ∨ (k, m) ∈ pending := by
  simp [rebuilt]

theorem BoxOf.answer {h : History} {now : Mutation → Nat} {a : Answer} (hb : BoxOf h box) :
    BoxOf { h with
      answered := h.answered ++ (verdicts box key a).1
      refused := h.refused ++ (verdicts box key a).2
      told := h.told ++ (verdicts box key a).1 ++ (verdicts box key a).2 } (box.answer cap key now a).2 := by
  have hgrows : h.Grows { h with
      answered := h.answered ++ (verdicts box key a).1
      refused := h.refused ++ (verdicts box key a).2
      told := h.told ++ (verdicts box key a).1 ++ (verdicts box key a).2 } :=
    ⟨fun x hx => hx, fun id hid => List.mem_append_left _ hid, fun id hid => List.mem_append_left _ hid⟩
  have hb' := hb.mono hgrows
  cases answered cap box key now a with
  | stray hdrain hr hverdicts =>
    rw [hr]
    exact hb'
  | failed hdrain ha hr hverdicts =>
    rw [hr]
    exact hb'.quiet SyncOutbox.quiet_endDrain
  | took hdrain ha htook hevents hr =>
    rw [hr]
    obtain ⟨harray, hchunk⟩ := hb'.drains _ _ hdrain
    exact (hb'.took htook hchunk (fun id hid => List.mem_append_right _ hid)
      fun id hid => List.mem_append_right _ hid).pushFrom harray

theorem once_write {d : Device} {w : Write} (hd : (d.pending.map (·.2.mutationID)).Nodup) :
    ((d.write w).pending.map (·.2.mutationID)).Nodup := by
  have hfilter : ∀ p, ((d.pending.filter p).map (·.2.mutationID)).Nodup := fun p =>
    hd.sublist (List.filter_sublist.map _)
  cases w with
  | append key m =>
    change ((d.pending.filter (·.2.mutationID ≠ m.mutationID) ++ [(key, m)]).map (·.2.mutationID)).Nodup
    rw [List.map_append]
    refine List.nodup_append'.2 ⟨hfilter _, List.nodup_singleton _, List.disjoint_singleton.2 fun hmem => ?_⟩
    obtain ⟨x, hx, hid⟩ := List.mem_map.1 hmem
    exact of_decide_eq_true (List.mem_filter.1 hx).2 hid
  | remove ids => exact hfilter _
  | park e => exact hfilter _

/-- What is told is of the chunk that is open. -/
theorem mem_verdicts {a : Answer} {id : String} (hid : id ∈ (verdicts box key a).1 ++ (verdicts box key a).2) :
    ∃ array offset chunk, box.draining key = some (.pushing array offset chunk) ∧ id ∈ chunk.map (·.mutationID) := by
  cases answered 0 box key (fun _ => 0) a with
  | stray hdrain hr hverdicts =>
    rw [hverdicts] at hid
    cases hid
  | failed hdrain ha hr hverdicts =>
    rw [hverdicts] at hid
    cases hid
  | took hdrain ha htook hevents hr => exact ⟨_, _, _, hdrain, (htook.told id).1 (List.mem_append.1 hid)⟩

theorem Sound.step {i : Step} (hi : Fresh s i) (h : Sound s) : Sound (s.step cap i).2 := by
  cases i with
  | enqueue key m =>
    refine ⟨?_, fun id hid => ?_, fun x hx => List.mem_append_left _ (h.pending x hx), h.once, h.box.enqueue⟩
    · change ((s.history.enqueued ++ [(key, m)]).map (·.2.mutationID)).Nodup
      rw [List.map_append]
      exact List.nodup_append'.2 ⟨h.ids, List.nodup_singleton _, List.disjoint_singleton.2 hi⟩
    · change id ∈ (s.history.enqueued ++ [(key, m)]).map (·.2.mutationID)
      rw [List.map_append]
      exact List.mem_append_left _ (h.told id hid)
  | drain key => exact ⟨h.ids, h.told, h.pending, h.once, h.box.calls SyncOutbox.calls_drain⟩
  | follow key => exact ⟨h.ids, h.told, h.pending, h.once, h.box.calls SyncOutbox.calls_follow⟩
  | whenSent key => exact ⟨h.ids, h.told, h.pending, h.once, h.box.calls SyncOutbox.calls_whenSent⟩
  | answer key now a =>
    refine ⟨h.ids, fun id hid => ?_, h.pending, h.once, h.box.answer⟩
    change id ∈ s.history.told ++ (verdicts s.box key a).1 ++ (verdicts s.box key a).2 at hid
    rw [List.append_assoc] at hid
    rcases List.mem_append.1 hid with hid | hid
    · exact h.told id hid
    · obtain ⟨array, offset, chunk, hdrain, hid⟩ := mem_verdicts hid
      obtain ⟨m, hm, rfl⟩ := List.mem_map.1 hid
      have hmem : (key, m) ∈ s.history.enqueued := (h.box.drains key _ hdrain).2 m hm
      exact List.mem_map_of_mem (f := (·.2.mutationID)) hmem
  | page key p => exact ⟨h.ids, h.told, h.pending, h.once, h.box.quiet (SyncOutbox.quiet_page p)⟩
  | pageFailed key =>
    simp only [State.step]
    split
    · exact ⟨h.ids, h.told, h.pending, h.once, h.box.quiet SyncOutbox.quiet_endDrain⟩
    · exact h
  | settle ok =>
    simp only [State.step, State.settle]
    split
    · exact h
    · next w writes hw =>
      have hwrites : ∀ v ∈ w :: writes, v.Of s.history := hw ▸ h.box.writes
      refine ⟨h.ids, h.told, fun x hx => ?_, ?_, h.box.queues, h.box.drains,
        fun v hv => hwrites v (List.mem_cons_of_mem _ hv), h.box.loaded⟩
      · cases ok with
        | false => exact h.pending x hx
        | true =>
          rcases mem_write_pending hx with hx | rfl
          · exact h.pending x hx
          · exact hwrites _ List.mem_cons_self
      · cases ok with
        | false => exact h.once
        | true => exact once_write h.once
  | crash => exact ⟨h.ids, (fun id hid => by cases hid), h.pending, h.once, boxOf_new⟩
  | load ok =>
    cases ok with
    | false => exact ⟨h.ids, h.told, h.pending, h.once, h.box.queues, h.box.drains, h.box.writes, h.box.loaded⟩
    | true =>
      refine ⟨h.ids, h.told, h.pending, h.once, h.box.queues, h.box.drains, h.box.writes, fun p hp => ?_⟩
      cases hp
      exact h.pending
  | rebuild ok =>
    simp only [State.step, State.rebuild]
    split
    · exact h
    · next pending hp =>
      cases ok with
      | false => exact ⟨h.ids, h.told, h.pending, h.once, h.box.queues, h.box.drains, h.box.writes, by simp⟩
      | true =>
        have hqueue : ∀ k, ∀ m ∈ rebuilt s.box.queues pending k, (k, m) ∈ s.history.enqueued := fun k m hm => by
          rcases mem_rebuilt.1 hm with hm | hm
          · exact h.box.queues k m hm
          · exact h.box.loaded pending hp _ hm
        exact ⟨h.ids, h.told, h.pending, h.once, hqueue, fun k d hd => (h.box.drains k d hd).of_queue (hqueue k),
          h.box.writes, by simp⟩

theorem Sound.after {is : List Step} (h : Sound s) (his : (outbox cap).Legal Fresh s is) :
    Sound ((outbox cap).after s is) :=
  Machine.after_invariant (fun _ _ hi hs => hs.step hi) h his

/-- A mutation is among what is pending, or parked and was refused, or the server has answered it. -/
inductive Kept (d : Device) (h : History) (x : PartitionKey × Mutation) : Prop
  | pending (hx : x ∈ d.pending)
  | parked {e : ParkedMutation} (he : e ∈ d.parked) (hkey : e.partition = x.1) (hmutation : e.mutation = x.2)
      (hrefused : x.2.mutationID ∈ h.refused)
  | answered (hid : x.2.mutationID ∈ h.answered)

theorem Kept.mono {d : Device} {h h' : History} {x : PartitionKey × Mutation} (hgrows : h.Grows h')
    (hx : Kept d h x) : Kept d h' x := by
  cases hx with
  | pending hx => exact .pending hx
  | parked he hkey hmutation hrefused => exact .parked he hkey hmutation (hgrows.refused _ hrefused)
  | answered hid => exact .answered (hgrows.answered _ hid)

/-- A write takes a mutation out of what is pending only where it was answered, or to park it. -/
theorem Kept.write {d : Device} {h : History} {w : Write} {x : PartitionKey × Mutation}
    (heq : ∀ y ∈ h.enqueued, y.2.mutationID = x.2.mutationID → y = x) (hw : w.Of h) (hx : Kept d h x) :
    Kept (d.write w) h x := by
  cases hx with
  | answered hid => exact .answered hid
  | pending hx =>
    cases w with
    | append key m =>
      refine .pending (List.mem_append.2 ?_)
      by_cases hid : m.mutationID = x.2.mutationID
      · exact .inr (List.mem_singleton.2 (heq _ hw hid).symm)
      · exact .inl (List.mem_filter.2 ⟨hx, decide_eq_true (Ne.symm hid)⟩)
    | remove ids =>
      by_cases hid : x.2.mutationID ∈ ids
      · exact .answered (hw _ hid)
      · exact .pending (List.mem_filter.2 ⟨hx, decide_eq_true hid⟩)
    | park e =>
      by_cases hid : e.mutation.mutationID = x.2.mutationID
      · have hsame := heq _ hw.1 hid
        exact .parked (List.mem_append_right _ (List.mem_singleton.2 rfl)) (congrArg Prod.fst hsame)
          (congrArg Prod.snd hsame) (hid ▸ hw.2)
      · exact .pending (List.mem_filter.2 ⟨hx, decide_eq_true (Ne.symm hid)⟩)
  | parked he hkey hmutation hrefused =>
    cases w with
    | append key m => exact .parked he hkey hmutation hrefused
    | remove ids => exact .parked he hkey hmutation hrefused
    | park e' =>
      by_cases hid : e'.mutation.mutationID = x.2.mutationID
      · have hsame := heq _ hw.1 hid
        exact .parked (List.mem_append_right _ (List.mem_singleton.2 rfl)) (congrArg Prod.fst hsame)
          (congrArg Prod.snd hsame) hrefused
      · refine .parked (List.mem_append_left _ (List.mem_filter.2 ⟨he, decide_eq_true ?_⟩)) hkey hmutation hrefused
        rw [hmutation]
        exact Ne.symm hid

/-- Only the end of a write changes the storage. -/
theorem step_device (cap : Nat) (s : State) (i : Step) :
    (s.step cap i).2.device = s.device ∨
      ∃ w writes, i = .settle true ∧ s.box.writes = w :: writes ∧ (s.step cap i).2.device = s.device.write w ∧
        (s.step cap i).2.box.writes = writes := by
  cases i with
  | settle ok =>
    cases hw : s.box.writes with
    | nil => exact .inl (by simp only [State.step, State.settle, hw])
    | cons w writes =>
      cases ok with
      | false => exact .inl (by simp only [State.step, State.settle, hw]; rfl)
      | true =>
        exact .inr ⟨w, writes, rfl, rfl, by simp only [State.step, State.settle, hw]; rfl,
          by simp only [State.step, State.settle, hw]⟩
  | pageFailed key =>
    simp only [State.step]
    split
    · exact .inl rfl
    · exact .inl rfl
  | load ok => cases ok <;> exact .inl rfl
  | rebuild ok =>
    simp only [State.step, State.rebuild]
    split
    · exact .inl rfl
    · cases ok <;> exact .inl rfl
  | enqueue key m => exact .inl rfl
  | drain key => exact .inl rfl
  | follow key => exact .inl rfl
  | whenSent key => exact .inl rfl
  | answer key now a => exact .inl rfl
  | page key p => exact .inl rfl
  | crash => exact .inl rfl

theorem Kept.step {i : Step} {x : PartitionKey × Mutation} (h : Sound s) (hx : x ∈ s.history.enqueued)
    (hkept : Kept s.device s.history x) : Kept (s.step cap i).2.device (s.step cap i).2.history x := by
  refine Kept.mono (step_grows cap s i) ?_
  rcases step_device cap s i with hsame | ⟨w, writes, -, hwrites, hwrite, -⟩
  · rw [hsame]
    exact hkept
  · rw [hwrite]
    exact hkept.write (fun y hy hid => h.eq_of_id hy hx hid)
      (h.box.writes w (by rw [hwrites]; exact List.mem_cons_self))

/-- **What is stored stays, until it is answered**: a mutation that has reached the storage is there after any further
run, crashes and failed writes included, pending or parked with its refusal, or the server has answered it. -/
theorem stored_kept {pre post : List Step} {x : PartitionKey × Mutation}
    (hfresh : (outbox cap).Legal Fresh .init (pre ++ post)) (hx : x ∈ ((outbox cap).after .init pre).device.pending) :
    Kept ((outbox cap).after .init (pre ++ post)).device ((outbox cap).after .init (pre ++ post)).history x := by
  have hpre : Sound ((outbox cap).after .init pre) := sound_init.after hfresh.append_left
  have hpost : (outbox cap).Legal Fresh ((outbox cap).after .init pre) post := hfresh.append_right
  rw [Machine.after_append]
  refine (Machine.after_invariant (I := fun s => Sound s ∧ x ∈ s.history.enqueued ∧ Kept s.device s.history x)
    (fun s i hi hs => ⟨hs.1.step hi, (step_grows cap s i).enqueued x hs.2.1, hs.2.2.step hs.1 hs.2.1⟩)
    ⟨hpre, hpre.pending x hx, .pending hx⟩ hpost).2.2

/-- No write fails, and the device crashes only once every write has ended (`whenPersisted`). -/
def Settled (s : State) : Step → Prop
  | .settle ok => ok = true
  | .crash => s.box.writes = []
  | _ => True

/-- A step issues its writes behind those under way. -/
theorem step_writes (cap : Nat) (s : State) (i : Step) :
    (∃ ws, (s.step cap i).2.box.writes = s.box.writes ++ ws) ∨ (∃ ok, i = .settle ok) ∨ i = .crash := by
  cases i with
  | settle ok => exact .inr (.inl ⟨ok, rfl⟩)
  | crash => exact .inr (.inr rfl)
  | enqueue key m => exact .inl ⟨[.append key m], rfl⟩
  | drain key => exact .inl ⟨[], (SyncOutbox.calls_drain.writes).trans (List.append_nil _).symm⟩
  | follow key => exact .inl ⟨[], (SyncOutbox.calls_follow.writes).trans (List.append_nil _).symm⟩
  | whenSent key => exact .inl ⟨[], (SyncOutbox.calls_whenSent.writes).trans (List.append_nil _).symm⟩
  | answer key now a =>
    cases answered cap s.box key now a with
    | stray hdrain hr hverdicts => exact .inl ⟨[], by simp only [State.step, hr, List.append_nil]⟩
    | failed hdrain ha hr hverdicts =>
      exact .inl ⟨[], by simp only [State.step, hr, SyncOutbox.endDrain, List.append_nil]⟩
    | took hdrain ha htook hevents hr =>
      obtain ⟨entries, removed, hwrites, -, -⟩ := htook.writes
      refine .inl ⟨entries.map .park ++ removed, ?_⟩
      simp only [State.step, hr]
      rw [(SyncOutbox.pushFrom_cases ..).2.1, hwrites]
  | page key p => exact .inl ⟨[], (SyncOutbox.quiet_page p).writes.trans (List.append_nil _).symm⟩
  | pageFailed key =>
    simp only [State.step]
    split
    · exact .inl ⟨[], (List.append_nil _).symm⟩
    · exact .inl ⟨[], (List.append_nil _).symm⟩
  | load ok => cases ok <;> exact .inl ⟨[], (List.append_nil _).symm⟩
  | rebuild ok =>
    simp only [State.step, State.rebuild]
    split
    · exact .inl ⟨[], (List.append_nil _).symm⟩
    · cases ok <;> exact .inl ⟨[], (List.append_nil _).symm⟩

/-- Only `enqueue` adds to what was enqueued. -/
theorem step_enqueued {i : Step} {x : PartitionKey × Mutation} (hx : x ∈ (s.step cap i).2.history.enqueued) :
    x ∈ s.history.enqueued ∨ i = .enqueue x.1 x.2 := by
  cases i with
  | enqueue key m =>
    rcases List.mem_append.1 hx with hx | hx
    · exact .inl hx
    · rw [List.mem_singleton.1 hx]
      exact .inr rfl
  | pageFailed key =>
    simp only [State.step] at hx
    split at hx
    · exact .inl hx
    · exact .inl hx
  | settle ok =>
    simp only [State.step, State.settle] at hx
    split at hx
    · exact .inl hx
    · exact .inl hx
  | load ok => cases ok <;> exact .inl hx
  | rebuild ok =>
    simp only [State.step, State.rebuild] at hx
    split at hx
    · exact .inl hx
    · cases ok <;> exact .inl hx
  | drain key => exact .inl hx
  | follow key => exact .inl hx
  | whenSent key => exact .inl hx
  | answer key now a => exact .inl hx
  | page key p => exact .inl hx
  | crash => exact .inl hx

/-- Everything enqueued is on its way to the storage, or kept there. -/
def Captured (s : State) : Prop :=
  ∀ x ∈ s.history.enqueued, .append x.1 x.2 ∈ s.box.writes ∨ Kept s.device s.history x

theorem Captured.step {i : Step} (h : Sound s) (hi : Settled s i) (hs : Captured s) : Captured (s.step cap i).2 := by
  intro x hx
  rcases step_enqueued hx with hx | rfl
  · rcases hs x hx with hwrite | hkept
    · rcases step_writes cap s i with ⟨ws, hws⟩ | ⟨ok, rfl⟩ | rfl
      · rw [hws]
        exact .inl (List.mem_append_left _ hwrite)
      · obtain rfl : ok = true := hi
        cases hw : s.box.writes with
        | nil => rw [hw] at hwrite; cases hwrite
        | cons w writes =>
          rw [hw] at hwrite
          rcases List.mem_cons.1 hwrite with rfl | hwrite
          · refine .inr (.pending ?_)
            simp only [State.step, State.settle, hw, if_true, Device.write]
            exact List.mem_append_right _ (List.mem_singleton.2 rfl)
          · refine .inl ?_
            simp only [State.step, State.settle, hw]
            exact hwrite
      · have hnone : s.box.writes = [] := hi
        rw [hnone] at hwrite
        cases hwrite
    · exact .inr (hkept.step h hx)
  · exact .inl (List.mem_append_right _ (List.mem_singleton.2 rfl))

/-- **Nothing enqueued is lost**: where no write fails and the device is left only between writes, everything ever
enqueued is on its way to the storage, or pending or parked there, or the server has answered it. -/
theorem enqueued_captured {is : List Step} (hfresh : (outbox cap).Legal Fresh .init is)
    (hsettled : (outbox cap).Legal Settled .init is) : Captured ((outbox cap).after .init is) :=
  (Machine.after_invariant (I := fun s => Sound s ∧ Captured s)
    (fun _ _ hi hs => ⟨hs.1.step hi.1, hs.2.step hs.1 hi.2⟩) ⟨sound_init, fun x hx => by cases hx⟩
    (hfresh.and hsettled)).2

/-! ### A device that crashes -/

def tent : Mutation := .plain 2 .insert .tripItems "tent" [("trip_id", .str "T1"), ("name", .str "Tent")]

def stove : Mutation := .plain 3 .insert .tripItems "stove" [("trip_id", .str "T1"), ("name", .str "Stove")]

def mug : Mutation := .plain 4 .insert .tripItems "mug" [("trip_id", .str "T1"), ("name", .str "Mug")]

/-- The tent has reached the storage, the stove has not. -/
def packed : List Step := [.enqueue "trip:T1" tent, .enqueue "trip:T1" stove, .settle true]

/-- The tent outlives a crash. -/
theorem tent_kept :
    Kept ((outbox maxPushBatch).after .init (packed ++ [.crash])).device
      ((outbox maxPushBatch).after .init (packed ++ [.crash])).history ("trip:T1", tent) :=
  stored_kept (by
    simp only [packed, List.cons_append, List.nil_append, Machine.legal_cons, Machine.legal_nil, Fresh]
    exact ⟨by decide, by decide, trivial, trivial, trivial⟩) (.head _)

/-- Both outlive one that comes when the stove has reached the storage too. -/
theorem packed_captured : Captured ((outbox maxPushBatch).after .init (packed ++ [.settle true, .crash])) :=
  enqueued_captured (by
      simp only [packed, List.cons_append, List.nil_append, Machine.legal_cons, Machine.legal_nil, Fresh]
      exact ⟨by decide, by decide, trivial, trivial, trivial, trivial⟩)
    (by
      simp only [packed, List.cons_append, List.nil_append, Machine.legal_cons, Machine.legal_nil, Settled]
      exact ⟨trivial, trivial, trivial, trivial, rfl, trivial⟩)

end Outbox

end JitPack
