import JitPack.Client.OutboxSession

/-!
# The order of the pushes

A device sends the mutations of a partition in the order in which they were enqueued as long as no queue outgrows the
first chunk of a drain while the push of that is open (`Orderly`). Until the first answer the drain works through the
queue itself, in steps of `cap`, and not through the snapshot that the source speaks of; the first chunk is what the
queue held when the drain began.
-/

namespace JitPack

namespace Outbox

variable {cap : Nat} {box : SyncOutbox} {key k : PartitionKey} {m : Mutation} {s : State} {chunk queue : List Mutation}

/-- The open push of each partition is of the front of its queue, so nothing is sent before what was queued before it. -/
def InFront (s : State) : Prop :=
  ∀ k array offset chunk, s.box.draining k = some (.pushing array offset chunk) → chunk <+: s.box.queues k

/-- No answer finds that the queue has outgrown the first chunk of a drain, where that was no full one: the drain, which
works through the queue itself until then, would step over what has come to lie between. -/
def Orderly (cap : Nat) (s : State) : Step → Prop
  | .answer key _ a => a = .failed ∨ ∀ offset chunk, s.box.draining key = some (.pushing none offset chunk) →
      chunk.length = cap ∨ (s.box.queues key).length ≤ cap
  | _ => True

/-- The front of a queue, and what a drain has in front of it. -/
structure InOrder (cap : Nat) (s : State) : Prop where
  live : ∀ k offset chunk, s.box.draining k = some (.pushing none offset chunk) → offset = 0 ∧ chunk <+: s.box.queues k
  taken : ∀ k array offset chunk, s.box.draining k = some (.pushing (some array) offset chunk) →
    array.drop offset <+: s.box.queues k ∧ chunk = (array.drop offset).take cap

theorem InOrder.inFront (h : InOrder cap s) : InFront s := by
  intro k array offset chunk hd
  cases array with
  | none => exact (h.live k offset chunk hd).2
  | some array =>
    obtain ⟨hfront, rfl⟩ := h.taken k array offset chunk hd
    exact (List.take_prefix _ _).trans hfront

/-- Where a push that is open after a step comes from: it was open before, a drain has begun, or an answer has come. -/
inductive Opened (cap : Nat) (s : State) (i : Step) (k : PartitionKey) : Option (List Mutation) → Nat → List Mutation → Prop
  | kept {array : Option (List Mutation)} {offset : Nat} {chunk : List Mutation}
      (hd : s.box.draining k = some (.pushing array offset chunk))
      (hqueue : s.box.queues k <+: (s.step cap i).2.box.queues k) : Opened cap s i k array offset chunk
  | began : Opened cap s i k none 0 (((s.step cap i).2.box.queues k).take cap)
  | next {now : Mutation → Nat} {a : Answer} {array : Option (List Mutation)} {offset : Nat} {chunk : List Mutation}
      (hi : i = .answer k now a) (ha : a ≠ .failed) (hd : s.box.draining k = some (.pushing array offset chunk))
      (hrest : (array.getD (s.box.queues k)).drop (offset + cap) ≠ [])
      (hqueue : (s.step cap i).2.box.queues k =
        (s.box.queues k).filter (·.mutationID ∉ chunk.map (·.mutationID))) :
      Opened cap s i k (some (array.getD (s.box.queues k))) (offset + cap)
        (((array.getD (s.box.queues k)).drop (offset + cap)).take cap)

section
variable {array : Option (List Mutation)} {offset : Nat}

theorem pushFrom_opened {array' : Option (List Mutation)} {offset' : Nat}
    (hd : (box.pushFrom cap key array' offset').2.draining k = some (.pushing array offset chunk)) :
    (k ≠ key ∧ box.draining k = some (.pushing array offset chunk)) ∨
      (k = key ∧ array = array' ∧ offset = offset' ∧ (array'.getD (box.queues key)).drop offset' ≠ [] ∧
        chunk = ((array'.getD (box.queues key)).drop offset').take cap) := by
  obtain ⟨-, -, -, hcases⟩ := SyncOutbox.pushFrom_cases cap box key array' offset'
  by_cases hk : k = key
  · subst hk
    rcases hcases with ⟨c, rfl, hrest, -, hdrain⟩ | ⟨-, -, hdrain⟩
    · rw [hdrain, Function.update_self] at hd
      cases hd
      exact .inr ⟨rfl, rfl, rfl, hrest, rfl⟩
    · rw [hdrain, Function.update_self] at hd
      cases hd
  · refine .inl ⟨hk, ?_⟩
    rcases hcases with ⟨c, -, -, -, hdrain⟩ | ⟨-, -, hdrain⟩
    · rwa [hdrain, Function.update_of_ne hk] at hd
    · rwa [hdrain, Function.update_of_ne hk] at hd

theorem calls_opened {r : List Event × SyncOutbox} (h : SyncOutbox.Calls cap box key r)
    (hd : r.2.draining k = some (.pushing array offset chunk)) :
    r.2.queues = box.queues ∧ (box.draining k = some (.pushing array offset chunk) ∨
      (array = none ∧ offset = 0 ∧ chunk = (box.queues k).take cap)) := by
  obtain ⟨promised, ⟨-, rfl⟩ | rfl⟩ := h.cases
  · refine ⟨(SyncOutbox.pushFrom_cases ..).1, ?_⟩
    rcases pushFrom_opened hd with ⟨-, hd⟩ | ⟨rfl, rfl, rfl, -, rfl⟩
    · exact .inl hd
    · exact .inr ⟨rfl, rfl, rfl⟩
  · exact ⟨rfl, .inl hd⟩

theorem opened_of_calls {i : Step} {r : List Event × SyncOutbox} (h : SyncOutbox.Calls cap s.box key r)
    (hstep : (s.step cap i).2.box = r.2) (hd : (s.step cap i).2.box.draining k = some (.pushing array offset chunk)) :
    Opened cap s i k array offset chunk := by
  rw [hstep] at hd
  obtain ⟨hqueues, hd | ⟨rfl, rfl, rfl⟩⟩ := calls_opened h hd
  · exact .kept hd (by rw [hstep, hqueues])
  · rw [← hqueues, ← hstep]
    exact .began

theorem opened_of_quiet {i : Step} (h : SyncOutbox.Quiet s.box (s.step cap i).2.box)
    (hd : (s.step cap i).2.box.draining k = some (.pushing array offset chunk)) :
    Opened cap s i k array offset chunk := by
  rcases h.draining k with hsame | hnot
  · exact .kept (hsame ▸ hd) (by rw [h.queues])
  · exact absurd hd (hnot _ _ _)

theorem opened {i : Step} (hd : (s.step cap i).2.box.draining k = some (.pushing array offset chunk)) :
    Opened cap s i k array offset chunk := by
  have hgoes : i ≠ .crash → (∀ now a, i ≠ .answer k now a) →
      s.box.draining k = some (.pushing array offset chunk) → Opened cap s i k array offset chunk :=
    fun hcrash hanswer hd => .kept hd (goes_step hcrash hanswer).queue
  cases i with
  | enqueue key m => exact hgoes (by simp) (by simp) hd
  | drain key => exact opened_of_calls SyncOutbox.calls_drain rfl hd
  | follow key => exact opened_of_calls SyncOutbox.calls_follow rfl hd
  | whenSent key => exact opened_of_calls SyncOutbox.calls_whenSent rfl hd
  | answer key now a =>
    change (s.box.answer cap key now a).2.draining k = some (.pushing array offset chunk) at hd
    cases answered cap s.box key now a with
    | stray hdrain hr hverdicts =>
      rw [hr] at hd
      exact .kept hd (by rw [show (s.step cap (.answer key now a)).2.box = s.box from congrArg Prod.snd hr])
    | failed hdrain ha hr hverdicts =>
      rw [hr] at hd
      have hstep : (s.step cap (.answer key now a)).2.box = s.box.endDrain key := congrArg Prod.snd hr
      exact opened_of_quiet (by rw [hstep]; exact SyncOutbox.quiet_endDrain) (by rw [hstep]; exact hd)
    | @took array₀ offset₀ chunk₀ box' events hdrain ha htook hevents hr =>
      rw [hr] at hd
      have hstep : (s.step cap (.answer key now a)).2.box =
          (box'.pushFrom cap key (some (array₀.getD (s.box.queues key))) (offset₀ + cap)).2 := by
        change (s.box.answer cap key now a).2 = _
        rw [hr]
      have hqueues : (s.step cap (.answer key now a)).2.box.queues = box'.queues := by
        rw [hstep, (SyncOutbox.pushFrom_cases ..).1]
      rcases pushFrom_opened hd with ⟨hk, hd⟩ | ⟨rfl, rfl, rfl, hrest, rfl⟩
      · rw [htook.draining] at hd
        exact .kept hd (by rw [hqueues, htook.queues, Function.update_of_ne hk])
      · exact .next rfl ha hdrain hrest (by rw [hqueues, htook.queues, Function.update_self])
  | page key p => exact opened_of_quiet (SyncOutbox.quiet_page p) hd
  | pageFailed key =>
    refine opened_of_quiet ?_ hd
    simp only [State.step]
    split
    · exact SyncOutbox.quiet_endDrain
    · exact SyncOutbox.quiet_refl
  | settle ok =>
    simp only [State.step, State.settle] at hd
    split at hd
    · exact hgoes (by simp) (by simp) hd
    · exact hgoes (by simp) (by simp) hd
  | crash => cases hd
  | load ok => cases ok <;> exact hgoes (by simp) (by simp) hd
  | rebuild ok =>
    simp only [State.step, State.rebuild] at hd
    split at hd
    · exact hgoes (by simp) (by simp) hd
    · cases ok <;> exact hgoes (by simp) (by simp) hd

end

theorem inOrder_init : InOrder cap .init where
  live k offset chunk hd := by cases hd
  taken k array offset chunk hd := by cases hd

/-- What a prefix leaves of a list in which no id stands twice. -/
theorem filter_front {front rest : List Mutation} (h : ((front ++ rest).map (·.mutationID)).Nodup) :
    (front ++ rest).filter (·.mutationID ∉ front.map (·.mutationID)) = rest := by
  rw [List.map_append] at h
  have hdisjoint := (List.nodup_append'.1 h).2.2
  rw [List.filter_append, List.filter_eq_nil_iff.2, List.filter_eq_self.2, List.nil_append]
  · exact fun m hm => decide_eq_true fun hid => hdisjoint hid (List.mem_map_of_mem hm)
  · exact fun m hm => by simpa using ⟨m, hm, rfl⟩

/-- The queue after the verdict on its front. -/
theorem queue_of_front {queue : List Mutation} (hnodup : (queue.map (·.mutationID)).Nodup) (hfront : chunk <+: queue) :
    queue.filter (·.mutationID ∉ chunk.map (·.mutationID)) = queue.drop chunk.length := by
  obtain ⟨rest, rfl⟩ := hfront
  rw [filter_front hnodup, List.drop_left]

theorem InOrder.step {i : Step} (h : InOrder cap s) (hready : Ready cap s.history.told s.box) (hi : Orderly cap s i) :
    InOrder cap (s.step cap i).2 := by
  have hopened : ∀ k array offset chunk, (s.step cap i).2.box.draining k = some (.pushing array offset chunk) →
      Opened cap s i k array offset chunk := fun k array offset chunk hd => opened hd
  refine ⟨fun k offset chunk hd => ?_, fun k array offset chunk hd => ?_⟩
  · cases hopened _ _ _ _ hd with
    | kept hd hqueue => exact ⟨(h.live k offset chunk hd).1, (h.live k offset chunk hd).2.trans hqueue⟩
    | began => exact ⟨rfl, List.take_prefix _ _⟩
  · have hcase := hopened _ _ _ _ hd
    clear hd
    generalize harray : some array = taken at hcase
    cases hcase with
    | kept hd hqueue =>
      subst harray
      obtain ⟨hfront, htake⟩ := h.taken k array offset chunk hd
      exact ⟨hfront.trans hqueue, htake⟩
    | began => cases harray
    | @next now a array₀ offset₀ chunk₀ hanswer ha hd hrest hqueue =>
      cases harray
      refine ⟨?_, rfl⟩
      have hnodup := hready.queue_nodup k
      rw [hqueue]
      cases array₀ with
      | none =>
        obtain ⟨rfl, hfront⟩ := h.live k _ _ hd
        rw [hanswer] at hi
        rw [queue_of_front hnodup hfront]
        rcases hi with hfailed | horderly
        · exact absurd hfailed ha
        rcases horderly _ _ hd with hfull | hshort
        · rw [hfull, Nat.zero_add]
          rfl
        · refine absurd (List.drop_eq_nil_iff.2 ?_) hrest
          rw [Nat.zero_add]
          exact hshort
      | some array₀ =>
        obtain ⟨hfront, rfl⟩ := h.taken k _ _ _ hd
        rw [queue_of_front hnodup ((List.take_prefix _ _).trans hfront)]
        obtain ⟨newer, hnewer⟩ := hfront
        change array₀.drop (offset₀ + cap) <+: _
        change array₀.drop (offset₀ + cap) ≠ [] at hrest
        have hlong : ((array₀.drop offset₀).take cap).length = cap := by
          rw [List.length_take, Nat.min_eq_left]
          rw [← List.drop_drop, Ne, List.drop_eq_nil_iff, not_le] at hrest
          exact hrest.le
        rw [hlong, ← hnewer, List.drop_append, List.drop_drop]
        exact List.prefix_append _ _

/-- An answer that is out of order opens a push that is not of the front. -/
theorem not_inFront_of_not_orderly {i : Step} (hcap : 0 < cap) (h : InOrder cap s)
    (hready : Ready cap s.history.told s.box) (hi : ¬ Orderly cap s i) : ¬ InFront (s.step cap i).2 := by
  intro hfrontAfter
  cases i with
  | answer key now a =>
    simp only [Orderly, not_or, not_forall, not_le] at hi
    obtain ⟨ha, offset, chunk, hd, hpartial, hlong⟩ := hi
    obtain ⟨rfl, hfront⟩ := h.live key _ _ hd
    have hahead := hready.drains key _ _ _ hd
    have hshort : chunk.length < cap := lt_of_le_of_ne hahead.length hpartial
    have hnodup := hready.queue_nodup key
    cases answered cap s.box key now a with
    | stray hdrain hr hverdicts => exact hdrain _ _ _ hd
    | failed hdrain hfailed hr hverdicts => exact ha hfailed
    | @took array₀ offset₀ chunk₀ box' events hdrain ha htook hevents hr =>
      rw [hdrain] at hd
      cases hd
      have hstep : (s.step cap (.answer key now a)).2.box =
          (box'.pushFrom cap key (some (s.box.queues key)) (0 + cap)).2 := by
        change (s.box.answer cap key now a).2 = _
        rw [hr]
        rfl
      obtain ⟨hqueues, -, -, ⟨c, rfl, -, -, hopen⟩ | ⟨hnil, -, -⟩⟩ :=
        SyncOutbox.pushFrom_cases cap box' key (some (s.box.queues key)) (0 + cap)
      · have hprefix := hfrontAfter key _ _ _ (by rw [hstep, hopen, Function.update_self])
        rw [hstep, hqueues, htook.queues, Function.update_self, queue_of_front hnodup hfront, Option.getD_some,
          Nat.zero_add] at hprefix
        -- the first of the new chunk would stand at two places of the queue
        have hne : 0 < (((s.box.queues key).drop cap).take cap).length := by
          rw [List.length_take, List.length_drop]
          omega
        have hhead := hprefix.getElem hne
        rw [List.getElem_take, List.getElem_drop, List.getElem_drop, hnodup.of_map.getElem_inj_iff] at hhead
        omega
      · rw [Option.getD_some, Nat.zero_add, List.drop_eq_nil_iff] at hnil
        omega
  | _ => exact hi trivial

/-- The stove and the mug are enqueued while the push of the tent is open. -/
def outgrown : List Step := [.enqueue "trip:T1" tent, .drain "trip:T1", .enqueue "trip:T1" stove, .enqueue "trip:T1" mug,
  .answer "trip:T1" (fun _ => 0) (.response [⟨"2", .applied, [], none⟩])]

end Outbox

end JitPack
