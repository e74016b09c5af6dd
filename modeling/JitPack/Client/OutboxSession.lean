import JitPack.Client.OutboxRun

/-!
# What the outbox sends in a session

Within a session a mutation is pushed again and again until there is a verdict on it, and never after (`Ready`). What
carries that is that all a drain has not yet taken of its array is still in the queue (`Ahead`), so a drain hands out only
what waits.

A drain covers what it has found in the queue when it began (`Covered`), and that is what `whenSent` rests on.
-/

namespace JitPack

namespace Outbox

variable {cap : Nat} {box : SyncOutbox} {key k : PartitionKey} {m : Mutation} {s : State} {chunk queue : List Mutation}

/-- The queue of a partition, with what the `restore` under way will put behind it. -/
def SyncOutbox.waiting (box : SyncOutbox) : PartitionKey → List Mutation := rebuilt box.queues (box.loaded.getD [])

/-- `restore` is the first call of a session. -/
def Restores (s : State) : Step → Prop
  | .load _ => s.box = .new ∧ s.history.told = []
  | _ => True

/-- What is in front of a drain: a chunk of at most `cap`, and all that it has not taken yet is still queued. -/
structure Ahead (cap : Nat) (live array : List Mutation) (offset : Nat) (chunk : List Mutation) : Prop where
  nodup : (array.map (·.mutationID)).Nodup
  live : ∀ m ∈ array.drop offset, m ∈ live
  front : chunk <+: array.drop offset
  length : chunk.length ≤ cap
  ne_nil : 0 < cap → chunk ≠ []

/-- What waits is queued once, and without a verdict. -/
structure Waits (told : List String) (box : SyncOutbox) : Prop where
  nodup : ∀ k, ((box.waiting k).map (·.mutationID)).Nodup
  untold : ∀ k, ∀ m ∈ box.waiting k, m.mutationID ∉ told

/-- So every drain takes only what waits. -/
structure Ready (cap : Nat) (told : List String) (box : SyncOutbox) : Prop extends Waits told box where
  drains : ∀ k array offset chunk, box.draining k = some (.pushing array offset chunk) →
    Ahead cap (box.queues k) (array.getD (box.queues k)) offset chunk

theorem mem_waiting : m ∈ box.waiting k ↔ m ∈ box.queues k ∨ (k, m) ∈ box.loaded.getD [] := mem_rebuilt

theorem waiting_congr {box' : SyncOutbox} (hqueues : box'.queues = box.queues) (hloaded : box'.loaded = box.loaded) :
    box'.waiting = box.waiting := by
  rw [SyncOutbox.waiting, SyncOutbox.waiting, hqueues, hloaded]

/-- A drain that works through the queue itself goes on where the queue gets longer. -/
theorem Ahead.extend {live live' array array' : List Mutation} {offset : Nat}
    (h : Ahead cap live array offset chunk) (hnodup : (array'.map (·.mutationID)).Nodup) (harray : array <+: array')
    (hlive : ∀ m ∈ array'.drop offset, m ∈ live') : Ahead cap live' array' offset chunk :=
  ⟨hnodup, hlive, h.front.trans (harray.drop offset), h.length, h.ne_nil⟩

namespace Ready
variable {told : List String}

theorem queue_nodup (h : Ready cap told box) (k : PartitionKey) : ((box.queues k).map (·.mutationID)).Nodup :=
  (h.nodup k).sublist ((List.sublist_append_left _ _).map _)

theorem init : Ready cap told .new where
  nodup k := List.nodup_nil
  untold k m hm := by cases hm
  drains k array offset chunk hd := by cases hd

theorem pushFrom {array : Option (List Mutation)} {offset : Nat} (h : Waits told box)
    (hdrains : ∀ k, k ≠ key → ∀ array offset chunk, box.draining k = some (.pushing array offset chunk) →
      Ahead cap (box.queues k) (array.getD (box.queues k)) offset chunk)
    (hnodup : ((array.getD (box.queues key)).map (·.mutationID)).Nodup)
    (hlive : ∀ m ∈ (array.getD (box.queues key)).drop offset, m ∈ box.queues key) :
    Ready cap told (box.pushFrom cap key array offset).2 := by
  obtain ⟨hqueues, -, hloaded, hcases⟩ := SyncOutbox.pushFrom_cases cap box key array offset
  have hwaiting := waiting_congr hqueues hloaded
  refine ⟨⟨by rw [hwaiting]; exact h.nodup, by rw [hwaiting]; exact h.untold⟩, fun k array' offset' chunk' hd => ?_⟩
  rw [hqueues]
  by_cases hk : k = key
  · subst hk
    rcases hcases with ⟨chunk, rfl, hrest, -, hdrain⟩ | ⟨-, -, hdrain⟩
    · rw [hdrain, Function.update_self] at hd
      cases hd
      refine ⟨hnodup, hlive, List.take_prefix _ _, List.length_take_le _ _, fun hcap hnil => ?_⟩
      rcases List.take_eq_nil_iff.1 hnil with hzero | hnil
      · exact hcap.ne' hzero
      · exact hrest hnil
    · rw [hdrain, Function.update_self] at hd
      cases hd
  · refine hdrains k hk array' offset' chunk' ?_
    rcases hcases with ⟨chunk, -, -, -, hdrain⟩ | ⟨-, -, hdrain⟩
    · rwa [hdrain, Function.update_of_ne hk] at hd
    · rwa [hdrain, Function.update_of_ne hk] at hd

theorem calls {r : List Event × SyncOutbox} (h : Ready cap told box) (hcalls : SyncOutbox.Calls cap box key r) :
    Ready cap told r.2 := by
  obtain ⟨promised, ⟨-, rfl⟩ | rfl⟩ := hcalls.cases
  · have hsame : Ready cap told { box with queuedDrain := promised } := ⟨⟨h.nodup, h.untold⟩, h.drains⟩
    exact pushFrom hsame.toWaits (fun k _ => h.drains k) (h.queue_nodup key) fun m hm => List.mem_of_mem_drop hm
  · exact ⟨⟨h.nodup, h.untold⟩, h.drains⟩

theorem quiet {box' : SyncOutbox} (h : Ready cap told box) (hq : SyncOutbox.Quiet box box') : Ready cap told box' := by
  have hwaiting := waiting_congr hq.queues hq.loaded
  refine ⟨⟨by rw [hwaiting]; exact h.nodup, by rw [hwaiting]; exact h.untold⟩, fun k array offset chunk hd => ?_⟩
  rw [hq.queues]
  rcases hq.draining k with hsame | hnot
  · exact h.drains k _ _ _ (hsame ▸ hd)
  · exact absurd hd (hnot array offset chunk)

theorem enqueue (h : Ready cap told box) (htold : m.mutationID ∉ told)
    (hfresh : m.mutationID ∉ (box.waiting key).map (·.mutationID)) : Ready cap told (box.enqueue key m) := by
  have hqueues : (box.enqueue key m).queues = Function.update box.queues key (box.queues key ++ [m]) := rfl
  have hkey : (box.enqueue key m).waiting key =
      box.queues key ++ [m] ++ ((box.loaded.getD []).filter (·.1 = key)).map (·.2) := by
    rw [SyncOutbox.waiting, rebuilt, hqueues, Function.update_self]
    rfl
  have hother : ∀ k, k ≠ key → (box.enqueue key m).waiting k = box.waiting k := fun k hk => by
    rw [SyncOutbox.waiting, rebuilt, hqueues, Function.update_of_ne hk]
    rfl
  have hperm : ((box.enqueue key m).waiting key).Perm (m :: box.waiting key) := by
    rw [hkey, List.append_assoc]
    exact List.perm_middle
  have hnodup : (((box.enqueue key m).waiting key).map (·.mutationID)).Nodup :=
    (hperm.map _).nodup_iff.2 (List.nodup_cons.2 ⟨hfresh, h.nodup key⟩)
  refine ⟨⟨fun k => ?_, fun k m' hm' => ?_⟩, fun k array offset chunk hd => ?_⟩
  · by_cases hk : k = key
    · rw [hk]
      exact hnodup
    · rw [hother k hk]
      exact h.nodup k
  · by_cases hk : k = key
    · rw [hk, hperm.mem_iff] at hm'
      rcases List.mem_cons.1 hm' with rfl | hm'
      · exact htold
      · exact h.untold key m' hm'
    · rw [hother k hk] at hm'
      exact h.untold k m' hm'
  · have hbefore : Ahead cap (box.queues k) (array.getD (box.queues k)) offset chunk := h.drains k _ _ _ hd
    by_cases hk : k = key
    · subst hk
      rw [hqueues, Function.update_self]
      cases array with
      | none =>
        rw [hkey] at hnodup
        exact hbefore.extend (hnodup.sublist ((List.sublist_append_left _ _).map _)) (List.prefix_append _ _)
          fun m hm => List.mem_of_mem_drop hm
      | some array => exact hbefore.extend hbefore.nodup List.prefix_rfl fun m hm =>
          List.mem_append_left _ (hbefore.live m hm)
    · rw [hqueues, Function.update_of_ne hk]
      exact hbefore

/-- A verdict ends the wait of its chunk, and of nothing else. -/
theorem took {a : Answer} {box' : SyncOutbox} {array : Option (List Mutation)} {offset : Nat}
    (h : Ready cap told box) (hdrain : box.draining key = some (.pushing array offset chunk))
    (htook : Took box key chunk a box')
    (hunique : ∀ k, ∀ m ∈ box.waiting k, ∀ m' ∈ box.queues key, m.mutationID = m'.mutationID → k = key ∧ m = m') :
    Ready cap (told ++ (verdicts box key a).1 ++ (verdicts box key a).2)
      (box'.pushFrom cap key (some (array.getD (box.queues key))) (offset + cap)).2 := by
  have hahead := h.drains key _ _ _ hdrain
  have hchunk : ∀ m ∈ chunk, m ∈ box.queues key := fun m hm => hahead.live m (hahead.front.subset hm)
  have hother : ∀ k, k ≠ key → box'.queues k = box.queues k := fun k hk => by
    rw [htook.queues, Function.update_of_ne hk]
  have hkey : box'.queues key = (box.queues key).filter (·.mutationID ∉ chunk.map (·.mutationID)) := by
    rw [htook.queues, Function.update_self]
  have hsub : ∀ k, (box'.queues k).Sublist (box.queues k) := fun k => by
    by_cases hk : k = key
    · rw [hk, hkey]
      exact List.filter_sublist
    · rw [hother k hk]
  have hwaiting : ∀ k, (box'.waiting k).Sublist (box.waiting k) := fun k => by
    rw [SyncOutbox.waiting, SyncOutbox.waiting, rebuilt, rebuilt, htook.loaded]
    exact (hsub k).append (List.Sublist.refl _)
  refine pushFrom ⟨fun k => (h.nodup k).sublist ((hwaiting k).map _), fun k m hm => ?_⟩
    (fun k hk array' offset' chunk' hd => ?_) hahead.nodup fun m hm => ?_
  · have hm' := (hwaiting k).subset hm
    rw [List.append_assoc, List.mem_append, List.mem_append, htook.told, not_or]
    refine ⟨h.untold k m hm', fun hid => ?_⟩
    obtain ⟨c, hc, hid'⟩ := List.mem_map.1 hid
    obtain ⟨rfl, rfl⟩ := hunique k m hm' c (hchunk c hc) hid'.symm
    rcases mem_waiting.1 hm with hm | hm
    · rw [hkey] at hm
      exact of_decide_eq_true (List.mem_filter.1 hm).2 hid
    · -- what restore has read is not queued yet
      rw [htook.loaded] at hm
      have hnodup := h.nodup k
      rw [SyncOutbox.waiting, rebuilt, List.map_append] at hnodup
      exact (List.nodup_append'.1 hnodup).2.2 (List.mem_map_of_mem (hchunk m hc))
        (List.mem_map_of_mem (List.mem_map.2 ⟨(k, m), List.mem_filter.2 ⟨hm, decide_eq_true rfl⟩, rfl⟩))
  · rw [htook.draining] at hd
    rw [hother k hk]
    exact h.drains k _ _ _ hd
  · -- the chunk is the front of what was left, and no longer than the next offset
    change m ∈ (array.getD (box.queues key)).drop (offset + cap) at hm
    have hsplit : chunk <+: ((array.getD (box.queues key)).drop offset).take cap :=
      List.prefix_take_iff.2 ⟨hahead.front, hahead.length⟩
    rw [← List.drop_drop] at hm
    rw [hkey]
    refine List.mem_filter.2 ⟨hahead.live m (List.mem_of_mem_drop hm), decide_eq_true fun hid => ?_⟩
    have hnodup : (((array.getD (box.queues key)).drop offset).map (·.mutationID)).Nodup :=
      hahead.nodup.sublist ((List.drop_sublist _ _).map _)
    rw [← List.take_append_drop cap ((array.getD (box.queues key)).drop offset), List.map_append] at hnodup
    exact (List.nodup_append'.1 hnodup).2.2 ((hsplit.map _).subset hid) (List.mem_map_of_mem hm)

/-- The end of `restore` queues what waited. -/
theorem rebuild {pending : List (PartitionKey × Mutation)} {box' : SyncOutbox} (h : Ready cap told box)
    (hpending : box.loaded = some pending) (hqueues : box'.queues = rebuilt box.queues pending)
    (hloaded : box'.loaded = none) (hdraining : box'.draining = box.draining) : Ready cap told box' := by
  have hbefore : box.waiting = rebuilt box.queues pending := by rw [SyncOutbox.waiting, hpending, Option.getD_some]
  have hwaiting : box'.waiting = box.waiting := by
    funext k
    rw [hbefore, SyncOutbox.waiting, hqueues, hloaded]
    simp [rebuilt]
  refine ⟨⟨by rw [hwaiting]; exact h.nodup, by rw [hwaiting]; exact h.untold⟩, fun k array offset chunk hd => ?_⟩
  rw [hdraining] at hd
  have hahead := h.drains k _ _ _ hd
  rw [hqueues]
  cases array with
  | none =>
    refine hahead.extend ?_ (List.prefix_append _ _) fun m hm => List.mem_of_mem_drop hm
    rw [Option.getD_none, ← hbefore]
    exact h.nodup k
  | some array => exact hahead.extend hahead.nodup List.prefix_rfl fun m hm =>
      List.mem_append_left _ (hahead.live m hm)

/-- Where `restore` fails, what it has read waits no more. -/
theorem forgetLoaded {box' : SyncOutbox} (h : Ready cap told box) (hqueues : box'.queues = box.queues)
    (hloaded : box'.loaded = none) (hdraining : box'.draining = box.draining) : Ready cap told box' := by
  have hwaiting : ∀ k, (box'.waiting k).Sublist (box.waiting k) := fun k => by
    rw [SyncOutbox.waiting, SyncOutbox.waiting, rebuilt, rebuilt, hqueues, hloaded]
    exact (List.Sublist.refl _).append (by simp)
  refine ⟨⟨fun k => (h.nodup k).sublist ((hwaiting k).map _), fun k m hm => h.untold k m ((hwaiting k).subset hm)⟩, ?_⟩
  rw [hqueues, hdraining]
  exact h.drains

end Ready

/-- An id known for one mutation, in one partition. -/
theorem Sound.waiting (h : Sound s) {k : PartitionKey} {m : Mutation} (hm : m ∈ s.box.waiting k) :
    (k, m) ∈ s.history.enqueued := by
  rcases mem_waiting.1 hm with hm | hm
  · exact h.box.queues k m hm
  · cases hp : s.box.loaded with
    | none => rw [hp] at hm; cases hm
    | some pending =>
      rw [hp] at hm
      exact h.box.loaded pending hp _ hm

/-- What a session keeps. -/
structure Session (cap : Nat) (s : State) : Prop where
  sound : Sound s
  ready : Ready cap s.history.told s.box

theorem session_init : Session cap .init := ⟨sound_init, .init⟩

theorem Session.step {i : Step} (h : Session cap s) (hfresh : Fresh s i) (hrestores : Restores s i) :
    Session cap (s.step cap i).2 := by
  refine ⟨h.sound.step hfresh, ?_⟩
  cases i with
  | enqueue key m =>
    refine h.ready.enqueue (fun hid => hfresh (h.sound.told _ hid)) fun hid => ?_
    obtain ⟨m', hm', heq⟩ := List.mem_map.1 hid
    refine hfresh ?_
    rw [← heq]
    exact List.mem_map_of_mem (f := (·.2.mutationID)) (h.sound.waiting hm')
  | drain key => exact h.ready.calls SyncOutbox.calls_drain
  | follow key => exact h.ready.calls SyncOutbox.calls_follow
  | whenSent key => exact h.ready.calls SyncOutbox.calls_whenSent
  | answer key now a =>
    change Ready cap (s.history.told ++ (verdicts s.box key a).1 ++ (verdicts s.box key a).2)
      (s.box.answer cap key now a).2
    cases answered cap s.box key now a with
    | stray hdrain hr hverdicts =>
      rw [hr, hverdicts, List.append_nil, List.append_nil]
      exact h.ready
    | failed hdrain ha hr hverdicts =>
      rw [hr, hverdicts, List.append_nil, List.append_nil]
      exact h.ready.quiet SyncOutbox.quiet_endDrain
    | took hdrain ha htook hevents hr =>
      rw [hr]
      refine h.ready.took hdrain htook fun k m hm m' hm' hid => ?_
      have hsame := h.sound.eq_of_id (h.sound.waiting hm) (h.sound.box.queues key m' hm') hid
      exact ⟨congrArg Prod.fst hsame, congrArg Prod.snd hsame⟩
  | page key p => exact h.ready.quiet (SyncOutbox.quiet_page p)
  | pageFailed key =>
    simp only [State.step]
    split
    · exact h.ready.quiet SyncOutbox.quiet_endDrain
    · exact h.ready
  | settle ok =>
    simp only [State.step, State.settle]
    split
    · exact h.ready
    · exact ⟨⟨h.ready.nodup, h.ready.untold⟩, h.ready.drains⟩
  | crash => exact .init
  | load ok =>
    obtain ⟨hnew, htold⟩ := hrestores
    cases ok with
    | false => exact ⟨⟨h.ready.nodup, h.ready.untold⟩, h.ready.drains⟩
    | true =>
      have hwaiting : ∀ k, (s.step cap (.load true)).2.box.waiting k =
          (s.device.pending.filter (·.1 = k)).map (·.2) := fun k => by
        change rebuilt s.box.queues s.device.pending k = _
        rw [hnew]
        rfl
      refine ⟨⟨fun k => ?_, fun k m hm => ?_⟩, h.ready.drains⟩
      · rw [hwaiting, List.map_map]
        exact h.sound.once.sublist (List.filter_sublist.map _)
      · change m.mutationID ∉ s.history.told
        rw [htold]
        exact List.not_mem_nil
  | rebuild ok =>
    simp only [State.step, State.rebuild]
    split
    · exact h.ready
    · next pending hp =>
      cases ok with
      | false => exact h.ready.forgetLoaded rfl rfl rfl
      | true => exact h.ready.rebuild hp rfl rfl rfl

/-- What a step pushes is open after it. -/
theorem step_push {i : Step} (hpush : Event.push key chunk ∈ (s.step cap i).1) :
    ∃ array offset, (s.step cap i).2.box.draining key = some (.pushing array offset chunk) := by
  have hpushFrom : ∀ (box : SyncOutbox) k array offset, Event.push key chunk ∈ (box.pushFrom cap k array offset).1 →
      (box.pushFrom cap k array offset).2.draining key = some (.pushing array offset chunk) := by
    intro box k array offset hmem
    obtain ⟨-, -, -, ⟨c, -, -, hevents, hdrain⟩ | ⟨-, hevents, -⟩⟩ := SyncOutbox.pushFrom_cases cap box k array offset
    · rw [hevents, List.mem_singleton] at hmem
      cases hmem
      rw [hdrain, Function.update_self]
    · rw [hevents] at hmem
      cases hmem
  have hcalls : ∀ k r, SyncOutbox.Calls cap s.box k r → Event.push key chunk ∈ r.1 →
      ∃ array offset, r.2.draining key = some (.pushing array offset chunk) := by
    intro k r hcalls hmem
    obtain ⟨promised, ⟨-, rfl⟩ | rfl⟩ := hcalls.cases
    · exact ⟨_, _, hpushFrom _ _ _ _ hmem⟩
    · cases hmem
  cases i with
  | drain k => exact hcalls k _ SyncOutbox.calls_drain hpush
  | follow k => exact hcalls k _ SyncOutbox.calls_follow hpush
  | whenSent k => exact hcalls k _ SyncOutbox.calls_whenSent hpush
  | answer k now a =>
    change Event.push key chunk ∈ (s.box.answer cap k now a).1 at hpush
    change ∃ array offset, (s.box.answer cap k now a).2.draining key = some (.pushing array offset chunk)
    cases answered cap s.box k now a with
    | stray hdrain hr hverdicts => rw [hr] at hpush; cases hpush
    | failed hdrain ha hr hverdicts => rw [hr] at hpush; cases hpush
    | took hdrain ha htook hevents hr =>
      rw [hr] at hpush ⊢
      rcases List.mem_append.1 hpush with hpush | hpush
      · exact absurd hpush (hevents key chunk)
      · exact ⟨_, _, hpushFrom _ _ _ _ hpush⟩
  | page k p => exact absurd hpush SyncOutbox.page_events
  | pageFailed k =>
    simp only [State.step] at hpush
    split at hpush
    · cases hpush
    · cases hpush
  | load ok =>
    cases ok with
    | false => cases List.mem_singleton.1 hpush
    | true => cases hpush
  | rebuild ok =>
    simp only [State.step, State.rebuild] at hpush
    split at hpush
    · cases hpush
    · cases ok <;> cases List.mem_singleton.1 hpush
  | enqueue k m => cases hpush
  | settle ok => cases hpush
  | crash => cases hpush

/-- Between two answers of a partition its queue only grows, and the drain of it that pushes goes on. -/
structure Goes (key : PartitionKey) (box box' : SyncOutbox) : Prop where
  queue : box.queues key <+: box'.queues key
  drain : ∀ array offset chunk, box.draining key = some (.pushing array offset chunk) →
    box'.draining key = some (.pushing array offset chunk)

theorem goes_refl : Goes key box box := ⟨List.prefix_rfl, fun _ _ _ h => h⟩

theorem goes_pushFrom {array : Option (List Mutation)} {offset : Nat} (h : box.draining k = none ∨ k ≠ key) :
    Goes key box (box.pushFrom cap k array offset).2 := by
  obtain ⟨hqueues, -, -, hcases⟩ := SyncOutbox.pushFrom_cases cap box k array offset
  refine ⟨by rw [hqueues], fun array' offset' chunk' hd => ?_⟩
  have hk : key ≠ k := by
    rintro rfl
    rcases h with hnone | hne
    · rw [hnone] at hd
      cases hd
    · exact hne rfl
  rcases hcases with ⟨c, -, -, -, hdrain⟩ | ⟨-, -, hdrain⟩
  · rw [hdrain, Function.update_of_ne hk]
    exact hd
  · rw [hdrain, Function.update_of_ne hk]
    exact hd

theorem goes_calls {r : List Event × SyncOutbox} (h : SyncOutbox.Calls cap box k r) : Goes key box r.2 := by
  obtain ⟨promised, ⟨hnone, rfl⟩ | rfl⟩ := h.cases
  · have h : Goes key _ (SyncOutbox.pushFrom cap { box with queuedDrain := promised } k none 0).2 :=
      goes_pushFrom (.inl hnone)
    exact ⟨h.queue, h.drain⟩
  · exact ⟨List.prefix_rfl, fun _ _ _ hd => hd⟩

theorem goes_pull_end {box' : SyncOutbox} (hqueues : box'.queues = box.queues)
    (hother : ∀ k', k' ≠ k → box'.draining k' = box.draining k')
    (hpulling : ∀ array offset chunk, box.draining k ≠ some (.pushing array offset chunk)) : Goes key box box' := by
  refine ⟨by rw [hqueues], fun array offset chunk hd => ?_⟩
  by_cases hk : key = k
  · exact absurd (hk ▸ hd) (hpulling array offset chunk)
  · rw [hother key hk]
    exact hd

theorem goes_page {p : Page} : Goes key box (box.page k p).2 := by
  unfold SyncOutbox.page
  split
  · next hd =>
    dsimp only
    split
    · exact goes_pull_end (k := k) rfl (fun k' hk' => Function.update_of_ne hk' _ _) (by simp [hd])
    · exact goes_pull_end (k := k) rfl (fun k' hk' => Function.update_of_ne hk' _ _) (by simp [hd])
  · exact goes_refl

theorem goes_answer {now : Mutation → Nat} {a : Answer} (hk : k ≠ key) : Goes key box (box.answer cap k now a).2 := by
  cases answered cap box k now a with
  | stray hdrain hr hverdicts =>
    rw [hr]
    exact goes_refl
  | failed hdrain ha hr hverdicts =>
    rw [hr]
    exact ⟨List.prefix_rfl, fun array offset chunk hd => (Function.update_of_ne (Ne.symm hk) _ _).trans hd⟩
  | took hdrain ha htook hevents hr =>
    rw [hr]
    refine ⟨List.IsPrefix.trans ?_ (goes_pushFrom (.inr hk)).queue,
      fun array offset chunk hd => (goes_pushFrom (.inr hk)).drain _ _ _ ?_⟩
    · rw [htook.queues, Function.update_of_ne (Ne.symm hk)]
    · rw [htook.draining]
      exact hd

theorem told_step {i : Step} (hi : i ≠ .crash) : ∀ id ∈ s.history.told, id ∈ (s.step cap i).2.history.told := by
  intro id hid
  cases i with
  | answer key now a => exact List.mem_append_left _ (List.mem_append_left _ hid)
  | pageFailed key =>
    simp only [State.step]
    split
    · exact hid
    · exact hid
  | settle ok =>
    simp only [State.step, State.settle]
    split
    · exact hid
    · exact hid
  | load ok => cases ok <;> exact hid
  | rebuild ok =>
    simp only [State.step, State.rebuild]
    split
    · exact hid
    · cases ok <;> exact hid
  | enqueue key m => exact hid
  | drain key => exact hid
  | follow key => exact hid
  | whenSent key => exact hid
  | page key p => exact hid
  | crash => exact absurd rfl hi

theorem goes_step {i : Step} (hcrash : i ≠ .crash) (hanswer : ∀ now a, i ≠ .answer key now a) :
    Goes key s.box (s.step cap i).2.box := by
  cases i with
  | enqueue k m =>
    refine ⟨?_, fun _ _ _ hd => hd⟩
    change s.box.queues key <+: Function.update s.box.queues k (s.box.queues k ++ [m]) key
    by_cases hk : key = k
    · rw [hk, Function.update_self]
      exact List.prefix_append _ _
    · rw [Function.update_of_ne hk]
  | drain k => exact goes_calls SyncOutbox.calls_drain
  | follow k => exact goes_calls SyncOutbox.calls_follow
  | whenSent k => exact goes_calls SyncOutbox.calls_whenSent
  | answer k now a => exact goes_answer fun hk => hanswer now a (hk ▸ rfl)
  | page k p => exact goes_page
  | pageFailed k =>
    simp only [State.step]
    split
    · next hd => exact goes_pull_end (k := k) rfl (fun k' hk' => Function.update_of_ne hk' _ _) (by simp [hd])
    · exact goes_refl
  | settle ok =>
    simp only [State.step, State.settle]
    split
    · exact goes_refl
    · exact ⟨List.prefix_rfl, fun _ _ _ hd => hd⟩
  | load ok => cases ok <;> exact ⟨List.prefix_rfl, fun _ _ _ hd => hd⟩
  | rebuild ok =>
    simp only [State.step, State.rebuild]
    split
    · exact goes_refl
    · cases ok with
      | false => exact ⟨List.prefix_rfl, fun _ _ _ hd => hd⟩
      | true => exact ⟨List.prefix_append _ _, fun _ _ _ hd => hd⟩
  | crash => exact absurd rfl hcrash

/-- A mutation has its verdict, or waits in its queue for it. -/
def Owed (key : PartitionKey) (m : Mutation) (s : State) : Prop :=
  m.mutationID ∈ s.history.told ∨ m ∈ s.box.queues key

theorem Owed.step {i : Step} (hi : i ≠ .crash) (h : Owed key m s) : Owed key m (s.step cap i).2 := by
  rcases h with htold | hm
  · exact .inl (told_step hi _ htold)
  by_cases hanswer : ∀ now a, i ≠ .answer key now a
  · exact .inr ((goes_step hi hanswer).queue.subset hm)
  · simp only [not_forall, not_not] at hanswer
    obtain ⟨now, a, rfl⟩ := hanswer
    change m.mutationID ∈ s.history.told ++ (verdicts s.box key a).1 ++ (verdicts s.box key a).2 ∨
      m ∈ (s.box.answer cap key now a).2.queues key
    cases answered cap s.box key now a with
    | stray hdrain hr hverdicts =>
      rw [hr]
      exact .inr hm
    | failed hdrain ha hr hverdicts =>
      rw [hr]
      exact .inr hm
    | @took array offset chunk box' events hdrain ha htook hevents hr =>
      rw [hr, (SyncOutbox.pushFrom_cases ..).1, htook.queues, Function.update_self, List.append_assoc, List.mem_append,
        List.mem_append, htook.told]
      by_cases hid : m.mutationID ∈ chunk.map (·.mutationID)
      · exact .inl (.inr hid)
      · exact .inr (List.mem_filter.2 ⟨hm, decide_eq_true hid⟩)

/-- A mutation has its verdict, or the drain under way has it in its chunk or in front of it. -/
def Covered (cap : Nat) (key : PartitionKey) (m : Mutation) (s : State) : Prop :=
  m.mutationID ∈ s.history.told ∨ ∃ array offset chunk, s.box.draining key = some (.pushing array offset chunk) ∧
    (m ∈ chunk ∨ m ∈ (array.getD (s.box.queues key)).drop (offset + cap))

/-- The drain that `whenSent` starts covers all that is queued. -/
theorem Owed.whenSent (h : Owed key m s) (hidle : s.box.draining key = none) :
    Covered cap key m (s.step cap (.whenSent key)).2 := by
  rcases h with htold | hm
  · exact .inl htold
  have hpending : 0 < s.box.pendingCount key := List.length_pos_of_mem hm
  have hstep : (s.step cap (.whenSent key)).2.box = (s.box.pushFrom cap key none 0).2 := by
    simp only [State.step, State.with, SyncOutbox.whenSent, if_pos hpending, SyncOutbox.drain, hidle,
      SyncOutbox.runDrain]
  obtain ⟨hqueues, -, -, ⟨c, rfl, -, -, hdrain⟩ | ⟨hnil, -, -⟩⟩ := SyncOutbox.pushFrom_cases cap s.box key none 0
  · refine .inr ⟨none, 0, _, by rw [hstep, hdrain, Function.update_self], ?_⟩
    rw [hstep, hqueues, Nat.zero_add, List.drop_zero, ← List.mem_append, List.take_append_drop]
    exact hm
  · rw [List.drop_zero] at hnil
    rw [Option.getD_none] at hnil
    rw [hnil] at hm
    cases hm

/-- The session goes on, and no push of the partition fails. -/
def Answering (key : PartitionKey) (_ : State) : Step → Prop
  | .crash => False
  | .answer k _ .failed => k ≠ key
  | _ => True

/-- The next round of the loop takes what was in front of the drain. -/
theorem covered_pushFrom {array : List Mutation} {offset : Nat} (hm : m ∈ array.drop offset) :
    ∃ array' offset' chunk, (box.pushFrom cap key (some array) offset).2.draining key =
        some (.pushing array' offset' chunk) ∧
      (m ∈ chunk ∨ m ∈ (array'.getD ((box.pushFrom cap key (some array) offset).2.queues key)).drop (offset' + cap)) := by
  obtain ⟨-, -, -, ⟨c, rfl, -, -, hdrain⟩ | ⟨hnil, -, -⟩⟩ := SyncOutbox.pushFrom_cases cap box key (some array) offset
  · refine ⟨some array, offset, _, by rw [hdrain, Function.update_self], ?_⟩
    rw [Option.getD_some, Option.getD_some, ← List.drop_drop, ← List.mem_append, List.take_append_drop]
    exact hm
  · rw [Option.getD_some] at hnil
    rw [hnil] at hm
    cases hm

theorem Covered.step {i : Step} (hi : Answering key s i) (h : Covered cap key m s) :
    Covered cap key m (s.step cap i).2 := by
  have hcrash : i ≠ .crash := by
    rintro rfl
    exact hi
  rcases h with htold | ⟨array, offset, chunk, hd, hm⟩
  · exact .inl (told_step hcrash _ htold)
  by_cases hanswer : ∀ now a, i ≠ .answer key now a
  · have hgoes : Goes key s.box (s.step cap i).2.box := goes_step hcrash hanswer
    refine .inr ⟨array, offset, chunk, hgoes.drain _ _ _ hd, hm.imp_right fun hm => ?_⟩
    cases array with
    | none => exact (hgoes.queue.drop (offset + cap)).subset hm
    | some array => exact hm
  · simp only [not_forall, not_not] at hanswer
    obtain ⟨now, a, rfl⟩ := hanswer
    change m.mutationID ∈ s.history.told ++ (verdicts s.box key a).1 ++ (verdicts s.box key a).2 ∨
      ∃ array offset chunk, (s.box.answer cap key now a).2.draining key = some (.pushing array offset chunk) ∧
        (m ∈ chunk ∨ m ∈ (array.getD ((s.box.answer cap key now a).2.queues key)).drop (offset + cap))
    cases answered cap s.box key now a with
    | stray hdrain hr hverdicts => exact absurd hd (hdrain _ _ _)
    | failed hdrain ha hr hverdicts =>
      subst ha
      exact absurd rfl hi
    | took hdrain ha htook hevents hr =>
      rw [hdrain] at hd
      cases hd
      rcases hm with hm | hm
      · rw [List.append_assoc, List.mem_append, List.mem_append, htook.told]
        exact .inl (.inr (List.mem_map_of_mem hm))
      · rw [hr]
        exact .inr (covered_pushFrom hm)

/-- The session goes on. -/
def Lives (_ : State) (i : Step) : Prop := i ≠ .crash

/-- What is owed when `whenSent` finds no drain running has its verdict once the drain that it starts pushes no more. -/
theorem Owed.told {mid post : List Step} (hm : Owed key m s) (hmid : (outbox cap).Legal Lives s mid)
    (hidle : ((outbox cap).after s mid).box.draining key = none)
    (hpost : (outbox cap).Legal (Answering key) ((outbox cap).after s (mid ++ [.whenSent key])) post)
    (hended : ∀ array offset chunk, ((outbox cap).after s (mid ++ .whenSent key :: post)).box.draining key ≠
      some (.pushing array offset chunk)) :
    m.mutationID ∈ ((outbox cap).after s (mid ++ .whenSent key :: post)).history.told := by
  have howed : Owed key m ((outbox cap).after s mid) := Machine.after_invariant (fun _ _ hi hs => hs.step hi) hm hmid
  have hstart : Covered cap key m ((outbox cap).after s (mid ++ [.whenSent key])) := by
    rw [Machine.after_append]
    exact howed.whenSent hidle
  have hcovered := Machine.after_invariant (fun _ _ hi hs => hs.step hi) hstart hpost
  rw [← Machine.after_append, List.append_assoc, List.singleton_append] at hcovered
  rcases hcovered with htold | ⟨array, offset, chunk, hd, -⟩
  · exact htold
  · exact absurd hd (hended array offset chunk)

/-- **`whenSent` is right**: where it finds no drain running and no push of the partition fails from then on, the drain
that it starts does not end before everything that had been queued when the caller came has its verdict, whatever else is
enqueued, drained, restored and answered meanwhile. -/
theorem sent_told {mid post : List Step} (hm : m ∈ s.box.queues key) (hmid : (outbox cap).Legal Lives s mid)
    (hidle : ((outbox cap).after s mid).box.draining key = none)
    (hpost : (outbox cap).Legal (Answering key) ((outbox cap).after s (mid ++ [.whenSent key])) post)
    (hended : ∀ array offset chunk, ((outbox cap).after s (mid ++ .whenSent key :: post)).box.draining key ≠
      some (.pushing array offset chunk)) :
    m.mutationID ∈ ((outbox cap).after s (mid ++ .whenSent key :: post)).history.told :=
  Owed.told (.inr hm) hmid hidle hpost hended

/-- A new session that has restored what was pending. -/
def restart : List Step := [.crash, .load true, .rebuild true]

theorem restart_queues (s : State) (k : PartitionKey) :
    ((outbox cap).after s restart).box.queues k = (s.device.pending.filter (·.1 = k)).map (·.2) := rfl

/-- **A restart forgets nothing**: what the storage held when the device was started again has its verdict in the new
session, once the drain that `whenSent` has started there pushes no more. -/
theorem restarted_told {x : PartitionKey × Mutation} {mid post : List Step} (hx : x ∈ s.device.pending)
    (hmid : (outbox cap).Legal Lives ((outbox cap).after s restart) mid)
    (hidle : ((outbox cap).after s (restart ++ mid)).box.draining x.1 = none)
    (hpost : (outbox cap).Legal (Answering x.1) ((outbox cap).after s (restart ++ (mid ++ [.whenSent x.1]))) post)
    (hended : ∀ array offset chunk, ((outbox cap).after s (restart ++ (mid ++ .whenSent x.1 :: post))).box.draining x.1 ≠
      some (.pushing array offset chunk)) :
    x.2.mutationID ∈ ((outbox cap).after s (restart ++ (mid ++ .whenSent x.1 :: post))).history.told := by
  rw [Machine.after_append] at hidle hpost hended ⊢
  refine Owed.told (.inr ?_) hmid hidle hpost hended
  rw [restart_queues]
  exact List.mem_map.2 ⟨x, List.mem_filter.2 ⟨hx, decide_eq_true rfl⟩, rfl⟩

/-! ### Two mutations in one push -/

theorem packed_legal : (outbox maxPushBatch).Legal Fresh .init (packed ++ [.drain "trip:T1"]) := by
  simp only [packed, List.cons_append, List.nil_append, Machine.legal_cons, Machine.legal_nil, Fresh]
  exact ⟨by decide, by decide, trivial, trivial, trivial⟩

/-- The server has both. -/
def bothApplied : Answer := .response [⟨"2", .applied, [], none⟩, ⟨"3", .applied, [], none⟩]

theorem tent_told :
    tent.mutationID ∈ ((outbox maxPushBatch).after ((outbox maxPushBatch).after .init packed)
      ([] ++ .whenSent "trip:T1" :: [.answer "trip:T1" (fun _ => 0) bothApplied])).history.told :=
  sent_told (.head _) Machine.legal_nil rfl (by
      simp only [Machine.legal_cons, Machine.legal_nil, Answering, bothApplied]
      exact ⟨trivial, trivial⟩)
    fun array offset chunk hd => by cases hd

/-- In the session after it, only the tent is left to push. -/
theorem tent_restarted :
    tent.mutationID ∈ ((outbox maxPushBatch).after ((outbox maxPushBatch).after .init packed)
      (restart ++ ([] ++ .whenSent "trip:T1" :: [.answer "trip:T1" (fun _ => 0) bothApplied]))).history.told :=
  restarted_told (x := ("trip:T1", tent)) (.head _) Machine.legal_nil rfl (by
      simp only [Machine.legal_cons, Machine.legal_nil, Answering, bothApplied]
      exact ⟨trivial, trivial⟩)
    fun array offset chunk hd => by cases hd

end Outbox

end JitPack
