import JitPack.Client.OutboxSession

/-!
# From the outbox to the store

A device pushes its outbox, the server memoizes by mutation id, and either may fail at any point: a request may reach the
server late, twice or never, and its reply the device late or never, while others use the server too. The device forgets
a mutation only once the server has it on record or has refused it (`Linked`), and the server lands none that it has on
record (`pushBatch_known`).
-/

namespace JitPack

namespace Outbox

/-! ## The push of a partition -/

/-- A partition: the id of a trip, or none for the master feed. -/
abbrev PartitionRef := Option String

def tripPrefix : String := "trip:"

def masterKey : PartitionKey := "master"

/-- `partitionKey`. -/
def partitionKey (ref : PartitionRef) : PartitionKey := ref.elim masterKey (tripPrefix ++ ·)

/-- `partitionRef`. -/
def partitionRef (key : PartitionKey) : PartitionRef :=
  if key = masterKey then none else some (String.ofList (key.toList.drop tripPrefix.length))

theorem partitionRef_partitionKey (ref : PartitionRef) : partitionRef (partitionKey ref) = ref := by
  cases ref with
  | none => rfl
  | some id =>
    have hne : tripPrefix ++ id ≠ masterKey := fun h => by
      have hhead := congrArg (fun s : String => s.toList.head?) h
      rw [String.toList_append] at hhead
      cases hhead
    change partitionRef (tripPrefix ++ id) = some id
    rw [partitionRef, if_neg hne, String.toList_append]
    exact congrArg some (String.ofList_toList (s := id))

section
variable (userID : String) (key : PartitionKey)

/-- What the handler of the partition has the store do with a mutation. -/
def request (m : Mutation) : Request :=
  match partitionRef key with
  | none => .pushMaster userID m
  | some tripID => .push tripID userID m

/-- `applyPushBatch` for the partition, with the verdicts of the mutations before the one that failed. -/
def pushBatch : List (Mutation × Turn) → Server → List PushedMutation × Bool × Server
  | [], σ => ([], true, σ)
  | (m, t) :: rest, σ =>
    let σ := server.after σ t.others
    let (answer, σ) := server.step σ ⟨t.env, t.faults, request userID key m⟩
    match verdict m answer with
    | none => ([], false, σ)
    | some p =>
      let (pushed, ok, σ) := pushBatch rest σ
      (p :: pushed, ok, σ)

end

/-- The loop of a trip is that of `handlePush`. -/
theorem pushBatch_trip (userID tripID : String) (sent : List (Mutation × Turn)) (σ : Server) :
    applyPushBatch tripID userID sent σ =
      (if (pushBatch userID (partitionKey (some tripID)) sent σ).2.1 then
        some (pushBatch userID (partitionKey (some tripID)) sent σ).1 else none,
        (pushBatch userID (partitionKey (some tripID)) sent σ).2.2) := by
  induction sent generalizing σ with
  | nil => rfl
  | cons mt rest ih =>
    obtain ⟨m, t⟩ := mt
    have hcall : (⟨t.env, t.faults, request userID (partitionKey (some tripID)) m⟩ : Call) = t.call tripID userID m := by
      rw [request, partitionRef_partitionKey]
      rfl
    simp only [applyPushBatch, pushBatch, hcall]
    cases hv : verdict m (server.step (server.after σ t.others) (t.call tripID userID m)).1 with
    | none => rfl
    | some p =>
      simp only [ih]
      split <;> rfl

section
variable {userID : String} {key : PartitionKey} {σ : Server}

theorem not_landed {p : PushedMutation} (h : p.result.outcome = .rejected) : ¬ p.landed := by
  simp [PushedMutation.landed, h]

variable (userID key) in
theorem request_pushed (m : Mutation) : ∃ p, (request userID key m).pushed = some (p, m) := by
  unfold request
  split
  · exact ⟨_, rfl⟩
  · exact ⟨_, rfl⟩

/-- What lands was not known before, and a verdict that is no refusal is on record. -/
theorem verdict_known {m : Mutation} {t : Turn} {p : PushedMutation}
    (h : verdict m (server.step σ ⟨t.env, t.faults, request userID key m⟩).1 = some p) :
    (p.landed → ¬ Known σ m.mutationID) ∧
      ((p.result.mutationID = m.mutationID ∧ p.result.outcome = .rejected) ∨
        Known (server.step σ ⟨t.env, t.faults, request userID key m⟩).2 m.mutationID) := by
  have hrefused : p.result.mutationID = m.mutationID → p.result.outcome = .rejected →
      (p.landed → ¬ Known σ m.mutationID) ∧
        ((p.result.mutationID = m.mutationID ∧ p.result.outcome = .rejected) ∨
          Known (server.step σ ⟨t.env, t.faults, request userID key m⟩).2 m.mutationID) :=
    fun hid hout => ⟨fun hl => absurd hl (not_landed hout), .inl ⟨hid, hout⟩⟩
  obtain ⟨part, hpushed⟩ := request_pushed userID key m
  cases hans : (server.step σ ⟨t.env, t.faults, request userID key m⟩).1 with
  | error e =>
    rw [hans] at h
    cases e <;> cases h <;> exact hrefused rfl rfl
  | ok a =>
    rw [hans] at h
    cases a with
    | result res =>
      obtain ⟨hid, hrem⟩ := push_remembered (c := ⟨t.env, t.faults, request userID key m⟩) hpushed hans
      refine ⟨fun hl => ?_, .inr ⟨res, hrem, hid⟩⟩
      rintro ⟨res', hrem', hid'⟩
      obtain ⟨-, hreplay, -⟩ := push_replay (c := ⟨t.env, t.faults, request userID key m⟩) hpushed hrem' hid'.symm
      cases h
      rcases hreplay _ hans with he | he
      · cases he
      · cases he
        cases hl
    | done => cases h; exact hrefused rfl rfl
    | malformed => cases h; exact hrefused rfl rfl
    | seq n => cases h; exact hrefused rfl rfl
    | taken event => cases h; exact hrefused rfl rfl

variable (userID key) in
/-- **A batch lands each mutation once**, whichever calls come in between and whichever of its statements fail: what
lands is new, and known from then on, and where the batch is answered, everything in it is refused or known. -/
theorem pushBatch_known (sent : List (Mutation × Turn)) (σ : Server) :
    (∃ calls, (pushBatch userID key sent σ).2.2 = server.after σ calls) ∧
      ((landedMutations (pushBatch userID key sent σ).1).map (·.mutationID)).Nodup ∧
      (∀ m ∈ landedMutations (pushBatch userID key sent σ).1, m ∈ sent.map (·.1) ∧ ¬ Known σ m.mutationID ∧
        Known (pushBatch userID key sent σ).2.2 m.mutationID) ∧
      ((pushBatch userID key sent σ).2.1 → ∀ m ∈ sent.map (·.1),
        (∃ p ∈ (pushBatch userID key sent σ).1, p.result.mutationID = m.mutationID ∧ p.result.outcome = .rejected) ∨
          Known (pushBatch userID key sent σ).2.2 m.mutationID) := by
  induction sent generalizing σ with
  | nil => exact ⟨⟨[], rfl⟩, List.nodup_nil, (fun m hm => by cases hm), (fun _ m hm => by cases hm)⟩
  | cons mt rest ih =>
    obtain ⟨m, t⟩ := mt
    obtain ⟨τ, hτ⟩ : ∃ τ, τ = (server.step (server.after σ t.others) ⟨t.env, t.faults, request userID key m⟩).2 :=
      ⟨_, rfl⟩
    have hbefore : ∀ id, Known σ id → Known τ id := fun id hk => by
      have := (hk.after t.others).after [⟨t.env, t.faults, request userID key m⟩]
      rw [hτ]
      exact this
    obtain ⟨⟨calls, hcalls⟩, hnodup, hlanded, hanswered⟩ := ih τ
    have hafter : ∀ id, Known τ id → Known (pushBatch userID key rest τ).2.2 id := fun id hk => hcalls ▸ hk.after calls
    simp only [pushBatch]
    rw [← hτ]
    cases hv : verdict m (server.step (server.after σ t.others) ⟨t.env, t.faults, request userID key m⟩).1 with
    | none =>
      refine ⟨⟨t.others ++ [⟨t.env, t.faults, request userID key m⟩], ?_⟩, List.nodup_nil,
        (fun m hm => by cases hm), ?_⟩
      · rw [Machine.after_append, hτ]
        rfl
      · intro hfalse
        cases hfalse
    | some p =>
      obtain ⟨hnew, hverdict⟩ := verdict_known hv
      rw [← hτ] at hverdict
      have hknown : p.landed → Known τ m.mutationID := fun hl => by
        rcases hverdict with ⟨-, hout⟩ | hk
        · exact absurd hl (not_landed hout)
        · exact hk
      have hcons : landedMutations (p :: (pushBatch userID key rest τ).1) =
          (if p.landed then [m] else []) ++ landedMutations (pushBatch userID key rest τ).1 := by
        rw [landedMutations, List.filter_cons, ← verdict_mutation hv]
        split <;> rfl
      refine ⟨⟨t.others ++ ⟨t.env, t.faults, request userID key m⟩ :: calls, ?_⟩, ?_, ?_, ?_⟩
      · rw [Machine.after_append, Machine.after_cons, ← hτ, ← hcalls]
      · rw [hcons]
        split
        · next hl =>
          refine List.nodup_cons.2 ⟨fun hid => ?_, hnodup⟩
          obtain ⟨m', hm', heq⟩ := List.mem_map.1 hid
          exact (hlanded m' hm').2.1 (heq ▸ hknown hl)
        · exact hnodup
      · rw [hcons]
        intro m' hm'
        rcases List.mem_append.1 hm' with hm' | hm'
        · split at hm'
          · next hl =>
            obtain rfl := List.mem_singleton.1 hm'
            exact ⟨List.mem_cons_self, fun hk => hnew hl (hk.after t.others), hafter _ (hknown hl)⟩
          · cases hm'
        · obtain ⟨hmem, hfresh, hk⟩ := hlanded m' hm'
          exact ⟨List.mem_cons_of_mem _ hmem, fun hk => hfresh (hbefore _ hk), hk⟩
      · intro hok m' hm'
        rcases List.mem_cons.1 hm' with rfl | hm'
        · rcases hverdict with ⟨hid, hout⟩ | hk
          · exact .inl ⟨p, List.mem_cons_self, hid, hout⟩
          · exact .inr (hafter _ hk)
        · rcases hanswered hok m' hm' with ⟨q, hq, hid, hout⟩ | hk
          · exact .inl ⟨q, List.mem_cons_of_mem _ hq, hid, hout⟩
          · exact .inr hk

end

/-! ## The device and the server -/

/-- The push that an event makes. -/
def Event.pushed : Event → Option (PartitionKey × List Mutation)
  | .push key chunk => some (key, chunk)
  | _ => none

/-- The chunk that waits for its answer. -/
def SyncOutbox.sent (box : SyncOutbox) (key : PartitionKey) : Option (List Mutation) :=
  match box.draining key with
  | some (.pushing _ _ chunk) => some chunk
  | _ => none

/-- A device, the server, and what is on its way between them. -/
structure World where
  device : State
  store : Server
  requests : List (PartitionKey × List Mutation)
  replies : List (PartitionKey × List Mutation × List WireResult)

inductive WorldStep where
  /-- A step of the device that no reply makes. -/
  | device (i : Step)
  /-- What others have the server do. -/
  | others (calls : List Call)
  /-- A request reaches the server. It stays on its way, and may reach it again. -/
  | serve (n : Nat) (turns : Nat → Turn)
  /-- A reply reaches the device. -/
  | deliver (n : Nat) (now : Mutation → Nat)

section
variable (cap : Nat) (userID : String)

def World.act (w : World) (i : Step) : World :=
  let r := w.device.step cap i
  { w with device := r.2, requests := w.requests ++ r.1.filterMap Event.pushed }

/-- The ids that land, and the world after. -/
def World.step (w : World) : WorldStep → List String × World
  | .device i => ([], w.act cap i)
  | .others calls => ([], { w with store := server.after w.store calls })
  | .serve n turns =>
    match w.requests[n]? with
    | none => ([], w)
    | some (key, chunk) =>
      let r := pushBatch userID key (chunk.zipIdx.map fun p => (p.1, turns p.2)) w.store
      ((landedMutations r.1).map (·.mutationID), { w with
        store := r.2.2
        replies := if r.2.1 then w.replies ++ [(key, chunk, r.1.map (·.result))] else w.replies })
  | .deliver n now =>
    match w.replies[n]? with
    | none => ([], w)
    | some (key, _, results) =>
      ([], w.act cap (.answer key now (.response results)))

/-- A device against the server, over all interleavings. -/
def delivery : Machine World WorldStep (List String) where
  step := World.step cap userID

end

/-- Ids are given out once, only a reply is an answer of the server, and it comes to the push that it answers. A refused
envelope and a failure need no server. -/
def Honest (w : World) : WorldStep → Prop
  | .device i => Fresh w.device i ∧ ∀ key now results, i ≠ .answer key now (.response results)
  | .deliver n _ => ∀ r, w.replies[n]? = some r → w.device.box.sent r.1 = some r.2.1
  | _ => True

/-- What the device has taken for answered is known, and so is what a reply does not refuse. -/
structure Linked (w : World) : Prop where
  sound : Sound w.device
  requests : ∀ r ∈ w.requests, ∀ m ∈ r.2, (r.1, m) ∈ w.device.history.enqueued
  replies : ∀ r ∈ w.replies, ∀ m ∈ r.2.1, (refusalOf r.2.2 m).isSome ∨ Known w.store m.mutationID
  answered : ∀ id ∈ w.device.history.answered, Known w.store id

section
variable {cap : Nat} {userID : String} {w : World} {id : String}

/-- The first message of a device and its server. -/
def World.start (σ : Server) : World := ⟨.init, σ, [], []⟩

theorem linked_start (σ : Server) : Linked (.start σ) where
  sound := sound_init
  requests r hr := by cases hr
  replies r hr := by cases hr
  answered id hid := by cases hid

theorem refusalOf_isSome {results : List WireResult} {m : Mutation} {r : WireResult} (hr : r ∈ results)
    (hout : r.outcome = .rejected) (hid : r.mutationID = m.mutationID) : (refusalOf results m).isSome := by
  rw [refusalOf, List.getLast?_isSome]
  exact List.ne_nil_of_mem (List.mem_filter.2 ⟨hr, decide_eq_true ⟨hout, hid⟩⟩)

theorem sent_eq_some {box : SyncOutbox} {key : PartitionKey} {chunk : List Mutation} (h : box.sent key = some chunk) :
    ∃ array offset, box.draining key = some (.pushing array offset chunk) := by
  unfold SyncOutbox.sent at h
  split at h
  · next array offset c hd =>
    cases h
    exact ⟨array, offset, hd⟩
  · cases h

/-- Without a reply nothing is taken for answered. -/
theorem answered_of_silent {s : State} {i : Step} (hi : ∀ key now results, i ≠ .answer key now (.response results)) :
    (s.step cap i).2.history.answered = s.history.answered := by
  cases i with
  | answer key now a =>
    have hnone : (verdicts s.box key a).1 = [] := by
      unfold verdicts
      split
      · rfl
      · exact absurd rfl (hi key now _)
      · rfl
    change s.history.answered ++ (verdicts s.box key a).1 = s.history.answered
    rw [hnone, List.append_nil]
  | pageFailed key =>
    simp only [State.step]
    split
    · rfl
    · rfl
  | settle ok =>
    simp only [State.step, State.settle]
    split
    · rfl
    · rfl
  | load ok => cases ok <;> rfl
  | rebuild ok =>
    simp only [State.step, State.rebuild]
    split
    · rfl
    · cases ok <;> rfl
  | enqueue key m => rfl
  | drain key => rfl
  | follow key => rfl
  | whenSent key => rfl
  | page key p => rfl
  | crash => rfl

/-- What a step of the device sends was enqueued for that partition. -/
theorem Linked.act {i : Step} (h : Linked w) (hi : Fresh w.device i)
    (hanswered : ∀ id ∈ (w.device.step cap i).2.history.answered, Known w.store id) : Linked (w.act cap i) := by
  have hsound : Sound (w.device.step cap i).2 := h.sound.step hi
  refine ⟨hsound, fun r hr m hm => ?_, h.replies, hanswered⟩
  rcases List.mem_append.1 hr with hr | hr
  · exact (step_grows cap w.device i).enqueued _ (h.requests r hr m hm)
  · obtain ⟨e, he, hpushed⟩ := List.mem_filterMap.1 hr
    cases e <;> cases hpushed
    obtain ⟨array, offset, hdrain⟩ := step_push he
    exact (hsound.box.drains _ _ hdrain).2 m hm

theorem World.known_step {i : WorldStep} (hk : Known w.store id) : Known (w.step cap userID i).2.store id := by
  cases i with
  | device i => exact hk
  | others calls => exact hk.after calls
  | serve n turns =>
    simp only [World.step]
    split
    · exact hk
    · next key chunk hr =>
      obtain ⟨⟨calls, hcalls⟩, -⟩ := pushBatch_known userID key
        (chunk.zipIdx.map fun p => (p.1, turns p.2)) w.store
      change Known (pushBatch userID key (chunk.zipIdx.map fun p => (p.1, turns p.2)) w.store).2.2 id
      rw [hcalls]
      exact hk.after calls
  | deliver n now =>
    simp only [World.step]
    split
    · exact hk
    · exact hk

theorem Linked.step {i : WorldStep} (h : Linked w) (hi : Honest w i) : Linked (w.step cap userID i).2 := by
  cases i with
  | device i => exact h.act hi.1 (by rw [answered_of_silent hi.2]; exact h.answered)
  | others calls =>
    exact ⟨h.sound, h.requests, fun r hr m hm => (h.replies r hr m hm).imp_right (·.after calls),
      fun id hid => (h.answered id hid).after calls⟩
  | serve n turns =>
    have hknown : ∀ id, Known w.store id → Known (w.step cap userID (.serve n turns)).2.store id :=
      fun id hk => World.known_step hk
    simp only [World.step] at hknown ⊢
    split at hknown
    · exact h
    · next key chunk hr =>
      refine ⟨h.sound, h.requests, fun r hr m hm => ?_, fun id hid => hknown id (h.answered id hid)⟩
      have hbefore : r ∈ w.replies → (refusalOf r.2.2 m).isSome ∨
          Known (pushBatch userID key (chunk.zipIdx.map fun p => (p.1, turns p.2)) w.store).2.2 m.mutationID :=
        fun hr => (h.replies r hr m hm).imp_right (hknown _)
      dsimp only at hr
      split at hr
      · next hok =>
        rcases List.mem_append.1 hr with hr | hr
        · exact hbefore hr
        · obtain rfl := List.mem_singleton.1 hr
          have hsent : m ∈ (chunk.zipIdx.map fun p => (p.1, turns p.2)).map (·.1) := by
            rw [List.map_map]
            exact (List.zipIdx_map_fst 0 chunk).symm ▸ hm
          rcases (pushBatch_known userID key _ _).2.2.2 hok m hsent with ⟨p, hp, hid, hout⟩ | hk
          · exact .inl (refusalOf_isSome (List.mem_map_of_mem hp) hout hid)
          · exact .inr hk
      · exact hbefore hr
  | deliver n now =>
    simp only [World.step]
    split
    · exact h
    · next key chunk results hr =>
      obtain ⟨array, offset, hdrain⟩ := sent_eq_some (hi _ hr)
      refine h.act trivial fun id hid => ?_
      rcases List.mem_append.1 hid with hid | hid
      · exact h.answered id hid
      · have hverdicts : (verdicts w.device.box key (.response results)).1 = (chunk.map (·.mutationID)).filter
            (· ∉ (chunk.filter fun m => (refusalOf results m).isSome).map (·.mutationID)) := by
          simp only [verdicts, hdrain]
        rw [hverdicts] at hid
        obtain ⟨hmem, hnot⟩ := List.mem_filter.1 hid
        obtain ⟨m, hm, rfl⟩ := List.mem_map.1 hmem
        rcases h.replies _ (List.mem_of_getElem? hr) m hm with hrefused | hk
        · exact absurd (List.mem_map_of_mem (List.mem_filter.2 ⟨hm, hrefused⟩)) (of_decide_eq_true hnot)
        · exact hk

variable (cap userID) in
/-- A step of the world is one of the device, or leaves the device alone. -/
theorem World.step_device (w : World) (i : WorldStep) :
    (w.step cap userID i).2.device = w.device ∨
      ∃ j, (w.step cap userID i).2.device = (w.device.step cap j).2 ∧ (Honest w i → Fresh w.device j) := by
  cases i with
  | device i => exact .inr ⟨i, rfl, fun hi => hi.1⟩
  | others calls => exact .inl rfl
  | serve n turns =>
    simp only [World.step]
    split
    · exact .inl rfl
    · exact .inl rfl
  | deliver n now =>
    simp only [World.step]
    split
    · exact .inl rfl
    · next key chunk results hr => exact .inr ⟨.answer key now (.response results), rfl, fun _ => trivial⟩

variable (cap userID) in
/-- What lands in a step was enqueued on the device, is new, and is known from then on. -/
theorem World.landed_step (i : WorldStep) (h : Linked w) :
    (w.step cap userID i).1.Nodup ∧ ∀ id ∈ (w.step cap userID i).1, ¬ Known w.store id ∧
      Known (w.step cap userID i).2.store id ∧ id ∈ w.device.history.enqueued.map (·.2.mutationID) := by
  cases i with
  | device i => exact ⟨List.nodup_nil, fun id hid => by cases hid⟩
  | others calls => exact ⟨List.nodup_nil, fun id hid => by cases hid⟩
  | serve n turns =>
    simp only [World.step]
    split
    · exact ⟨List.nodup_nil, fun id hid => by cases hid⟩
    · next key chunk hr =>
      obtain ⟨-, hnodup, hlanded, -⟩ := pushBatch_known userID key
        (chunk.zipIdx.map fun p => (p.1, turns p.2)) w.store
      refine ⟨hnodup, fun id hid => ?_⟩
      obtain ⟨m, hm, rfl⟩ := List.mem_map.1 hid
      obtain ⟨hsent, hnew, hk⟩ := hlanded m hm
      rw [List.map_map] at hsent
      have hmem : m ∈ chunk := (List.zipIdx_map_fst 0 chunk) ▸ hsent
      exact ⟨hnew, hk, List.mem_map_of_mem (f := (·.2.mutationID))
        (h.requests _ (List.mem_of_getElem? hr) m hmem)⟩
  | deliver n now =>
    simp only [World.step]
    split
    · exact ⟨List.nodup_nil, fun id hid => by cases hid⟩
    · exact ⟨List.nodup_nil, fun id hid => by cases hid⟩

theorem Linked.after {is : List WorldStep} (h : Linked w) (his : (delivery cap userID).Legal Honest w is) :
    Linked ((delivery cap userID).after w is) :=
  Machine.after_invariant (fun _ _ hi hw => hw.step hi) h his

theorem known_after (is : List WorldStep) (hk : Known w.store id) :
    Known ((delivery cap userID).after w is).store id :=
  Machine.after_of_step (I := fun w : World => Known w.store id) (fun _ _ hk => World.known_step hk) hk is

/-- **Nothing lands twice**, whatever is sent again, by whichever session, after whichever crash. -/
theorem landed_once {is : List WorldStep} (h : Linked w) (his : (delivery cap userID).Legal Honest w is) :
    ((delivery cap userID).outputs w is).flatten.Nodup ∧
      ∀ id ∈ ((delivery cap userID).outputs w is).flatten, ¬ Known w.store id ∧
        Known ((delivery cap userID).after w is).store id := by
  induction is generalizing w with
  | nil => exact ⟨List.nodup_nil, fun id hid => by cases hid⟩
  | cons i is ih =>
    rw [Machine.legal_cons] at his
    obtain ⟨hnodup, hfirst⟩ := World.landed_step cap userID i h
    obtain ⟨hrest, hlater⟩ := ih (h.step his.1) his.2
    rw [Machine.outputs_cons, List.flatten_cons, Machine.after_cons]
    refine ⟨hnodup.append hrest fun id hid hid' => (hlater id hid').1 (hfirst id hid).2.1, fun id hid => ?_⟩
    rcases List.mem_append.1 hid with hid | hid
    · exact ⟨(hfirst id hid).1, known_after is (hfirst id hid).2.1⟩
    · exact ⟨fun hk => (hlater id hid).1 (World.known_step hk), (hlater id hid).2⟩

/-- What the steps of a device keep, the steps of its world keep. -/
theorem World.device_invariant {I : State → Prop} (hstep : ∀ s j, Fresh s j → I s → I (s.step cap j).2)
    {i : WorldStep} (hi : Honest w i) (h : I w.device) : I (w.step cap userID i).2.device := by
  rcases World.step_device cap userID w i with hsame | ⟨j, hj, hfresh⟩
  · rw [hsame]
    exact h
  · rw [hj]
    exact hstep _ j (hfresh hi) h

/-- What the storage holds is kept there until it is answered, in the world as on the device alone. -/
theorem kept_after {is : List WorldStep} {x : PartitionKey × Mutation} (h : Linked w)
    (his : (delivery cap userID).Legal Honest w is) (hx : x ∈ w.device.device.pending) :
    Kept ((delivery cap userID).after w is).device.device ((delivery cap userID).after w is).device.history x := by
  have hkept : ∀ (s : State) j, Fresh s j → (Sound s ∧ x ∈ s.history.enqueued ∧ Kept s.device s.history x) →
      Sound (s.step cap j).2 ∧ x ∈ (s.step cap j).2.history.enqueued ∧
        Kept (s.step cap j).2.device (s.step cap j).2.history x :=
    fun s j hj hs => ⟨hs.1.step hj, (step_grows cap s j).enqueued x hs.2.1, hs.2.2.step hs.1 hs.2.1⟩
  exact (Machine.after_invariant (I := fun w : World => Sound w.device ∧ x ∈ w.device.history.enqueued ∧
    Kept w.device.device w.device.history x) (fun w i hi hw => World.device_invariant hkept hi hw)
    ⟨h.sound, h.sound.pending x hx, .pending hx⟩ his).2.2

/-- **Exactly once, from the storage of the device to the store of the server**: a mutation that has reached the storage
is pending there, or parked and was refused, or on record at the server, after any further run; and whatever is sent
again, by whichever session and after whichever crash, no mutation lands twice in a run. -/
theorem delivered_exactlyOnce (σ : Server) {pre post : List WorldStep} {x : PartitionKey × Mutation}
    (hhonest : (delivery cap userID).Legal Honest (.start σ) (pre ++ post))
    (hx : x ∈ ((delivery cap userID).after (.start σ) pre).device.device.pending) :
    (x ∈ ((delivery cap userID).after (.start σ) (pre ++ post)).device.device.pending ∨
      (∃ e ∈ ((delivery cap userID).after (.start σ) (pre ++ post)).device.device.parked, e.partition = x.1 ∧
        e.mutation = x.2 ∧
        x.2.mutationID ∈ ((delivery cap userID).after (.start σ) (pre ++ post)).device.history.refused) ∨
      Known ((delivery cap userID).after (.start σ) (pre ++ post)).store x.2.mutationID) ∧
    ((delivery cap userID).outputs (.start σ) (pre ++ post)).flatten.Nodup ∧
    ∀ id ∈ ((delivery cap userID).outputs (.start σ) (pre ++ post)).flatten,
      ¬ Known σ id ∧ Known ((delivery cap userID).after (.start σ) (pre ++ post)).store id := by
  have hpre := (linked_start σ).after hhonest.append_left
  have hend := (linked_start σ).after hhonest
  refine ⟨?_, landed_once (linked_start σ) hhonest⟩
  have hkept := kept_after hpre hhonest.append_right hx
  rw [← Machine.after_append] at hkept
  cases hkept with
  | pending hx => exact .inl hx
  | parked he hkey hmutation hrefused => exact .inr (.inl ⟨_, he, hkey, hmutation, hrefused⟩)
  | answered hid => exact .inr (.inr (hend.answered _ hid))

end

/-! ### A push that reaches the server twice -/

/-- The tent is stored on the device. -/
def tentStored : List WorldStep := [.device (.enqueue "trip:T1" tent), .device (.settle true)]

/-- Its push reaches the server twice, and the device crashes before it has a reply. -/
def tentServed : List WorldStep :=
  [.device (.drain "trip:T1"), .serve 0 fun _ => .quiet, .serve 0 fun _ => .quiet, .device .crash]

theorem tent_delivered :
    (("trip:T1", tent) ∈ ((delivery maxPushBatch "ann").after (.start (server.after (.fresh .plain) annsTrip))
        (tentStored ++ tentServed)).device.device.pending ∨
      (∃ e ∈ ((delivery maxPushBatch "ann").after (.start (server.after (.fresh .plain) annsTrip))
          (tentStored ++ tentServed)).device.device.parked, e.partition = "trip:T1" ∧ e.mutation = tent ∧
        tent.mutationID ∈ ((delivery maxPushBatch "ann").after (.start (server.after (.fresh .plain) annsTrip))
          (tentStored ++ tentServed)).device.history.refused) ∨
      Known ((delivery maxPushBatch "ann").after (.start (server.after (.fresh .plain) annsTrip))
        (tentStored ++ tentServed)).store tent.mutationID) ∧
    ((delivery maxPushBatch "ann").outputs (.start (server.after (.fresh .plain) annsTrip))
      (tentStored ++ tentServed)).flatten.Nodup ∧
    ∀ id ∈ ((delivery maxPushBatch "ann").outputs (.start (server.after (.fresh .plain) annsTrip))
        (tentStored ++ tentServed)).flatten,
      ¬ Known (server.after (.fresh .plain) annsTrip) id ∧
        Known ((delivery maxPushBatch "ann").after (.start (server.after (.fresh .plain) annsTrip))
          (tentStored ++ tentServed)).store id :=
  delivered_exactlyOnce (server.after (.fresh .plain) annsTrip) (by
      simp only [tentStored, tentServed, List.cons_append, List.nil_append, Machine.legal_cons, Machine.legal_nil,
        Honest, Fresh]
      exact ⟨⟨by decide, by simp⟩, ⟨trivial, by simp⟩, ⟨trivial, by simp⟩, trivial, trivial, ⟨trivial, by simp⟩, trivial⟩)
    (.head _)

end Outbox

end JitPack
