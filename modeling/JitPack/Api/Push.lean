import JitPack.Store.ExactlyOnce

/-!
# The push handler

`handlePush` of `internal/api/server.go` and the loop `applyPushBatch` under it: the mutations of a batch are
written one by one, each in a transaction of its own, and after the last of them the handler tells the hub and the
notifier. A batch is sent again until it is answered; whether an answer gets lost on the way changes nothing here.

A mutation changes the trip in one run at most, because from then on the memo answers it (`Known`). So the notifier
is handed it once at most, and in the run that it changes the trip in, if that run is answered (`sideEffects`).
-/

namespace JitPack

open Txn (World)
open Txn.Proc

/-! ## The handler -/

def maxPushBatch : Nat := 200

/-- Why the wire says that a mutation was refused. -/
inductive PushError where
  | malformed
  | unknownTable
  | unknownColumn
  | refused (reason : RejectReason)
  deriving DecidableEq

/-- `MutationResult` of the wire. -/
structure WireResult where
  mutationID : String
  outcome : Outcome
  conflicts : List Conflict
  error : Option PushError
  deriving DecidableEq

/-- `PushResponse`. -/
structure PushResponse where
  results : List WireResult
  nextCursor : Nat
  deriving DecidableEq

/-- `pushedMutation`, with the sequence number that its verdict came with. A mutation stands for itself as it was
sent: what the store stamps into its fields is not followed here. -/
structure PushedMutation where
  mutation : Mutation
  result : WireResult
  seq : Nat

/-- `landed`. -/
def PushedMutation.landed (p : PushedMutation) : Bool := p.result.outcome = .applied || p.result.outcome = .merged

/-- What a mutation of a batch meets: the calls that the store serves before it, and what its own call reads and
which of its statements fail. -/
structure Turn where
  others : List Call
  env : Env
  faults : Nat → Bool

/-- The verdict on a mutation. An error that is not about its table or its columns has none. -/
def verdict (m : Mutation) : Except Error Answer → Option PushedMutation
  | .ok (.result res) =>
    some ⟨m, ⟨res.mutationID, res.outcome, res.conflicts, res.reason.map .refused⟩, res.seq⟩
  | .ok _ => some ⟨m, ⟨m.mutationID, .rejected, [], some .malformed⟩, 0⟩
  | .error .unknownTable => some ⟨m, ⟨m.mutationID, .rejected, [], some .unknownTable⟩, 0⟩
  | .error .unknownColumn => some ⟨m, ⟨m.mutationID, .rejected, [], some .unknownColumn⟩, 0⟩
  | .error _ => none

/-- The frame that `notifyLockEvents` sends for a mutation. -/
structure ItemLock where
  locked : Bool
  itemID : String
  name : String
  deriving DecidableEq

/-- What one run of the handler does: its answer if that is a success, and whom it tells what. -/
structure HandlerRun where
  response : Option PushResponse
  /-- `NotifyItemLocked` and `NotifyItemUnlocked`. -/
  locks : List ItemLock
  /-- `NotifyTripChanged`, with the sequence number that it announces. -/
  announced : Option Nat
  /-- `Pushed`. -/
  handed : List Mutation

/-- A run that ends with an error. -/
def HandlerRun.failed : HandlerRun := ⟨none, [], none, []⟩

/-- `landedMutations`. -/
def landedMutations (pushed : List PushedMutation) : List Mutation := (pushed.filter (·.landed)).map (·.mutation)

/-- `notifyLockEvents`. -/
def notifyLockEvents (pushed : List PushedMutation) : List ItemLock :=
  pushed.filterMap fun p =>
    if !p.landed ∨ p.mutation.table ≠ "trip_items" then none
    else (p.mutation.string fieldState).map fun state =>
      ⟨state = statePackingNow, p.mutation.id, (p.mutation.string "name").getD ""⟩

/-- The greatest sequence number of a batch. -/
def nextCursor (pushed : List PushedMutation) : Nat := pushed.foldl (fun cursor p => max cursor p.seq) 0

section
variable (tripID userID : String)

/-- The call of the store for a mutation. -/
def Turn.call (t : Turn) (m : Mutation) : Call := ⟨t.env, t.faults, .push tripID userID m⟩

/-- The loop of `applyPushBatch`: it ends at the first mutation without a verdict. -/
def applyPushBatch : List (Mutation × Turn) → Server → Option (List PushedMutation) × Server
  | [], σ => (some [], σ)
  | (m, t) :: rest, σ =>
    let σ := server.after σ t.others
    let (answer, σ) := server.step σ (t.call tripID userID m)
    match verdict m answer with
    | none => (none, σ)
    | some p =>
      let (pushed, σ) := applyPushBatch rest σ
      (pushed.map (p :: ·), σ)

/-- `handlePush`, where another person can exist (`hasSecondParty`) or not. -/
def handlePush (secondParty : Bool) (σ : Server) (sent : List (Mutation × Turn)) : HandlerRun × Server :=
  if maxPushBatch < sent.length then (.failed, σ)
  else match applyPushBatch tripID userID sent σ with
    | (none, σ) => (.failed, σ)
    | (some pushed, σ) =>
      ({ response := some ⟨pushed.map (·.result), nextCursor pushed⟩
         locks := notifyLockEvents pushed
         announced := if 0 < nextCursor pushed then some (nextCursor pushed) else none
         handed := if secondParty then landedMutations pushed else [] }, σ)

/-- One time that a batch is sent. -/
structure Attempt (batch : List Mutation) where
  sent : List (Mutation × Turn)
  same : sent.map (·.1) = batch

/-- The handler as a machine, over the times that a batch is sent. -/
def pushHandler (secondParty : Bool) (batch : List Mutation) : Machine Server (Attempt batch) HandlerRun where
  step σ a := handlePush tripID userID secondParty σ a.sent

/-- The loop from `σ` brings the mutation `m` to the state `τ` with the call `c`. -/
def LoopReaches (σ : Server) (sent : List (Mutation × Turn)) (m : Mutation) (c : Call) (τ : Server) : Prop :=
  ∃ before t rest, sent = before ++ (m, t) :: rest ∧ (applyPushBatch tripID userID before σ).1.isSome ∧
    τ = server.after (applyPushBatch tripID userID before σ).2 t.others ∧ c = t.call tripID userID m

/-- In a run of the handler from `σ`, the mutation `m` meets the state `τ` with the call `c`. -/
def Faces (σ : Server) (sent : List (Mutation × Turn)) (m : Mutation) (c : Call) (τ : Server) : Prop :=
  sent.length ≤ maxPushBatch ∧ LoopReaches tripID userID σ sent m c τ

/-- A call changes the rows of the store. -/
def Changes (τ : Server) (c : Call) : Prop := (server.step τ c).2.db.rows ≠ τ.db.rows

end

/-! ## The sequence number of a change -/

section
variable {s : Env} {p : Partition} {m : Mutation} {key : Key} {row : Row} {merged : MergeResult}
variable {faults : Nat → Option Error} {w w' : World Db Memory} {res : MutationResult} {retired : Bool}

theorem reject_rows {reason : RejectReason} {relog : Bool}
    (h : reject m key row p reason relog faults w = (.ok res, w')) : w'.disk.rows = w.db.rows := by
  obtain ⟨seq, -, c⟩ := reject_ok h
  rw [c.disk]
  split <;> rfl

/-- A write that changes a row of a trip comes with its place in the feed. -/
theorem land_seq (hafter : p.afterChange = none)
    (h : land s p m key row merged retired faults w = (.ok res, w')) (hseq : res.seq = 0) :
    w'.disk.rows = w.db.rows := by
  simp only [land, bind_ok] at h
  obtain ⟨cascaded, w₁, h₁, r, w₂, h₂, h⟩ := h
  obtain ⟨m₁, rfl⟩ := onlyIf_query_ok h₁
  rcases attempt_ok.1 h₂ with ⟨b, rfl, hr⟩ | ⟨rfl, e, he, hr⟩
  · obtain ⟨db₁, m₂, hper⟩ := persist_ok hr
    cases b with
    | false =>
      simp only [bind_ok] at h
      obtain ⟨_, w₃, h₃, h₄⟩ := h
      obtain ⟨db₂, m₃, n₃⟩ := logConflicts_ok h₃
      obtain ⟨-, c⟩ := finalize_ok h₄
      have hdb : db₁ = w₁.db := by cases hper <;> rfl
      rw [c.disk, m₃.db]
      exact n₃.rows.trans (by rw [m₂.db, hdb, m₁.db])
    | true =>
      simp only [bind_ok] at h
      obtain ⟨seq, w₃, h₃, _, w₄, -, seq', w₅, h₅, _, w₆, -, _, w₇, -, h₈⟩ := h
      obtain ⟨rfl, -⟩ := appendChangeLog_ok h₃
      obtain ⟨rfl, -⟩ := finalize_ok h₈
      simp only [Partition.owed, hafter, pure_ok] at h₅
      exact absurd (h₅.1.trans hseq) (Nat.succ_ne_zero _)
  · obtain ⟨m₂, -⟩ := persist_error hr
    rw [reject_rows h, m₂.db, m₁.db]

theorem resolve_seq (hafter : p.afterChange = none) (h : resolve s p m key row faults w = (.ok res, w'))
    (hseq : res.seq = 0) : w'.disk.rows = w.db.rows := by
  simp only [resolve, bind_ok] at h
  obtain ⟨tomb, w₁, h₁, h⟩ := h
  obtain ⟨m₁, -⟩ := onlyIf_query_ok h₁
  split at h
  · rw [reject_rows h, m₁.db]
  simp only [bind_ok] at h
  obtain ⟨blocked, w₂, h₂, h⟩ := h
  obtain ⟨m₂, -⟩ := onlyIf_query_ok h₂
  have hdb : w₂.db = w.db := m₂.db.trans m₁.db
  split at h
  · exact hdb ▸ land_seq hafter h hseq
  split at h
  · exact hdb ▸ reject_rows h
  · exact hdb ▸ land_seq hafter h hseq

/-- A mutation of a trip that changes a row comes with its place in the feed. -/
theorem applyMutation_seq (hafter : p.afterChange = none)
    (h : applyMutation s m p faults w = (.ok res, w')) (hseq : res.seq = 0) : w'.disk.rows = w.disk.rows := by
  unfold applyMutation at h
  cases hv : validate m p.tables with
  | error e => simp [hv] at h
  | ok t =>
    simp only [hv, transact_ok, bind_ok] at h
    obtain ⟨w₁, ⟨recorded, w₂, h₁, h₂⟩, rfl⟩ := h
    obtain ⟨-, rfl, rfl⟩ := query_ok.1 h₁
    cases hr : recordedResult m.mutationID w.disk with
    | some r =>
      simp only [hr, pure_ok] at h₂
      obtain ⟨rfl, rfl⟩ := h₂
      rfl
    | none =>
      simp only [hr, bind_ok, query_ok] at h₂
      obtain ⟨row, w₃, ⟨-, rfl, rfl⟩, gated, w₄, ⟨-, rfl, rfl⟩, h₃⟩ := h₂
      simp only [Txn.World.next_db] at h₃
      rcases hg : p.gate s w.disk t m with ⟨m', reason | reason⟩ <;> rw [Partition.gate] at hg <;>
        simp only [hg] at h₃
      · exact resolve_seq hafter h₃ hseq
      · exact reject_rows h₃

end

/-! ## What a push answers -/

/-- The write is one that earns a side effect. -/
def MutationResult.Lands (res : MutationResult) : Prop := res.outcome = .applied ∨ res.outcome = .merged

theorem merge_lands (row : Row) (m : Mutation) : (merge row m).outcome = .applied ∨ (merge row m).outcome = .merged := by
  have hfor (b : Bool) : outcomeFor b = .applied ∨ outcomeFor b = .merged := by cases b <;> simp [outcomeFor]
  by_cases hop : m.op = .delete
  · simp only [merge, hop, if_true]
    exact hfor _
  cases hrow : row.present with
  | true =>
    simp only [merge, hop, hrow, if_false, Bool.not_true, Bool.false_eq_true]
    exact hfor _
  | false =>
    have hkeep (es : List (Sigma fun _ : String => Value)) (r : MergeResult) :
        (es.foldl (fun r e => r.apply e.1 e.2 m.hlc) r).outcome = r.outcome := by
      induction es generalizing r with
      | nil => rfl
      | cons e es ih => exact ih _
    simp only [merge, hop, hrow, if_false, Bool.not_false, if_true, hkeep]
    exact .inl trivial

section
variable {tripID userID : String} {σ τ : Server} {t : Turn} {m : Mutation} {res : MutationResult}

/-- Somebody's mutation of this id has been answered. -/
def Known (σ : Server) (id : String) : Prop := ∃ res, σ.db.Remembers res ∧ res.mutationID = id

theorem Known.after {id : String} (h : Known σ id) (calls : List Call) : Known (server.after σ calls) id := by
  obtain ⟨res, hrem, hid⟩ := h
  exact ⟨res, remembers_after hrem calls, hid⟩

/-- A mutation that the pipeline answers is sound, and the answer says what was done. -/
theorem Turn.answer (h : (server.step τ (t.call tripID userID m)).1 = .ok (.result res)) :
    (HLC.valid m.hlc ∧ capMark m) ∧
      Applied t.env (tripPartition tripID userID) m τ.db res (server.step τ (t.call tripID userID m)).2.db ∧
      (res.seq = 0 → ¬ Changes τ (t.call tripID userID m)) := by
  simp only [Changes, server, Turn.call, serve, push] at h ⊢
  split at h
  · next hv =>
    rw [if_pos hv]
    rcases hr : applyMutation t.env m (tripPartition tripID userID) (t.call tripID userID m).oracle τ.world with
      ⟨e | res', w'⟩
    · simp only [Turn.call] at hr
      rw [bind_eq, hr] at h
      cases h
    · have hr' := hr
      simp only [Turn.call] at hr'
      rw [bind_eq, hr'] at h ⊢
      cases h
      obtain ⟨db, happ, hdisk, -⟩ := applyMutation_ok tripPartition_hooked (Call.oracle_ne _) hr
      refine ⟨hv, hdisk ▸ happ, fun hseq hne => hne ?_⟩
      exact applyMutation_seq rfl hr hseq
  · cases h

/-- What changes a row lands, with its place in the feed. -/
theorem Turn.lands (h : Changes τ (t.call tripID userID m)) :
    ∃ res, (server.step τ (t.call tripID userID m)).1 = .ok (.result res) ∧ res.Lands ∧ 0 < res.seq := by
  have hpushed : (t.call tripID userID m).request.pushed = some (tripPartition tripID userID, m) := rfl
  cases hans : (server.step τ (t.call tripID userID m)).1 with
  | error e => exact absurd (by rw [push_error hpushed hans]) h
  | ok answer =>
    have hresult : ∃ res, answer = .result res ∨ (server.step τ (t.call tripID userID m)).2 = τ := by
      simp only [server, Turn.call, serve, push] at hans ⊢
      split at hans
      · rcases hr : applyMutation t.env m (tripPartition tripID userID) (t.call tripID userID m).oracle τ.world with
          ⟨e | res', w'⟩ <;> simp only [Turn.call] at hr <;> rw [bind_eq, hr] at hans
        · cases hans
        · exact ⟨res', .inl (Except.ok.inj hans).symm⟩
      · next hv => exact ⟨⟨"", .applied, [], 0, none⟩, .inr (by rw [if_neg hv]; rfl)⟩
    obtain ⟨res, rfl | hsame⟩ := hresult
    · obtain ⟨-, happ, hseq⟩ := Turn.answer hans
      refine ⟨res, rfl, ?_, Nat.pos_of_ne_zero fun h0 => hseq h0 h⟩
      have hrows : (server.step τ (t.call tripID userID m)).2.db.rows ≠ τ.db.rows := h
      generalize (server.step τ (t.call tripID userID m)).2.db = db' at happ hrows
      cases happ with
      | duplicate => exact absurd rfl hrows
      | refused => exact absurd (by split <;> rfl) hrows
      | landed _ _ _ land =>
        cases land with
        | refused => exact absurd rfl hrows
        | unchanged hr => subst hr; exact merge_lands _ _
        | changed hr => subst hr; exact merge_lands _ _
    · exact absurd (by rw [hsame]) h

/-- What lands was not known before, and is known from then on. -/
theorem Turn.fresh (h : (server.step τ (t.call tripID userID m)).1 = .ok (.result res)) (hlands : res.Lands) :
    ¬ Known τ m.mutationID := by
  rintro ⟨res', hrem, hid⟩
  have hpushed : (t.call tripID userID m).request.pushed = some (tripPartition tripID userID, m) := rfl
  obtain ⟨-, hans, -⟩ := push_replay hpushed hrem hid.symm
  obtain he | he := hans _ h
  · cases he
  · cases he
    exact hlands.elim (fun h => by cases h) fun h => by cases h

theorem Turn.known (h : (server.step τ (t.call tripID userID m)).1 = .ok (.result res)) :
    res.mutationID = m.mutationID ∧ (server.step τ (t.call tripID userID m)).2.db.Remembers res :=
  push_remembered rfl h

/-- What lands is sound. -/
theorem Turn.sound (h : (server.step τ (t.call tripID userID m)).1 = .ok (.result res)) (hlands : res.Lands) :
    (HLC.valid m.hlc ∧ capMark m) ∧ ∃ table, validate m (tripPartition tripID userID).tables = .ok table := by
  obtain ⟨hsound, happ, -⟩ := Turn.answer h
  refine ⟨hsound, ?_⟩
  generalize (server.step τ (t.call tripID userID m)).2.db = db' at happ
  cases happ with
  | duplicate hrec =>
    obtain ⟨memo, -, rfl⟩ := Option.map_eq_some_iff.1 hrec
    exact hlands.elim (fun h => by cases h) fun h => by cases h
  | refused _ valid => exact ⟨_, valid⟩
  | landed _ valid => exact ⟨_, valid⟩

/-- A sound mutation that is known is answered from the memo, unless the memo cannot be read. -/
theorem Turn.replay (hsound : HLC.valid m.hlc ∧ capMark m)
    (hval : ∃ t, validate m (tripPartition tripID userID).tables = .ok t) (hrem : τ.db.Remembers res)
    (hid : res.mutationID = m.mutationID) :
    (server.step τ (t.call tripID userID m)).1 = .ok (.result res.replay) ∨
      (server.step τ (t.call tripID userID m)).1 = .error .fault := by
  obtain ⟨table, hval⟩ := hval
  rw [Db.Remembers, hid] at hrem
  simp only [server, Turn.call, serve, push, if_pos hsound]
  have hdisk : (Server.world τ).disk = τ.db := rfl
  cases hf : t.faults 0 with
  | true =>
    refine .inr ?_
    have hfault : (t.call tripID userID m).oracle 0 = some .fault := by simp [Turn.call, Call.oracle, hf]
    simp only [Turn.call] at hfault
    simp [applyMutation, hval, transact, bind_eq, query, exec, Server.world, hfault]
  | false =>
    have hfault : (t.call tripID userID m).oracle 0 = none := by simp [Turn.call, Call.oracle, hf]
    simp only [Turn.call] at hfault
    refine .inl ?_
    have hans := (applyMutation_replay (s := t.env) (p := tripPartition tripID userID) (w := τ.world)
      (Call.oracle ⟨t.env, t.faults, .push tripID userID m⟩) (hdisk ▸ hrem)).2.2.2 ⟨table, hval⟩ hfault
    rcases hr : applyMutation t.env m (tripPartition tripID userID)
      (Call.oracle ⟨t.env, t.faults, .push tripID userID m⟩) τ.world with ⟨e | r, w'⟩ <;> rw [hr] at hans
    · cases hans
    · cases hans
      rw [bind_eq, hr]
      rfl

end

/-! ## The loop -/

section
variable {tripID userID : String} {σ τ : Server} {sent before rest : List (Mutation × Turn)} {t : Turn} {m : Mutation}
variable {c : Call} {p : PushedMutation} {pushed : List PushedMutation} {answer : Except Error Answer}

theorem verdict_mutation (h : verdict m answer = some p) : p.mutation = m := by
  unfold verdict at h
  split at h <;> cases h <;> rfl

/-- A verdict that lands, or has a sequence number, is the answer of the pipeline. -/
theorem verdict_result (h : verdict m answer = some p) (hp : p.landed ∨ 0 < p.seq) :
    ∃ res, answer = .ok (.result res) ∧ p.seq = res.seq ∧ (p.landed ↔ res.Lands) := by
  unfold verdict at h
  split at h <;> cases h
  · next res => exact ⟨res, rfl, rfl, by simp [PushedMutation.landed, MutationResult.Lands]⟩
  all_goals simp [PushedMutation.landed] at hp

theorem verdict_of_result {res : MutationResult} (h : verdict m (.ok (.result res)) = some p) :
    p.seq = res.seq ∧ (p.landed ↔ res.Lands) := by
  cases h
  exact ⟨rfl, by simp [PushedMutation.landed, MutationResult.Lands]⟩

variable (tripID userID) in
/-- The loop takes the server through calls. -/
theorem applyPushBatch_calls (sent : List (Mutation × Turn)) (σ : Server) :
    ∃ calls, (applyPushBatch tripID userID sent σ).2 = server.after σ calls := by
  induction sent generalizing σ with
  | nil => exact ⟨[], rfl⟩
  | cons mt rest ih =>
    obtain ⟨m, t⟩ := mt
    simp only [applyPushBatch]
    cases hv : verdict m (server.step (server.after σ t.others) (t.call tripID userID m)).1 with
    | none => exact ⟨t.others ++ [t.call tripID userID m], by simp [Machine.after_append]⟩
    | some p =>
      obtain ⟨calls, hcalls⟩ := ih (server.step (server.after σ t.others) (t.call tripID userID m)).2
      exact ⟨t.others ++ t.call tripID userID m :: calls, by simp [Machine.after_append, hcalls]⟩

/-- A mutation of an answered batch has had its turn, and its verdict is among those of the batch. -/
theorem applyPushBatch_split
    (h : (applyPushBatch tripID userID (before ++ (m, t) :: rest) σ).1 = some pushed) :
    (applyPushBatch tripID userID before σ).1.isSome ∧ ∃ p ∈ pushed, verdict m (server.step
      (server.after (applyPushBatch tripID userID before σ).2 t.others) (t.call tripID userID m)).1 = some p := by
  induction before generalizing σ pushed with
  | nil =>
    refine ⟨rfl, ?_⟩
    simp only [List.nil_append, applyPushBatch] at h ⊢
    cases hv : verdict m (server.step (server.after σ t.others) (t.call tripID userID m)).1 with
    | none => simp [hv] at h
    | some p =>
      simp only [hv, Option.map_eq_some_iff] at h
      obtain ⟨ps, -, rfl⟩ := h
      exact ⟨p, List.mem_cons_self, rfl⟩
  | cons mt before ih =>
    obtain ⟨m', t'⟩ := mt
    simp only [List.cons_append, applyPushBatch] at h ⊢
    cases hv : verdict m' (server.step (server.after σ t'.others) (t'.call tripID userID m')).1 with
    | none => simp [hv] at h
    | some p =>
      simp only [hv, Option.map_eq_some_iff] at h ⊢
      obtain ⟨ps, hps, rfl⟩ := h
      obtain ⟨hsome, q, hq, hverdict⟩ := ih hps
      exact ⟨by simpa using hsome, q, List.mem_cons_of_mem _ hq, hverdict⟩

/-- A verdict of an answered batch is one on a mutation that has had its turn. -/
theorem mem_applyPushBatch (h : (applyPushBatch tripID userID sent σ).1 = some pushed) (hp : p ∈ pushed) :
    ∃ c τ, LoopReaches tripID userID σ sent p.mutation c τ ∧ verdict p.mutation (server.step τ c).1 = some p := by
  induction sent generalizing σ pushed with
  | nil =>
    cases h
    cases hp
  | cons mt rest ih =>
    obtain ⟨m, t⟩ := mt
    simp only [applyPushBatch] at h
    cases hv : verdict m (server.step (server.after σ t.others) (t.call tripID userID m)).1 with
    | none => simp [hv] at h
    | some q =>
      simp only [hv, Option.map_eq_some_iff] at h
      obtain ⟨ps, hps, rfl⟩ := h
      obtain rfl | hp := List.mem_cons.1 hp
      · obtain rfl := verdict_mutation hv
        exact ⟨_, _, ⟨[], t, rest, rfl, rfl, rfl, rfl⟩, hv⟩
      · obtain ⟨c, τ, ⟨before, t', rest', rfl, hsome, rfl, rfl⟩, hverdict⟩ := ih hps hp
        refine ⟨_, _, ⟨(m, t) :: before, t', rest', rfl, ?_, ?_, rfl⟩, hverdict⟩
        · simp only [applyPushBatch, hv]
          simpa using hsome
        · simp only [applyPushBatch, hv]

/-- The ids that a batch lands are distinct, new, and known from then on. -/
theorem landed_fresh (h : (applyPushBatch tripID userID sent σ).1 = some pushed) :
    ((landedMutations pushed).map (·.mutationID)).Nodup ∧
      ∀ id ∈ (landedMutations pushed).map (·.mutationID),
        ¬ Known σ id ∧ Known (applyPushBatch tripID userID sent σ).2 id := by
  induction sent generalizing σ pushed with
  | nil =>
    cases h
    simp [landedMutations]
  | cons mt rest ih =>
    obtain ⟨m, t⟩ := mt
    simp only [applyPushBatch] at h ⊢
    cases hv : verdict m (server.step (server.after σ t.others) (t.call tripID userID m)).1 with
    | none => simp [hv] at h
    | some q =>
      simp only [hv, Option.map_eq_some_iff] at h ⊢
      obtain ⟨ps, hps, rfl⟩ := h
      obtain ⟨hnodup, hids⟩ := ih hps
      have hnew (id) (hid : id ∈ (landedMutations ps).map (·.mutationID)) : ¬ Known σ id := fun hk =>
        (hids id hid).1 ((hk.after t.others).after [t.call tripID userID m])
      by_cases hq : q.landed
      · obtain ⟨res, hans, -, hlands⟩ := verdict_result hv (.inl hq)
        obtain ⟨hid, hrem⟩ := Turn.known hans
        have hknown : Known (server.step (server.after σ t.others) (t.call tripID userID m)).2 m.mutationID :=
          ⟨res, hrem, hid⟩
        have hfinal : Known (applyPushBatch tripID userID rest
            (server.step (server.after σ t.others) (t.call tripID userID m)).2).2 m.mutationID := by
          obtain ⟨calls, hcalls⟩ := applyPushBatch_calls tripID userID rest
            (server.step (server.after σ t.others) (t.call tripID userID m)).2
          exact hcalls ▸ hknown.after calls
        have hcons : landedMutations (q :: ps) = m :: landedMutations ps := by
          simp [landedMutations, hq, verdict_mutation hv]
        rw [hcons]
        refine ⟨List.nodup_cons.2 ⟨fun hmem => (hids _ hmem).1 hknown, hnodup⟩, fun id hmem => ?_⟩
        obtain rfl | hmem := List.mem_cons.1 hmem
        · exact ⟨fun hk => Turn.fresh hans (hlands.1 hq) (hk.after t.others), hfinal⟩
        · exact ⟨hnew id hmem, (hids id hmem).2⟩
      · have hcons : landedMutations (q :: ps) = landedMutations ps := by simp [landedMutations, hq]
        rw [hcons]
        exact ⟨hnodup, fun id hmem => ⟨hnew id hmem, (hids id hmem).2⟩⟩

end

theorem foldl_max_seq (pushed : List PushedMutation) (cursor : Nat) :
    cursor ≤ pushed.foldl (fun cursor p => max cursor p.seq) cursor ∧
      (∀ p ∈ pushed, p.seq ≤ pushed.foldl (fun cursor p => max cursor p.seq) cursor) ∧
      (pushed.foldl (fun cursor p => max cursor p.seq) cursor = cursor ∨
        ∃ p ∈ pushed, p.seq = pushed.foldl (fun cursor p => max cursor p.seq) cursor) := by
  induction pushed generalizing cursor with
  | nil => simp
  | cons q pushed ih =>
    obtain ⟨hle, hall, hmem⟩ := ih (max cursor q.seq)
    simp only [List.foldl_cons, List.mem_cons, forall_eq_or_imp, exists_eq_or_imp]
    refine ⟨by omega, ⟨by omega, hall⟩, ?_⟩
    obtain hmem | hmem := hmem
    · rw [hmem]
      omega
    · exact .inr (.inr hmem)

/-! ## The side effects of a batch -/

/-- The side effects of a batch that is sent again and again. -/
structure SideEffects (tripID userID : String) (secondParty : Bool) (batch : List Mutation) (σ : Server)
    (attempts : List (Attempt batch)) : Prop where
  /-- The notifier is handed nothing twice. -/
  once : ((((pushHandler tripID userID secondParty batch).outputs σ attempts).flatMap (·.handed)).map
    (·.mutationID)).Nodup
  /-- A run that is answered hands over what it changes the trip with, where there is anybody to notify. -/
  handed : ∀ pre a post, attempts = pre ++ a :: post → ∀ τ₀ run,
    τ₀ = (pushHandler tripID userID secondParty batch).after σ pre →
    run = (handlePush tripID userID secondParty τ₀ a.sent).1 → run.response.isSome → secondParty →
    ∀ m c τ, Faces tripID userID τ₀ a.sent m c τ → Changes τ c → m ∈ run.handed
  /-- A run hands over only what it lands: nothing that is refused and no duplicate. -/
  earned : ∀ pre a post, attempts = pre ++ a :: post → ∀ τ₀,
    τ₀ = (pushHandler tripID userID secondParty batch).after σ pre →
    ∀ m ∈ (handlePush tripID userID secondParty τ₀ a.sent).1.handed, ∃ c τ res,
      Faces tripID userID τ₀ a.sent m c τ ∧ (server.step τ c).1 = .ok (.result res) ∧ res.Lands
  /-- Every run that is answered announces what the batch has changed so far. -/
  announced : ∀ pre a post, attempts = pre ++ a :: post → ∀ pre' a' post', attempts = pre' ++ a' :: post' →
    pre.length ≤ pre'.length → ∀ τ₀ run', τ₀ = (pushHandler tripID userID secondParty batch).after σ pre →
    run' = (handlePush tripID userID secondParty
      ((pushHandler tripID userID secondParty batch).after σ pre') a'.sent).1 → run'.response.isSome →
    ∀ m c τ, Faces tripID userID τ₀ a.sent m c τ → Changes τ c →
      ∃ res n, (server.step τ c).1 = .ok (.result res) ∧ 0 < res.seq ∧ run'.announced = some n ∧ res.seq ≤ n
  /-- What a run announces is on record for a mutation of the batch. -/
  recorded : ∀ pre a post, attempts = pre ++ a :: post → ∀ τ₀,
    τ₀ = (pushHandler tripID userID secondParty batch).after σ pre →
    ∀ n, (handlePush tripID userID secondParty τ₀ a.sent).1.announced = some n → ∃ m c τ res,
      Faces tripID userID τ₀ a.sent m c τ ∧ (server.step τ c).1 = .ok (.result res) ∧ res.seq = n

section
variable {tripID userID : String} {secondParty : Bool} {batch : List Mutation} {σ τ : Server}
variable {sent : List (Mutation × Turn)} {m : Mutation} {c : Call}

/-- A run that is answered has been through the loop. -/
theorem handlePush_answered (h : (handlePush tripID userID secondParty σ sent).1.response.isSome) :
    sent.length ≤ maxPushBatch ∧ ∃ pushed, (applyPushBatch tripID userID sent σ).1 = some pushed ∧
      (handlePush tripID userID secondParty σ sent).1 =
        { response := some ⟨pushed.map (·.result), nextCursor pushed⟩
          locks := notifyLockEvents pushed
          announced := if 0 < nextCursor pushed then some (nextCursor pushed) else none
          handed := if secondParty then landedMutations pushed else [] } := by
  unfold handlePush at h ⊢
  split
  · next hlong => simp [hlong, HandlerRun.failed] at h
  next hshort =>
  rw [if_neg hshort] at h
  refine ⟨not_lt.1 hshort, ?_⟩
  rcases hloop : applyPushBatch tripID userID sent σ with ⟨_ | pushed, σ'⟩
  · simp [hloop, HandlerRun.failed] at h
  · exact ⟨pushed, rfl, rfl⟩

/-- A run that hands over or announces anything is answered. -/
theorem handlePush_failed (h : ¬ (handlePush tripID userID secondParty σ sent).1.response.isSome) :
    (handlePush tripID userID secondParty σ sent).1 = .failed := by
  unfold handlePush at h ⊢
  split
  · rfl
  next hshort =>
  rw [if_neg hshort] at h
  rcases hloop : applyPushBatch tripID userID sent σ with ⟨_ | pushed, σ'⟩
  · rfl
  · simp [hloop] at h

variable (secondParty) in
theorem handlePush_state (hshort : sent.length ≤ maxPushBatch) :
    (handlePush tripID userID secondParty σ sent).2 = (applyPushBatch tripID userID sent σ).2 := by
  unfold handlePush
  rw [if_neg (not_lt.2 hshort)]
  rcases applyPushBatch tripID userID sent σ with ⟨_ | pushed, σ'⟩ <;> rfl

variable (tripID userID secondParty) in
theorem handlePush_calls (σ : Server) (sent : List (Mutation × Turn)) :
    ∃ calls, (handlePush tripID userID secondParty σ sent).2 = server.after σ calls := by
  unfold handlePush
  split
  · exact ⟨[], rfl⟩
  · obtain ⟨calls, hcalls⟩ := applyPushBatch_calls tripID userID sent σ
    refine ⟨calls, ?_⟩
    rw [← hcalls]
    rcases applyPushBatch tripID userID sent σ with ⟨_ | pushed, σ'⟩ <;> rfl

variable (tripID userID secondParty) in
theorem pushHandler_calls (attempts : List (Attempt batch)) (σ : Server) :
    ∃ calls, (pushHandler tripID userID secondParty batch).after σ attempts = server.after σ calls := by
  induction attempts generalizing σ with
  | nil => exact ⟨[], rfl⟩
  | cons a attempts ih =>
    obtain ⟨first, hfirst⟩ := handlePush_calls tripID userID secondParty σ a.sent
    obtain ⟨calls, hcalls⟩ := ih (handlePush tripID userID secondParty σ a.sent).2
    exact ⟨first ++ calls, by rw [Machine.after_cons, Machine.after_append, ← hfirst, ← hcalls]; rfl⟩

variable (tripID userID secondParty) in
/-- What a run hands over is new, and known from then on. -/
theorem handed_fresh (σ : Server) (sent : List (Mutation × Turn)) :
    ((handlePush tripID userID secondParty σ sent).1.handed.map (·.mutationID)).Nodup ∧
      ∀ id ∈ (handlePush tripID userID secondParty σ sent).1.handed.map (·.mutationID),
        ¬ Known σ id ∧ Known (handlePush tripID userID secondParty σ sent).2 id := by
  by_cases hans : (handlePush tripID userID secondParty σ sent).1.response.isSome
  · obtain ⟨hshort, pushed, hloop, hrun⟩ := handlePush_answered hans
    rw [hrun, handlePush_state secondParty hshort]
    cases secondParty with
    | false => simp
    | true => exact landed_fresh hloop
  · rw [handlePush_failed hans]
    simp [HandlerRun.failed]

/-- The notifier is handed nothing twice. -/
theorem handed_once (attempts : List (Attempt batch)) (σ : Server) :
    ((((pushHandler tripID userID secondParty batch).outputs σ attempts).flatMap (·.handed)).map
        (·.mutationID)).Nodup ∧
      ∀ id ∈ (((pushHandler tripID userID secondParty batch).outputs σ attempts).flatMap (·.handed)).map
        (·.mutationID), ¬ Known σ id := by
  induction attempts generalizing σ with
  | nil => simp
  | cons a attempts ih =>
    have hfirst := handed_fresh tripID userID secondParty σ a.sent
    obtain ⟨hrest, hnew⟩ := ih (handlePush tripID userID secondParty σ a.sent).2
    rw [Machine.outputs_cons, List.flatMap_cons, List.map_append]
    refine ⟨hfirst.1.append hrest fun id hid hid' => hnew id hid' (hfirst.2 id hid).2, fun id hid => ?_⟩
    obtain hid | hid := List.mem_append.1 hid
    · exact (hfirst.2 id hid).1
    · obtain ⟨calls, hcalls⟩ := handlePush_calls tripID userID secondParty σ a.sent
      exact fun hk => hnew id hid (hcalls ▸ hk.after calls)

theorem le_nextCursor {pushed : List PushedMutation} {p : PushedMutation} (h : p ∈ pushed) :
    p.seq ≤ nextCursor pushed := (foldl_max_seq pushed 0).2.1 p h

/-- A run announces whatever it has a verdict on. -/
theorem announced_of_mem {run : HandlerRun} {pushed : List PushedMutation} {p : PushedMutation}
    (hrun : run.announced = if 0 < nextCursor pushed then some (nextCursor pushed) else none) (h : p ∈ pushed)
    (hseq : 0 < p.seq) : run.announced = some (nextCursor pushed) ∧ p.seq ≤ nextCursor pushed := by
  have hle := le_nextCursor h
  exact ⟨by rw [hrun, if_pos (by omega)], hle⟩

/-- What lands is on record in every later state of the run and of those after it. -/
theorem LoopReaches.remembered {res : MutationResult} (h : LoopReaches tripID userID σ sent m c τ)
    (hans : (server.step τ c).1 = .ok (.result res)) :
    res.mutationID = m.mutationID ∧ (applyPushBatch tripID userID sent σ).2.db.Remembers res := by
  obtain ⟨before, t, rest, rfl, hsome, rfl, rfl⟩ := h
  obtain ⟨hid, hrem⟩ := Turn.known hans
  refine ⟨hid, ?_⟩
  clear hans
  induction before generalizing σ with
  | nil =>
    simp only [List.nil_append, applyPushBatch] at hrem ⊢
    split
    · exact hrem
    · obtain ⟨calls, hcalls⟩ := applyPushBatch_calls tripID userID rest
        (server.step (server.after σ t.others) (t.call tripID userID m)).2
      exact hcalls ▸ remembers_after hrem calls
  | cons mt before ih =>
    obtain ⟨m', t'⟩ := mt
    simp only [List.cons_append, applyPushBatch] at hsome hrem ⊢
    cases hv : verdict m' (server.step (server.after σ t'.others) (t'.call tripID userID m')).1 with
    | none => simp [hv] at hsome
    | some p =>
      simp only [hv] at hsome hrem ⊢
      exact ih (by simpa using hsome) hrem

/-- A batch that is answered has the recorded verdict on a mutation that has landed before. -/
theorem replayed {res : MutationResult} {pushed : List PushedMutation} (hsound : HLC.valid m.hlc ∧ capMark m)
    (hval : ∃ table, validate m (tripPartition tripID userID).tables = .ok table) (hrem : σ.db.Remembers res)
    (hid : res.mutationID = m.mutationID) (hm : m ∈ sent.map (·.1))
    (hloop : (applyPushBatch tripID userID sent σ).1 = some pushed) : ∃ p ∈ pushed, p.seq = res.seq := by
  obtain ⟨⟨m, t⟩, hmem, rfl⟩ := List.mem_map.1 hm
  obtain ⟨before, rest, rfl⟩ := List.append_of_mem hmem
  obtain ⟨-, p, hp, hverdict⟩ := applyPushBatch_split hloop
  refine ⟨p, hp, ?_⟩
  obtain ⟨calls, hcalls⟩ := applyPushBatch_calls tripID userID before σ
  rw [hcalls] at hverdict
  obtain hok | herr := Turn.replay hsound hval (remembers_after (remembers_after hrem calls) t.others) hid
  · rw [hok] at hverdict
    exact (verdict_of_result hverdict).1
  · rw [herr] at hverdict
    cases hverdict

/-- **The side effects of a batch**, from any state, however often it is sent, with whatever calls in between and
whatever statements failing: a mutation is handed to the notifier in one run at most, and it is handed over in the
run that it changes the trip in if that run is answered and there is anybody to notify; a run hands over nothing that
is refused or a duplicate; and every run that is answered announces to the hub what the batch has changed so far. -/
theorem sideEffects (tripID userID : String) (secondParty : Bool) (batch : List Mutation) (σ : Server)
    (attempts : List (Attempt batch)) : SideEffects tripID userID secondParty batch σ attempts where
  once := (handed_once attempts σ).1
  handed pre a post _ τ₀ run hτ₀ hrun hans hsecond m c τ hfaces hchanges := by
    subst hrun
    obtain ⟨-, pushed, hloop, hrun⟩ := handlePush_answered hans
    obtain ⟨-, before, t, rest, hsent, hsome, rfl, rfl⟩ := hfaces
    rw [hsent] at hloop
    obtain ⟨-, p, hp, hverdict⟩ := applyPushBatch_split hloop
    obtain ⟨res, hres, hlands, -⟩ := Turn.lands hchanges
    rw [hres] at hverdict
    have hlanded : p.landed := (verdict_of_result hverdict).2.2 hlands
    rw [hrun]
    simp only [hsecond, if_true, landedMutations, List.mem_map, List.mem_filter]
    exact ⟨p, ⟨hp, hlanded⟩, verdict_mutation hverdict⟩
  earned pre a post _ τ₀ hτ₀ m hm := by
    by_cases hans : (handlePush tripID userID secondParty τ₀ a.sent).1.response.isSome
    · obtain ⟨hshort, pushed, hloop, hrun⟩ := handlePush_answered hans
      rw [hrun] at hm
      cases hsecond : secondParty with
      | false => simp [hsecond] at hm
      | true =>
        simp only [hsecond, if_true, landedMutations, List.mem_map, List.mem_filter] at hm
        obtain ⟨p, ⟨hp, hlanded⟩, rfl⟩ := hm
        obtain ⟨c, τ, hreaches, hverdict⟩ := mem_applyPushBatch hloop hp
        obtain ⟨res, hres, -, hiff⟩ := verdict_result hverdict (.inl hlanded)
        exact ⟨c, τ, res, ⟨hshort, hreaches⟩, hres, hiff.1 hlanded⟩
    · simp [handlePush_failed hans, HandlerRun.failed] at hm
  announced pre a post hpre pre' a' post' hpre' hle τ₀ run' hτ₀ hrun' hans m c τ hfaces hchanges := by
    subst hrun' hτ₀
    obtain ⟨hshort, hreaches⟩ := hfaces
    obtain ⟨before, t, rest, hsent, hsome, hτ, rfl⟩ := id hreaches
    obtain ⟨res, hres, hlands, hseq⟩ := Turn.lands hchanges
    obtain ⟨-, pushed, hloop, hrun⟩ := handlePush_answered hans
    -- Either the run is the one that makes the change, or it finds the mutation in the memo.
    obtain ⟨p, hp, hpseq⟩ : ∃ p ∈ pushed, p.seq = res.seq := by
      obtain hlt | heq := Nat.lt_or_eq_of_le hle
      · obtain ⟨mid, rfl⟩ : ∃ mid, pre' = pre ++ a :: mid := by
          obtain ⟨mid, hmid⟩ := List.prefix_of_prefix_length_le ⟨post, by simp [hpre]⟩ ⟨a' :: post', hpre'.symm⟩
            (show (pre ++ [a]).length ≤ pre'.length by simpa using hlt)
          exact ⟨mid, by simpa using hmid.symm⟩
        obtain ⟨hid, hrem⟩ := hreaches.remembered hres
        have hm : m ∈ a'.sent.map (·.1) := by rw [a'.same, ← a.same, hsent]; simp
        obtain ⟨hsound, hval⟩ := Turn.sound hres hlands
        obtain ⟨calls, hcalls⟩ := pushHandler_calls tripID userID secondParty mid
          (handlePush tripID userID secondParty ((pushHandler tripID userID secondParty batch).after σ pre) a.sent).2
        have hrem' := remembers_after (handlePush_state secondParty hshort ▸ hrem) calls
        rw [← hcalls] at hrem'
        rw [Machine.after_append, Machine.after_cons] at hloop
        exact replayed hsound hval hrem' hid hm hloop
      · obtain ⟨rfl, hcons⟩ := List.append_inj (hpre.symm.trans hpre') heq
        obtain rfl : a = a' := (List.cons.inj hcons).1
        rw [hsent] at hloop
        obtain ⟨-, p, hp, hverdict⟩ := applyPushBatch_split hloop
        rw [← hτ, hres] at hverdict
        exact ⟨p, hp, (verdict_of_result hverdict).1⟩
    obtain ⟨hann, hle⟩ := announced_of_mem (congrArg HandlerRun.announced hrun) hp (hpseq ▸ hseq)
    exact ⟨res, _, hres, hseq, hann, hpseq ▸ hle⟩
  recorded pre a post _ τ₀ hτ₀ n hn := by
    by_cases hans : (handlePush tripID userID secondParty τ₀ a.sent).1.response.isSome
    · obtain ⟨hshort, pushed, hloop, hrun⟩ := handlePush_answered hans
      rw [hrun] at hn
      have hpos : 0 < nextCursor pushed := by
        by_contra hzero
        simp [hzero] at hn
      obtain hzero | ⟨p, hp, hseq⟩ := (foldl_max_seq pushed 0).2.2
      · exact absurd hzero hpos.ne'
      have hpn : p.seq = n := by
        simp only [hpos, if_true, Option.some.injEq] at hn
        exact hseq.trans hn
      obtain ⟨c, τ, hreaches, hverdict⟩ := mem_applyPushBatch hloop hp
      obtain ⟨res, hres, hres', -⟩ := verdict_result hverdict (.inr (hseq ▸ hpos))
      exact ⟨p.mutation, c, τ, res, ⟨hshort, hreaches⟩, hres, hres'.symm.trans hpn⟩
    · simp [handlePush_failed hans, HandlerRun.failed] at hn

end

/-! ### A push that breaks off -/

/-- A turn that meets nothing. -/
def Turn.quiet : Turn := ⟨[], .plain 1760000000000, fun _ => false⟩

/-- Ann adds two packing rows. -/
def tentAndStove : List Mutation := [
  .plain 2 .insert .tripItems "tent" [("trip_id", .str "T1"), ("name", .str "Tent")],
  .plain 3 .insert .tripItems "stove" [("trip_id", .str "T1"), ("name", .str "Stove")]]

/-- The store fails at the stove. -/
def Attempt.broken : Attempt tentAndStove :=
  ⟨tentAndStove.zip [.quiet, { Turn.quiet with faults := fun _ => true }], rfl⟩

def Attempt.whole : Attempt tentAndStove := ⟨tentAndStove.zip [.quiet, .quiet], rfl⟩

/-- Ann's push breaks off at the stove, is answered the second time, and is sent a third time. The tent is written by
the first run and handed to the notifier by none; what the batch has changed is announced by the second and by the
third. -/
theorem tent_handed_never :
    let σ := server.after (.fresh .plain) annsTrip
    let runs := (pushHandler "T1" "ann" true tentAndStove).outputs σ [.broken, .whole, .whole]
    (∃ tent ∈ tentAndStove, tent.id = "tent" ∧ Changes σ (Turn.quiet.call "T1" "ann" tent)) ∧
      runs.map (fun run => run.handed.map (·.id)) = [[], ["stove"], []] ∧
      runs.map (·.announced) = [none, some 4, some 4] := by
  refine ⟨⟨_, List.mem_cons_self, rfl, fun hrows => ?_⟩, by decide +kernel, by decide +kernel⟩
  have hlookup := congrArg (fun rows => (rows.lookup ⟨.tripItems, "tent"⟩).isSome) hrows
  exact absurd hlookup (by decide +kernel)

end JitPack
