import JitPack.Store.Gate

/-!
# A push has its effect once

The memo of a mutation is written by the transaction that answers it, whatever the answer
(`Applied.remembered`), and no call takes one away (`step_mutations`). So a push that was answered is
answered from the memo from then on, and does nothing (`push_replay`). A push that fails has done
nothing either, since the pipeline commits last (`applyMutation_atomic`). Both make
`pushes_exactlyOnce`.
-/

namespace JitPack

open Txn (World)
open Txn.Proc

/-! ## The memo -/

@[simp] theorem Value.viaJSON_viaJSON (v : Value) : v.viaJSON.viaJSON = v.viaJSON := by
  cases v <;> rfl

@[simp] theorem Conflict.viaJSON_viaJSON (c : Conflict) : c.viaJSON.viaJSON = c.viaJSON := by
  simp [Conflict.viaJSON]

/-- What a resent mutation is answered that was answered with `res`. -/
def MutationResult.replay (res : MutationResult) : MutationResult :=
  ⟨res.mutationID, .duplicate, res.conflicts.map Conflict.viaJSON, res.seq, none⟩

/-- The answer is in the memo. -/
def Db.Remembers (db : Db) (res : MutationResult) : Prop :=
  recordedResult res.mutationID db = some res.replay

section
variable {s : Env} {p : Partition} {m : Mutation} {key : Key} {row : Row} {merged : MergeResult}
variable {db db₁ db' : Db} {res : MutationResult}

theorem recordedResult_mutationID {id : String} (h : recordedResult id db = some res) :
    res.mutationID = id ∧ res.replay = res := by
  obtain ⟨memo, -, rfl⟩ := Option.map_eq_some_iff.1 h
  refine ⟨rfl, ?_⟩
  simp [MutationResult.replay, Function.comp_def]

/-- The memo only grows. -/
theorem Db.Remembers.of_append {ms : List Memo} (h : db.Remembers res)
    (hm : db'.mutations = db.mutations ++ ms) : db'.Remembers res := by
  obtain ⟨memo, hfind, hres⟩ := Option.map_eq_some_iff.1 h
  unfold Remembers recordedResult
  rw [hm, List.find?_append, hfind]
  exact congrArg some hres

theorem remembers_record (fresh : recordedResult res.mutationID db = none)
    (hm : db₁.mutations = db.mutations) : (db₁.record res).Remembers res := by
  have hfind : db.mutations.find? (·.mutationID = res.mutationID) = none := by
    simpa [recordedResult] using fresh
  unfold Db.Remembers recordedResult Db.record
  rw [hm, List.find?_append, hfind]
  simp [MutationResult.replay]

/-! ## What writes to the memo -/

theorem deleteRow_mutations (h : Db.deleteRow key db = .ok db') : db'.mutations = db.mutations := by
  unfold Db.deleteRow at h
  split at h
  · cases h
    rfl
  dsimp only at h
  split at h <;> cases h
  rfl

theorem updateRow_mutations {applied : Fields} {hlc : HLC} {clocks : FieldClocks}
    (h : Db.updateRow s.sqlite key applied hlc clocks db = .ok db') :
    db'.mutations = db.mutations := by
  unfold Db.updateRow at h
  split at h
  · cases h
  split at h
  · cases h
    rfl
  dsimp only at h
  split at h <;> cases h
  rfl

theorem insertRow_mutations {applied : Fields} {hlc : HLC} {clocks : FieldClocks}
    (h : Db.insertRow s.sqlite s.sqlNow key applied hlc clocks db = .ok db') :
    db'.mutations = db.mutations := by
  obtain ⟨-, -, -, rfl⟩ := Db.insertRow_ok h
  rfl

theorem Persisted.mutations {present b : Bool} (h : Persisted s key merged present db b db') :
    db'.mutations = db.mutations := by
  cases h with
  | gone => rfl
  | kept => rfl
  | deleted _ _ h => exact deleteRow_mutations h
  | inserted _ _ h => exact insertRow_mutations h
  | updated _ _ _ h => exact updateRow_mutations h

theorem Owed.mutations {out : WriteOutcome} (h : Owed s p out db db') :
    db'.mutations = db.mutations := by
  cases h with
  | none => rfl
  | master _ owner =>
    cases owner with
    | other => rfl
    | owner _ h =>
      have hm := insertRow_mutations h
      exact hm

theorem Landed.record {retired : Bool} (h : Landed s p m key row merged retired db res db') :
    res.mutationID = m.mutationID ∧ ∃ db₁ : Db, db₁.mutations = db.mutations ∧ db' = db₁.record res := by
  cases h with
  | refused hr => exact ⟨by rw [hr], _, Db.relogged_mutations .., rfl⟩
  | unchanged hr _ hn => exact ⟨by rw [hr], _, hn.mutations, rfl⟩
  | changed hr hp ho hn =>
    refine ⟨by rw [hr], _, ?_, rfl⟩
    rw [hn.mutations, ho.mutations]
    exact hp.mutations

/-- A mutation that is answered is in the memo, with its answer. -/
theorem Applied.remembered (hp : p.Thins) (h : Applied s p m db res db') :
    res.mutationID = m.mutationID ∧ db'.Remembers res ∧
      ∃ ms, db'.mutations = db.mutations ++ ms := by
  have hrecord {db₁ : Db} (hid : res.mutationID = m.mutationID)
      (fresh : recordedResult m.mutationID db = none) (hm : db₁.mutations = db.mutations) :
      res.mutationID = m.mutationID ∧ (db₁.record res).Remembers res ∧
        ∃ ms, (db₁.record res).mutations = db.mutations ++ ms :=
    ⟨hid, remembers_record (hid ▸ fresh) hm, _, by rw [Db.record, hm]⟩
  cases h with
  | duplicate h =>
    obtain ⟨hid, hreplay⟩ := recordedResult_mutationID h
    exact ⟨hid, by rw [Db.Remembers, hid, hreplay, h], [], (List.append_nil _).symm⟩
  | @refused t m' reason relog seq _ fresh valid why hr =>
    have hid : m'.mutationID = m.mutationID := by
      cases why with
      | scope hg => exact (gate_onlyFields hp hg).mutationID
      | rowDeleted hg => exact (gate_onlyFields hp hg).mutationID
      | stillReferenced hg => exact (gate_onlyFields hp hg).mutationID
    refine hrecord (by rw [hr]; exact hid) fresh ?_
    split <;> rfl
  | @landed t m' m'' retired _ _ fresh valid how land =>
    obtain ⟨hid, db₁, hm, rfl⟩ := land.record
    refine hrecord ?_ fresh hm
    rw [hid]
    rcases how.write with ⟨-, rfl, -⟩ | ⟨-, rfl, -⟩ <;> exact (gate_onlyFields hp how.gate).mutationID

theorem Effect.mutations {g : Generator} {r : Request} (h : Effect s g db r db') :
    ∃ ms, db'.mutations = db.mutations ++ ms := by
  have hsame (h : db'.mutations = db.mutations) : ∃ ms, db'.mutations = db.mutations ++ ms :=
    ⟨[], by rw [h, List.append_nil]⟩
  cases h with
  | joined => exact hsame rfl
  | applied hr h => exact (h.remembered hr.thins).2.2
  | reverted hr h =>
    cases h with
    | intro _ claimed _ _ _ update owed noted =>
      refine hsame ?_
      rw [noted.mutations, owed.mutations, ← claimed.mutations]
      have hm := updateRow_mutations update
      exact hm
  | taken h =>
    cases h with
    | intro _ _ update => exact hsame (updateRow_mutations update :)
  | trackStored h =>
    cases h with
    | replaced _ _ _ update noted =>
      exact hsame (noted.mutations.trans (updateRow_mutations update :))
    | inserted _ insert noted => exact hsame (noted.mutations.trans (insertRow_mutations insert :))
  | imageAdded h =>
    cases h with
    | intro _ insert noted => exact hsame (noted.mutations.trans (insertRow_mutations insert :))
  | imageStamped _ h =>
    cases h with
    | intro _ update noted => exact hsame (noted.mutations.trans (updateRow_mutations update :))

end

/-- No call takes a memo away. -/
theorem step_mutations (σ : Server) (c : Call) :
    ∃ ms, (server.step σ c).2.db.mutations = σ.db.mutations ++ ms := by
  rcases step_cases σ c with h | h
  · exact ⟨[], by rw [h, List.append_nil]⟩
  · exact h.mutations

theorem remembers_after {σ : Server} {res : MutationResult} (h : σ.db.Remembers res)
    (calls : List Call) : (server.after σ calls).db.Remembers res := by
  refine Machine.after_of_step (I := fun σ : Server => σ.db.Remembers res) (fun σ c hm => ?_) h calls
  obtain ⟨ms, hms⟩ := step_mutations σ c
  exact hm.of_append hms

/-! ## Pushes -/

/-- The partition and the mutation of a push. -/
def Request.pushed : Request → Option (Partition × Mutation)
  | .push tripID userID m => some (tripPartition tripID userID, m)
  | .pushMaster userID m => some (masterPartition userID, m)
  | _ => none

/-- The push is one that the store looks at: its clock is valid, its mark short enough, and its table
and columns are some that a push may name. -/
def Request.wellFormed (r : Request) : Prop :=
  ∃ p m t, r.pushed = some (p, m) ∧ HLC.valid m.hlc = true ∧ capMark m = true ∧
    validate m p.tables = .ok t

theorem serve_pushed {s : Env} {r : Request} {p : Partition} {m : Mutation}
    (h : r.pushed = some (p, m)) : serve s r = push s m p ∧ p.Hooked ∧ p.Thins := by
  cases r <;> cases h
  · exact ⟨rfl, tripPartition_hooked, tripPartition_thins⟩
  · exact ⟨rfl, masterPartition_hooked, masterPartition_thins⟩

section
variable {σ : Server} {c : Call} {p : Partition} {m : Mutation} {res : MutationResult}

/-- A push that answers with a result remembers it. -/
theorem push_remembered (hc : c.request.pushed = some (p, m))
    (h : (server.step σ c).1 = .ok (.result res)) :
    res.mutationID = m.mutationID ∧ (server.step σ c).2.db.Remembers res := by
  obtain ⟨hs, hhooked, hthins⟩ := serve_pushed (s := c.env) hc
  simp only [server, hs, push] at h ⊢
  split at h
  · next hv =>
    rw [if_pos hv]
    rcases hr : applyMutation c.env m p c.oracle σ.world with ⟨e | res', w'⟩
    · rw [bind_eq, hr] at h
      cases h
    · rw [bind_eq, hr] at h ⊢
      cases h
      obtain ⟨db, happ, hdisk, -⟩ := applyMutation_ok hhooked c.oracle_ne hr
      obtain ⟨hid, hrem, -⟩ := happ.remembered hthins
      exact ⟨hid, hdisk ▸ hrem⟩
  · cases h

/-- The pipeline on a mutation that is in the memo. -/
theorem applyMutation_replay {s : Env} {w : World Db Memory} (faults : Nat → Option Error)
    (h : recordedResult m.mutationID w.disk = some res) :
    (applyMutation s m p faults w).2.disk = w.disk ∧ (applyMutation s m p faults w).2.mem = w.mem ∧
    (∀ r, (applyMutation s m p faults w).1 = .ok r → r = res) ∧
    ((∃ t, validate m p.tables = .ok t) → faults w.ran = none →
      (applyMutation s m p faults w).1 = .ok res) := by
  unfold applyMutation
  cases hval : validate m p.tables with
  | error e =>
    refine ⟨rfl, rfl, fun r hr => ?_, fun hval => ?_⟩
    · cases hr
    · obtain ⟨t, ht⟩ := hval
      cases ht
  | ok t =>
    cases hf : faults w.ran with
    | some e =>
      have hrun : query (recordedResult m.mutationID) faults { w with db := w.disk } =
          (.error e, World.next { w with db := w.disk }) := by
        simp [query, exec, hf]
      simp only [transact, bind_eq, hrun]
      refine ⟨rfl, rfl, fun r hr => ?_, fun _ hn => ?_⟩
      · cases hr
      · cases hn
    | none =>
      have hrun : query (recordedResult m.mutationID) faults { w with db := w.disk } =
          (.ok (some res), World.next { w with db := w.disk }) := by
        simp [query, exec, hf, h, World.next]
      simp only [transact, bind_eq, hrun]
      exact ⟨rfl, rfl, fun r hr => (Except.ok.inj hr).symm, fun _ _ => rfl⟩

/-- A push that was answered before does nothing, and gets the same answer. -/
theorem push_replay (hc : c.request.pushed = some (p, m)) (hrem : σ.db.Remembers res)
    (hid : m.mutationID = res.mutationID) :
    (server.step σ c).2 = σ ∧
    (∀ a, (server.step σ c).1 = .ok a → a = .malformed ∨ a = .result res.replay) ∧
    (c.request.wellFormed → (∀ n, c.faults n = false) →
      (server.step σ c).1 = .ok (.result res.replay)) := by
  obtain ⟨hs, -, -⟩ := serve_pushed (s := c.env) hc
  rw [Db.Remembers, ← hid] at hrem
  obtain ⟨hdisk, hmem, hans, hok⟩ := applyMutation_replay (s := c.env) (p := p) (w := σ.world) c.oracle
    hrem
  simp only [server, hs, push]
  split
  · next hv =>
    rcases hr : applyMutation c.env m p c.oracle σ.world with ⟨e | r, w'⟩ <;>
      rw [hr] at hdisk hmem hans hok <;> simp only [bind_eq, hr]
    · refine ⟨congrArg₂ Server.mk hdisk (congrArg Memory.hlc hmem), nofun, ?_⟩
      rintro ⟨p', m', t, hc', -, -, hval⟩ hfaults
      rw [hc] at hc'
      cases hc'
      exact nomatch hok ⟨t, hval⟩ (by simp [Call.oracle, hfaults])
    · obtain rfl := hans r rfl
      exact ⟨congrArg₂ Server.mk hdisk (congrArg Memory.hlc hmem),
        fun a ha => .inr (Except.ok.inj ha).symm, fun _ _ => rfl⟩
  · next hv =>
    refine ⟨rfl, fun a ha => .inl (Except.ok.inj ha).symm, ?_⟩
    rintro ⟨p', m', t, hc', hclock, hmark, -⟩
    rw [hc] at hc'
    cases hc'
    exact absurd ⟨hclock, hmark⟩ hv

/-- A push that fails does nothing. -/
theorem push_error {e : Error} (hc : c.request.pushed = some (p, m))
    (h : (server.step σ c).1 = .error e) : (server.step σ c).2 = σ := by
  obtain ⟨hs, hhooked, -⟩ := serve_pushed (s := c.env) hc
  simp only [server, hs, push] at h ⊢
  split at h
  · next hv =>
    rw [if_pos hv]
    rcases hr : applyMutation c.env m p c.oracle σ.world with ⟨e | res, w'⟩
    · have hkept := applyMutation_atomic hhooked _ _ _ _ hr
      simp only [storeState, Server.world, Prod.mk.injEq] at hkept
      rw [bind_eq, hr]
      exact congrArg₂ Server.mk hkept.1 hkept.2
    · rw [bind_eq, hr] at h
      cases h
  · cases h

end

/-- **A push has its effect once**, in every run from a fresh store: once it has a result, every push
with its id leaves the server as it is and is answered from the memo (if it is answered at all: the
clock or the table may be malformed, and a statement may fail), and a push that fails leaves the
server as it is, so that sending it again is sending it once. -/
theorem pushes_exactlyOnce (g : Generator) (calls : List Call) :
    (∀ pre c post p m res, calls = pre ++ c :: post → c.request.pushed = some (p, m) →
      (server.step (server.after (.fresh g) pre) c).1 = .ok (.result res) →
      ∀ c' p' m', c'.request.pushed = some (p', m') → m'.mutationID = m.mutationID →
        (server.step (server.after (.fresh g) calls) c').2 = server.after (.fresh g) calls ∧
        (∀ a, (server.step (server.after (.fresh g) calls) c').1 = .ok a →
          a = .malformed ∨ a = .result res.replay) ∧
        (c'.request.wellFormed → (∀ n, c'.faults n = false) →
          (server.step (server.after (.fresh g) calls) c').1 = .ok (.result res.replay))) ∧
    ∀ c p m e, c.request.pushed = some (p, m) →
      (server.step (server.after (.fresh g) calls) c).1 = .error e →
      (server.step (server.after (.fresh g) calls) c).2 = server.after (.fresh g) calls ∧
      ∀ again, server.after (server.after (.fresh g) calls) [c, again] =
        server.after (server.after (.fresh g) calls) [again] := by
  constructor
  · rintro pre c post p m res rfl hc hans c' p' m' hc' hid
    obtain ⟨hres, hrem⟩ := push_remembered hc hans
    have hafter := remembers_after hrem post
    have hrun : server.after (.fresh g) (pre ++ c :: post) =
        server.after (server.step (server.after (.fresh g) pre) c).2 post := by
      rw [server.after_append, Machine.after_cons]
    rw [← hrun] at hafter
    exact push_replay hc' hafter (hid.trans hres.symm)
  · intro c p m e hc herr
    have hsame := push_error hc herr
    refine ⟨hsame, fun again => ?_⟩
    simp only [Machine.after_cons, Machine.after_nil, hsame]

end JitPack
