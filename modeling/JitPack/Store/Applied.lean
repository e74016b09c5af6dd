import JitPack.Store.Atomic

/-!
# What an answered mutation has done

`applyMutation_ok` inverts the pipeline once: a call that answers has found the memo of the mutation,
or has refused it, or has landed it (`Applied`). Each case says what is in the database afterwards,
up to the entries of the conflict log and the activity log. Every later fact about pushes is derived
from it, and none unfolds the pipeline again.
-/

namespace JitPack

open Txn (World)
open Txn.Proc

namespace Db

/-- Entries of the change log for the keys, numbered after `seq`. -/
def entries (feed : Option String) (hlc : HLC) (deleted : Bool) : Nat → List Key → List Change
  | _, [] => []
  | seq, key :: keys => ⟨seq + 1, feed, key, deleted, hlc⟩ :: entries feed hlc deleted (seq + 1) keys

/-- The database after the change log got an entry for each of the keys. -/
def log (db : Db) (feed : Option String) (hlc : HLC) (deleted : Bool) (keys : List Key) : Db :=
  { db with
    changeLog := db.changeLog ++ entries feed hlc deleted db.lastSeq keys
    lastSeq := db.lastSeq + keys.length }

/-- The database after a refused mutation was logged again. -/
def relogged (db : Db) (feed : Option String) (m : Mutation) (key : Key) (row : Row) : Db :=
  (db.log feed (if row.present then row.hlc else m.hlc) (!row.present) [key]).log feed m.hlc false
    (if m.op = .delete && row.present then db.cascadeChildren key else [])

/-- The database after the result went into the memo. -/
def record (db : Db) (res : MutationResult) : Db :=
  { db with mutations := db.mutations ++ [⟨res.mutationID, res.outcome, res.conflicts, res.seq⟩] }

/-- Only the conflict log and the activity log differ. -/
structure Noted (db db' : Db) : Prop where
  users : db'.users = db.users
  rows : db'.rows = db.rows
  changeLog : db'.changeLog = db.changeLog
  lastSeq : db'.lastSeq = db.lastSeq
  lockEvents : db'.lockEvents = db.lockEvents
  mutations : db'.mutations = db.mutations

theorem Noted.refl (db : Db) : Noted db db := ⟨rfl, rfl, rfl, rfl, rfl, rfl⟩

theorem Noted.trans {db₁ db₂ db₃ : Db} (h : Noted db₁ db₂) (h' : Noted db₂ db₃) : Noted db₁ db₃ :=
  ⟨h'.1.trans h.1, h'.2.trans h.2, h'.3.trans h.3, h'.4.trans h.4, h'.5.trans h.5, h'.6.trans h.6⟩

section
variable (db : Db) (feed : Option String) (hlc : HLC) (deleted : Bool) (keys keys' : List Key)

@[simp] theorem log_rows : (db.log feed hlc deleted keys).rows = db.rows := rfl
@[simp] theorem log_users : (db.log feed hlc deleted keys).users = db.users := rfl
@[simp] theorem log_mutations : (db.log feed hlc deleted keys).mutations = db.mutations := rfl
@[simp] theorem log_conflictLog : (db.log feed hlc deleted keys).conflictLog = db.conflictLog := rfl
@[simp] theorem record_rows (res : MutationResult) : (db.record res).rows = db.rows := rfl
@[simp] theorem record_users (res : MutationResult) : (db.record res).users = db.users := rfl
@[simp] theorem record_changeLog (res : MutationResult) :
    (db.record res).changeLog = db.changeLog := rfl

@[simp] theorem log_nil : db.log feed hlc deleted [] = db := by simp [log, entries]

theorem entries_append (seq : Nat) : entries feed hlc deleted seq (keys ++ keys') =
    entries feed hlc deleted seq keys ++ entries feed hlc deleted (seq + keys.length) keys' := by
  induction keys generalizing seq with
  | nil => rfl
  | cons k ks ih =>
    rw [List.cons_append, entries, ih, entries, List.cons_append, List.length_cons]
    congr 3
    omega

theorem log_append : db.log feed hlc deleted (keys ++ keys') =
    (db.log feed hlc deleted keys).log feed hlc deleted keys' := by
  simp [log, entries_append, Nat.add_assoc]

/-- The entries are for the keys, in their order. -/
theorem map_key_entries (seq : Nat) : (entries feed hlc deleted seq keys).map (·.key) = keys := by
  induction keys generalizing seq with
  | nil => rfl
  | cons k ks ih => rw [entries, List.map_cons, ih]

theorem mem_entries {seq : Nat} {e : Change} (h : e ∈ entries feed hlc deleted seq keys) :
    e.tripID = feed ∧ e.hlc = hlc ∧ e.deleted = deleted ∧ e.key ∈ keys := by
  induction keys generalizing seq with
  | nil => cases h
  | cons k ks ih =>
    rcases List.mem_cons.1 h with rfl | h
    · exact ⟨rfl, rfl, rfl, List.mem_cons_self ..⟩
    · obtain ⟨h1, h2, h3, h4⟩ := ih h
      exact ⟨h1, h2, h3, List.mem_cons_of_mem _ h4⟩

@[simp] theorem relogged_rows (m : Mutation) (key : Key) (row : Row) :
    (db.relogged feed m key row).rows = db.rows := rfl

@[simp] theorem relogged_users (m : Mutation) (key : Key) (row : Row) :
    (db.relogged feed m key row).users = db.users := rfl

@[simp] theorem relogged_mutations (m : Mutation) (key : Key) (row : Row) :
    (db.relogged feed m key row).mutations = db.mutations := rfl

end

end Db

/-! ## The parts of the pipeline -/

theorem validate_ok {m : Mutation} {tables : Table → Bool} {t : Table}
    (h : validate m tables = .ok t) : Table.ofName m.table = some t ∧ tables t = true := by
  unfold validate at h
  split at h
  · cases h
  next ht =>
  split at h
  · cases h
    exact Option.filter_eq_some_iff.1 ht
  · cases h

/-- A run inside a transaction that ends with the view `db`. -/
structure Moved (w w' : World Db Memory) (db : Db) : Prop where
  db : w'.db = db
  disk : w'.disk = w.disk
  hlc : w'.mem.hlc = w.mem.hlc

theorem Moved.trans {w w₁ w₂ : World Db Memory} {db₁ db₂ : Db} (h : Moved w w₁ db₁)
    (h' : Moved w₁ w₂ db₂) : Moved w w₂ db₂ := ⟨h'.db, h'.disk.trans h.disk, h'.hlc.trans h.hlc⟩

section
variable {s : Env} {p : Partition} {m : Mutation} {key : Key} {row : Row} {merged : MergeResult}
variable {faults : Nat → Option Error} {w w' : World Db Memory}
variable {feed : Option String} {hlc : HLC} {deleted : Bool} {seq : Nat}

theorem randomID_ok {id : String} (h : randomID s faults w = (.ok id, w')) : Moved w w' w.db := by
  simp only [randomID, memory_ok] at h
  obtain ⟨-, rfl⟩ := h
  exact ⟨rfl, rfl, rfl⟩

theorem onlyIf_query_ok {α : Type} {c : Bool} {f : Db → α} {a r : α}
    (h : onlyIf c (query f) a faults w = (.ok r, w')) :
    Moved w w' w.db ∧ r = if c then f w.db else a := by
  rcases onlyIf_ok.1 h with ⟨rfl, h⟩ | ⟨rfl, rfl, rfl⟩
  · obtain ⟨-, rfl, rfl⟩ := query_ok.1 h
    exact ⟨⟨rfl, rfl, rfl⟩, rfl⟩
  · exact ⟨⟨rfl, rfl, rfl⟩, rfl⟩

theorem appendChangeLog_ok (h : appendChangeLog feed key hlc deleted faults w = (.ok seq, w')) :
    seq = w.db.lastSeq + 1 ∧ Moved w w' (w.db.log feed hlc deleted [key]) := by
  simp only [appendChangeLog, exec_ok] at h
  obtain ⟨-, db, hdb, rfl⟩ := h
  split at hdb
  · cases hdb
    exact ⟨rfl, rfl, rfl, rfl⟩
  · cases hdb

theorem appendChangeLog_foldlM_ok {keys : List Key} {seq' : Nat}
    (h : keys.foldlM (fun _ c => appendChangeLog feed c hlc deleted) seq faults w = (.ok seq', w')) :
    Moved w w' (w.db.log feed hlc deleted keys) := by
  induction keys generalizing seq w with
  | nil =>
    simp only [List.foldlM_nil, pure_ok] at h
    obtain ⟨rfl, rfl⟩ := h
    exact ⟨(Db.log_nil ..).symm, rfl, rfl⟩
  | cons k ks ih =>
    simp only [List.foldlM_cons, bind_ok] at h
    obtain ⟨_, w₁, h₁, h₂⟩ := h
    obtain ⟨-, m₁⟩ := appendChangeLog_ok h₁
    have m₂ := ih h₂
    refine ⟨?_, m₂.disk.trans m₁.disk, m₂.hlc.trans m₁.hlc⟩
    rw [m₂.db, m₁.db, ← Db.log_append, List.singleton_append]

theorem appendChangeLog_forM_ok {keys : List Key} {u : PUnit}
    (h : (keys.forM fun c => do
      let _ ← appendChangeLog feed c hlc deleted
      pure ⟨⟩) faults w = (.ok u, w')) :
    Moved w w' (w.db.log feed hlc deleted keys) := by
  induction keys generalizing w with
  | nil =>
    obtain rfl := forM_nil_ok.1 h
    exact ⟨(Db.log_nil ..).symm, rfl, rfl⟩
  | cons k ks ih =>
    simp only [forM_cons_ok, bind_ok, pure_ok] at h
    obtain ⟨w₁, ⟨_, _, h₁, -, rfl⟩, h₂⟩ := h
    obtain ⟨-, m₁⟩ := appendChangeLog_ok h₁
    have m₂ := ih h₂
    refine ⟨?_, m₂.disk.trans m₁.disk, m₂.hlc.trans m₁.hlc⟩
    rw [m₂.db, m₁.db, ← Db.log_append, List.singleton_append]

theorem relogCascadeChildren_ok {seq' : Nat}
    (h : relogCascadeChildren feed key hlc seq faults w = (.ok seq', w')) :
    Moved w w' (w.db.log feed hlc false (w.db.cascadeChildren key)) := by
  simp only [relogCascadeChildren, bind_ok, query_ok] at h
  obtain ⟨_, _, ⟨-, rfl, rfl⟩, h⟩ := h
  have m := appendChangeLog_foldlM_ok h
  exact ⟨m.db, m.disk, m.hlc⟩

theorem relogRefused_ok (h : relogRefused feed m key row faults w = (.ok seq, w')) :
    Moved w w' (w.db.relogged feed m key row) := by
  simp only [relogRefused, bind_ok] at h
  obtain ⟨_, w₁, h₁, h₂⟩ := h
  obtain ⟨-, m₁⟩ := appendChangeLog_ok h₁
  rcases onlyIf_ok.1 h₂ with ⟨hc, h₂⟩ | ⟨hc, -, rfl⟩
  · have m₂ := relogCascadeChildren_ok h₂
    refine ⟨?_, m₂.disk.trans m₁.disk, m₂.hlc.trans m₁.hlc⟩
    simp only [m₂.db, m₁.db, Db.relogged, hc, if_true]
    rw [Db.cascadeChildren_congr (Db.log_rows ..)]
  · refine ⟨?_, m₁.disk, m₁.hlc⟩
    simp only [m₁.db, Db.relogged, hc, Bool.false_eq_true, if_false, Db.log_nil]

/-- The procedure writes to the conflict log and the activity log at most. -/
theorem logConflicts_ok {conflicts : List Conflict} {u : PUnit}
    (h : logConflicts s p m key conflicts faults w = (.ok u, w')) :
    ∃ db, Moved w w' db ∧ w.db.Noted db := by
  induction conflicts generalizing w with
  | nil =>
    obtain rfl := forM_nil_ok.1 h
    exact ⟨_, ⟨rfl, rfl, rfl⟩, .refl _⟩
  | cons c cs ih =>
    simp only [logConflicts, forM_cons_ok, bind_ok, write_ok] at h
    obtain ⟨w₁, ⟨id, w₂, hid, -, db, hdb, rfl⟩, h⟩ := h
    have m₂ := randomID_ok hid
    obtain ⟨db', m₃, n₃⟩ := ih h
    refine ⟨db', ⟨m₃.db, m₃.disk.trans m₂.disk, m₃.hlc.trans m₂.hlc⟩, .trans ?_ n₃⟩
    split at hdb
    · cases hdb
      rw [m₂.db]
      exact ⟨rfl, rfl, rfl, rfl, rfl, rfl⟩
    · cases hdb

theorem recordActivity_ok {a : ActivityWrite} {u : Unit}
    (h : recordActivity s a faults w = (.ok u, w')) : ∃ db, Moved w w' db ∧ w.db.Noted db := by
  unfold recordActivity at h
  split at h
  · obtain ⟨-, rfl⟩ := pure_ok.1 h
    exact ⟨_, ⟨rfl, rfl, rfl⟩, .refl _⟩
  · obtain ⟨-, db, hdb, rfl⟩ := write_ok.1 h
    refine ⟨db, ⟨rfl, rfl, rfl⟩, ?_⟩
    split at hdb
    · cases hdb
      exact ⟨rfl, rfl, rfl, rfl, rfl, rfl⟩
    · cases hdb

/-- A run that ends with its commit: the database is `db`. -/
structure Committed (w w' : World Db Memory) (db : Db) : Prop where
  disk : w'.disk = db
  hlc : w'.mem.hlc = w.mem.hlc

theorem Moved.committed {w₁ : World Db Memory} {db db' : Db} (h : Moved w w₁ db)
    (h' : Committed w₁ w' db') : Committed w w' db' := ⟨h'.disk, h'.hlc.trans h.hlc⟩

theorem finalize_ok {res res' : MutationResult} (h : finalize res faults w = (.ok res', w')) :
    res' = res ∧ Committed w w' (w.db.record res) := by
  simp only [finalize, recordResult, bind_ok, write_ok, commit_ok, pure_ok] at h
  obtain ⟨_, _, ⟨-, db, hdb, rfl⟩, _, _, ⟨-, rfl⟩, rfl, rfl⟩ := h
  split at hdb
  · cases hdb
    exact ⟨rfl, rfl, rfl⟩
  · cases hdb

theorem reject_ok {res : MutationResult} {reason : RejectReason} {relog : Bool}
    (h : reject m key row p reason relog faults w = (.ok res, w')) :
    ∃ seq, res = ⟨m.mutationID, .rejected, [], seq, some reason⟩ ∧
      Committed w w'
        ((if relog then w.db.relogged p.feed m key row else w.db).record res) := by
  simp only [reject, bind_ok] at h
  obtain ⟨seq, w₁, h₁, h₂⟩ := h
  obtain ⟨rfl, c⟩ := finalize_ok h₂
  refine ⟨seq, rfl, ?_⟩
  rcases onlyIf_ok.1 h₁ with ⟨rfl, h₁⟩ | ⟨rfl, -, rfl⟩
  · have m₁ := relogRefused_ok h₁
    rw [m₁.db] at c
    exact m₁.committed c
  · exact c

end

/-! ## The write and the entries after it -/

/-- What `persist` has done, and whether it says so. -/
inductive Persisted (s : Env) (key : Key) (merged : MergeResult) (present : Bool) (db : Db) :
    Bool → Db → Prop where
  | gone (hd : merged.deleted = true) (hp : present = false) : Persisted s key merged present db false db
  | kept (hd : merged.deleted = false) (hp : present = true) (ha : merged.applied.entries = []) :
      Persisted s key merged present db false db
  | deleted {db'} (hd : merged.deleted = true) (hp : present = true)
      (h : Db.deleteRow key db = .ok db') : Persisted s key merged present db true db'
  | inserted {db'} (hd : merged.deleted = false) (hp : present = false)
      (h : Db.insertRow s.sqlite s.sqlNow key merged.applied merged.rowHLC
        (insertedClocks key.table merged) db = .ok db') : Persisted s key merged present db true db'
  | updated {db'} (hd : merged.deleted = false) (hp : present = true)
      (ha : merged.applied.entries ≠ [])
      (h : Db.updateRow s.sqlite key merged.applied merged.rowHLC merged.clocks db = .ok db') :
      Persisted s key merged present db true db'

/-- The statement of `persist` violates a constraint. -/
inductive Violates (s : Env) (key : Key) (merged : MergeResult) (present : Bool) (db : Db) : Prop where
  | deleted (hd : merged.deleted = true) (hp : present = true)
      (h : Db.deleteRow key db = .error .constraint)
  | inserted (hd : merged.deleted = false) (hp : present = false)
      (h : Db.insertRow s.sqlite s.sqlNow key merged.applied merged.rowHLC
        (insertedClocks key.table merged) db = .error .constraint)
  | updated (hd : merged.deleted = false) (hp : present = true)
      (h : Db.updateRow s.sqlite key merged.applied merged.rowHLC merged.clocks db =
        .error .constraint)

/-- The row that makes the creator of a new trip its owner has been added. -/
inductive OwnerAdded (s : Env) (userID : String) (out : WriteOutcome) (db : Db) : Db → Prop where
  | other (h : out.newTrip = false) : OwnerAdded s userID out db db
  | owner {id db'} (h : out.newTrip = true)
      (h' : Db.insertRow s.sqlite s.sqlNow ⟨.tripMembers, id⟩ (ownerRow out.key.id userID) out.m.hlc
        (fun _ => none) db = .ok db') :
      OwnerAdded s userID out db (db'.log none out.m.hlc false [⟨.tripMembers, id⟩])

/-- The trip whose row is logged again for a membership. -/
def WriteOutcome.touched (out : WriteOutcome) : List Key :=
  if out.key.table = .tripMembers && !out.deleted then
    (memberTrip out.row out.m).toList.map (⟨.trips, ·⟩)
  else []

/-- What a partition's change hook has done. -/
inductive Owed (s : Env) (p : Partition) (out : WriteOutcome) (db : Db) : Db → Prop where
  | none (h : p.afterChange = none) : Owed s p out db db
  | master {db'} (h : p.afterChange = some (masterAfterChange p.actorID))
      (owner : OwnerAdded s p.actorID out
        (db.log none out.m.hlc false (if out.retired then db.cascadeChildren out.key else [])) db') :
      Owed s p out db (db'.log none out.m.hlc false out.touched)

section
variable {s : Env} {p : Partition} {m : Mutation} {key : Key} {row : Row} {merged : MergeResult}
variable {faults : Nat → Option Error} {w w' : World Db Memory} {present : Bool}

theorem persist_ok {b : Bool} (h : persist s key merged present faults w = (.ok b, w')) :
    ∃ db, Moved w w' db ∧ Persisted s key merged present w.db b db := by
  unfold persist at h
  split at h
  · next hc =>
    obtain ⟨rfl, rfl⟩ := pure_ok.1 h
    exact ⟨_, ⟨rfl, rfl, rfl⟩, .gone hc.1 (by simpa using hc.2)⟩
  split at h
  · next hc hd =>
    simp only [bind_ok, write_ok, pure_ok] at h
    obtain ⟨_, _, ⟨-, db, hdb, rfl⟩, rfl, rfl⟩ := h
    exact ⟨db, ⟨rfl, rfl, rfl⟩, .deleted hd (by simpa [hd] using hc) hdb⟩
  split at h
  · next hd hp =>
    simp only [bind_ok, write_ok, pure_ok] at h
    obtain ⟨_, _, ⟨-, db, hdb, rfl⟩, rfl, rfl⟩ := h
    exact ⟨db, ⟨rfl, rfl, rfl⟩, .inserted (by simpa using hd) (by simpa using hp) hdb⟩
  split at h
  · next hd hp ha =>
    obtain ⟨rfl, rfl⟩ := pure_ok.1 h
    exact ⟨_, ⟨rfl, rfl, rfl⟩, .kept (by simpa using hd) (by simpa using hp) (by simpa using ha)⟩
  · next hd hp ha =>
    simp only [bind_ok, write_ok, pure_ok] at h
    obtain ⟨_, _, ⟨-, db, hdb, rfl⟩, rfl, rfl⟩ := h
    exact ⟨db, ⟨rfl, rfl, rfl⟩,
      .updated (by simpa using hd) (by simpa using hp) (by simpa using ha) hdb⟩

/-- A refused statement leaves the view alone. -/
theorem persist_error {e : Error} (h : persist s key merged present faults w = (.error e, w')) :
    Moved w w' w.db ∧
      ((∀ n, faults n ≠ some .constraint) → e = .constraint → Violates s key merged present w.db) := by
  have hw {f : Db → Except Error Db} {b : Bool}
      (h : (write f >>= fun _ => pure b : Proc Bool) faults w = (.error e, w')) :
      w' = w.next ∧ (faults w.ran = some e ∨ f w.db = .error e) := by
    rw [bind_eq] at h
    rcases hr : write f faults w with ⟨e' | u, w₁⟩
    · rw [hr] at h
      cases h
      exact ⟨exec_error hr, write_error hr⟩
    · rw [hr] at h
      cases h
  unfold persist at h
  split at h
  · cases h
  split at h
  · next hc hd =>
    obtain ⟨rfl, hwhy⟩ := hw h
    refine ⟨⟨rfl, rfl, rfl⟩, ?_⟩
    rintro hf rfl
    exact .deleted hd (by simpa [hd] using hc) (hwhy.resolve_left (hf _))
  split at h
  · next hd hp =>
    obtain ⟨rfl, hwhy⟩ := hw h
    refine ⟨⟨rfl, rfl, rfl⟩, ?_⟩
    rintro hf rfl
    exact .inserted (by simpa using hd) (by simpa using hp) (hwhy.resolve_left (hf _))
  split at h
  · cases h
  · next hd hp ha =>
    obtain ⟨rfl, hwhy⟩ := hw h
    refine ⟨⟨rfl, rfl, rfl⟩, ?_⟩
    rintro hf rfl
    exact .updated (by simpa using hd) (by simpa using hp) (hwhy.resolve_left (hf _))

theorem addOwner_ok {userID : String} {out : WriteOutcome} {u : Unit} (hn : out.newTrip = true)
    (h : addOwner s userID out faults w = (.ok u, w')) :
    ∃ db, Moved w w' db ∧ OwnerAdded s userID out w.db db := by
  simp only [addOwner, bind_ok, write_ok, pure_ok] at h
  obtain ⟨id, w₁, h₁, _, _, ⟨-, db, hdb, rfl⟩, _, w₂, h₂, -, rfl⟩ := h
  have m₁ := randomID_ok h₁
  obtain ⟨-, m₂⟩ := appendChangeLog_ok h₂
  rw [m₁.db] at hdb
  exact ⟨_, ⟨m₂.db, m₂.disk.trans m₁.disk, m₂.hlc.trans m₁.hlc⟩, .owner hn hdb⟩

theorem touchTrip_ok {out : WriteOutcome} {u : Unit}
    (h : touchTrip out faults w = (.ok u, w')) :
    Moved w w' (w.db.log none out.m.hlc false ((memberTrip out.row out.m).toList.map (⟨.trips, ·⟩))) := by
  cases ht : memberTrip out.row out.m with
  | some trip =>
    simp only [touchTrip, ht, bind_ok, pure_ok] at h
    obtain ⟨_, w₂, h₂, -, rfl⟩ := h
    exact (appendChangeLog_ok h₂).2
  | none =>
    simp only [touchTrip, ht, pure_ok] at h
    obtain ⟨-, rfl⟩ := h
    exact ⟨(Db.log_nil ..).symm, rfl, rfl⟩

theorem masterAfterChange_ok {userID : String} {out : WriteOutcome} {seq : Nat}
    (h : masterAfterChange userID s out faults w = (.ok seq, w')) :
    ∃ db, Moved w w' (db.log none out.m.hlc false out.touched) ∧ OwnerAdded s userID out
      (w.db.log none out.m.hlc false (if out.retired then w.db.cascadeChildren out.key else [])) db := by
  simp only [masterAfterChange, bind_ok, pure_ok] at h
  obtain ⟨_, w₁, h₁, _, w₂, h₂, _, w₃, h₃, -, rfl⟩ := h
  have m₁ : Moved w w₁ (w.db.log none out.m.hlc false
      (if out.retired then w.db.cascadeChildren out.key else [])) := by
    rcases onlyIf_ok.1 h₁ with ⟨hc, h₁⟩ | ⟨hc, -, rfl⟩
    · rw [if_pos hc]
      exact relogCascadeChildren_ok h₁
    · exact ⟨by simp [hc], rfl, rfl⟩
  have m₂ : ∃ db, Moved w₁ w₂ db ∧ OwnerAdded s userID out w₁.db db := by
    rcases onlyIf_ok.1 h₂ with ⟨hc, h₂⟩ | ⟨hc, -, rfl⟩
    · exact addOwner_ok hc h₂
    · exact ⟨_, ⟨rfl, rfl, rfl⟩, .other hc⟩
  have m₃ : Moved w₂ w₃ (w₂.db.log none out.m.hlc false out.touched) := by
    unfold WriteOutcome.touched
    rcases onlyIf_ok.1 h₃ with ⟨hc, h₃⟩ | ⟨hc, -, rfl⟩
    · rw [if_pos hc]
      exact touchTrip_ok h₃
    · rw [if_neg (by simp [hc])]
      exact ⟨(Db.log_nil ..).symm, rfl, rfl⟩
  obtain ⟨db, m₂, ho⟩ := m₂
  rw [m₁.db] at ho
  rw [m₂.db] at m₃
  exact ⟨db, ⟨m₃.db, m₃.disk.trans (m₂.disk.trans m₁.disk), m₃.hlc.trans (m₂.hlc.trans m₁.hlc)⟩, ho⟩

theorem owed_ok {out : WriteOutcome} {seq : Nat} (hp : p.Hooked)
    (h : p.owed s out faults w = (.ok seq, w')) : ∃ db, Moved w w' db ∧ Owed s p out w.db db := by
  unfold Partition.owed at h
  rcases hp with hn | hs
  · simp only [hn, pure_ok] at h
    obtain ⟨-, rfl⟩ := h
    exact ⟨_, ⟨rfl, rfl, rfl⟩, .none hn⟩
  · simp only [hs] at h
    obtain ⟨db, m₁, ho⟩ := masterAfterChange_ok h
    exact ⟨_, m₁, .master hs ho⟩

end

/-! ## The whole pipeline -/

/-- What `land` has done with the merge it was given. -/
inductive Landed (s : Env) (p : Partition) (m : Mutation) (key : Key) (row : Row)
    (merged : MergeResult) (retired : Bool) (db : Db) : MutationResult → Db → Prop where
  | refused {res seq} (hr : res = ⟨m.mutationID, .rejected, [], seq, some .constraintViolated⟩)
      (hv : Violates s key merged row.present db) :
      Landed s p m key row merged retired db res ((db.relogged p.feed m key row).record res)
  | unchanged {res db₁} (hr : res = ⟨m.mutationID, merged.outcome, merged.conflicts, 0, none⟩)
      (hp : Persisted s key merged row.present db false db) (hn : db.Noted db₁) :
      Landed s p m key row merged retired db res (db₁.record res)
  | changed {res seq seq' db₁ db₂ db₃}
      (hr : res = ⟨m.mutationID, merged.outcome, merged.conflicts, seq', none⟩)
      (hp : Persisted s key merged row.present db true db₁)
      (ho : Owed s p ⟨m, key, row, merged.deleted, retired, seq⟩
        ((db₁.log p.feed m.hlc merged.deleted [key]).log p.feed m.hlc true
          (if merged.deleted && row.present then db.cascadeChildren key else [])) db₂)
      (hn : db₂.Noted db₃) : Landed s p m key row merged retired db res (db₃.record res)

/-- The mutation that a partition's scope leaves of `m`, with its answer. -/
def Partition.gate (p : Partition) (s : Env) (db : Db) (t : Table) (m : Mutation) :
    Mutation × Option RejectReason :=
  p.scope db t (stampServerOwned t m (loadRow ⟨t, m.id⟩ db) p.actorID s.now) (loadRow ⟨t, m.id⟩ db)

/-- Why a mutation that reached the merge or the scope was refused, and whether it is logged again. -/
inductive Refused (s : Env) (p : Partition) (m : Mutation) (db : Db) (t : Table) (m' : Mutation) :
    RejectReason → Bool → Prop where
  | scope {reason} (h : p.gate s db t m = (m', some reason)) :
      Refused s p m db t m' reason p.relogScopeRefusal
  | rowDeleted (h : p.gate s db t m = (m', none)) (hop : m'.op ≠ .delete)
      (hp : (loadRow ⟨t, m.id⟩ db).present = false) (ht : tombstoneHLC p.feed ⟨t, m.id⟩ db ≠ [])
      (hle : m'.hlc ≤ tombstoneHLC p.feed ⟨t, m.id⟩ db) : Refused s p m db t m' .rowDeleted true
  | stillReferenced (h : p.gate s db t m = (m', none)) (hp : (loadRow ⟨t, m.id⟩ db).present = true)
      (hd : (merge (loadRow ⟨t, m.id⟩ db) m').deleted = true)
      (hb : db.stillReferenced ⟨t, m.id⟩ = true) (hk : ¬ p.retirable t = true) :
      Refused s p m db t m' .stillReferenced true

/-- The mutation `m''` that is merged and written in the end. -/
structure Decided (s : Env) (p : Partition) (m : Mutation) (db : Db) (t : Table)
    (m' m'' : Mutation) (retired : Bool) : Prop where
  gate : p.gate s db t m = (m', none)
  tomb : m'.op ≠ .delete → (loadRow ⟨t, m.id⟩ db).present = false →
    tombstoneHLC p.feed ⟨t, m.id⟩ db = [] ∨ tombstoneHLC p.feed ⟨t, m.id⟩ db < m'.hlc
  write : (retired = false ∧ m'' = m' ∧ ((loadRow ⟨t, m.id⟩ db).present = true →
      (merge (loadRow ⟨t, m.id⟩ db) m').deleted = true → db.stillReferenced ⟨t, m.id⟩ = false)) ∨
    (retired = true ∧ m'' = retireInstead m' (Now.rfc3339 s.now) ∧ p.retirable t = true ∧
      (merge (loadRow ⟨t, m.id⟩ db) m').deleted = true ∧ (loadRow ⟨t, m.id⟩ db).present = true ∧
      db.stillReferenced ⟨t, m.id⟩ = true)

/-- What a call of `applyMutation` that answers has done. -/
inductive Applied (s : Env) (p : Partition) (m : Mutation) (db : Db) : MutationResult → Db → Prop where
  | duplicate {res} (h : recordedResult m.mutationID db = some res) : Applied s p m db res db
  | refused {t m' reason relog seq res} (fresh : recordedResult m.mutationID db = none)
      (valid : validate m p.tables = .ok t) (why : Refused s p m db t m' reason relog)
      (hr : res = ⟨m'.mutationID, .rejected, [], seq, some reason⟩) :
      Applied s p m db res ((if relog then
        db.relogged p.feed m' ⟨t, m.id⟩ (loadRow ⟨t, m.id⟩ db) else db).record res)
  | landed {t m' m'' retired res db'} (fresh : recordedResult m.mutationID db = none)
      (valid : validate m p.tables = .ok t) (how : Decided s p m db t m' m'' retired)
      (land : Landed s p m'' ⟨t, m.id⟩ (loadRow ⟨t, m.id⟩ db) (merge (loadRow ⟨t, m.id⟩ db) m'')
        retired db res db') : Applied s p m db res db'

section
variable {s : Env} {p : Partition} {m : Mutation} {key : Key} {row : Row} {merged : MergeResult}
variable {faults : Nat → Option Error} {w w' : World Db Memory} {res : MutationResult}
variable {retired : Bool}

theorem land_ok (hp : p.Hooked) (hf : ∀ n, faults n ≠ some .constraint)
    (h : land s p m key row merged retired faults w = (.ok res, w')) :
    ∃ db, Committed w w' db ∧ Landed s p m key row merged retired w.db res db := by
  simp only [land, bind_ok] at h
  obtain ⟨cascaded, w₁, h₁, r, w₂, h₂, h⟩ := h
  obtain ⟨m₁, rfl⟩ := onlyIf_query_ok h₁
  rcases attempt_ok.1 h₂ with ⟨b, rfl, hr⟩ | ⟨rfl, e, he, hr⟩
  · obtain ⟨db₁, m₂, hper⟩ := persist_ok hr
    rw [m₁.db] at hper
    cases b with
    | false =>
      simp only [bind_ok] at h
      obtain ⟨_, w₃, h₃, h₄⟩ := h
      obtain ⟨db₂, m₃, n₃⟩ := logConflicts_ok h₃
      obtain ⟨rfl, c⟩ := finalize_ok h₄
      have hdb : db₁ = w.db := by cases hper <;> rfl
      rw [m₃.db] at c
      rw [m₂.db, hdb] at n₃
      rw [hdb] at hper
      exact ⟨_, m₁.committed (m₂.committed (m₃.committed c)), .unchanged rfl hper n₃⟩
    | true =>
      simp only [bind_ok] at h
      obtain ⟨seq, w₃, h₃, _, w₄, h₄, seq', w₅, h₅, _, w₆, h₆, _, w₇, h₇, h₈⟩ := h
      obtain ⟨-, m₃⟩ := appendChangeLog_ok h₃
      have m₄ := appendChangeLog_forM_ok h₄
      rw [m₂.db] at m₃
      rw [m₃.db] at m₄
      obtain ⟨db₆, m₆, n₆⟩ := recordActivity_ok h₆
      obtain ⟨db₇, m₇, n₇⟩ := logConflicts_ok h₇
      obtain ⟨rfl, c⟩ := finalize_ok h₈
      rw [m₆.db] at n₇
      rw [m₇.db] at c
      obtain ⟨db₅, m₅, ho⟩ := owed_ok hp h₅
      rw [m₄.db] at ho
      rw [m₅.db] at n₆
      exact ⟨_, m₁.committed (m₂.committed (m₃.committed (m₄.committed (m₅.committed
        (m₆.committed (m₇.committed c)))))), .changed rfl hper ho (n₆.trans n₇)⟩
  · obtain ⟨m₂, hviol⟩ := persist_error hr
    replace hviol := hviol hf (of_decide_eq_true he)
    obtain ⟨seq, rfl, c⟩ := reject_ok h
    rw [m₂.db, m₁.db] at c
    rw [m₁.db] at hviol
    exact ⟨_, m₁.committed (m₂.committed c), .refused rfl hviol⟩

theorem resolve_ok {t : Table} {m₀ : Mutation} {db : Db} (hp : p.Hooked)
    (hf : ∀ n, faults n ≠ some .constraint)
    (fresh : recordedResult m₀.mutationID db = none) (valid : validate m₀ p.tables = .ok t)
    (hg : p.gate s db t m₀ = (m, none)) (hdb : w.db = db)
    (h : resolve s p m ⟨t, m₀.id⟩ (loadRow ⟨t, m₀.id⟩ db) faults w = (.ok res, w')) :
    ∃ db', Committed w w' db' ∧ Applied s p m₀ db res db' := by
  subst hdb
  simp only [resolve, bind_ok] at h
  obtain ⟨tomb, w₁, h₁, h⟩ := h
  obtain ⟨m₁, ht⟩ := onlyIf_query_ok h₁
  split at h
  · next hc =>
    have hcond : (m.op ≠ .delete && !(loadRow ⟨t, m₀.id⟩ w.db).present) = true := by
      by_contra hcond
      rw [if_neg hcond] at ht
      exact hc.1 ht
    rw [if_pos hcond] at ht
    obtain ⟨seq, rfl, c⟩ := reject_ok h
    rw [m₁.db] at c
    simp only [Bool.and_eq_true, decide_eq_true_eq, Bool.not_eq_true'] at hcond
    exact ⟨_, m₁.committed c, .refused fresh valid
      (.rowDeleted hg hcond.1 hcond.2 (ht ▸ hc.1) (ht ▸ hc.2)) rfl⟩
  next hc =>
  have htomb : m.op ≠ .delete → (loadRow ⟨t, m₀.id⟩ w.db).present = false →
      tombstoneHLC p.feed ⟨t, m₀.id⟩ w.db = [] ∨ tombstoneHLC p.feed ⟨t, m₀.id⟩ w.db < m.hlc := by
    intro hop habs
    rw [if_pos (by simp [hop, habs])] at ht
    rw [← ht]
    by_contra hn
    exact hc ⟨fun h => hn (.inl h), not_lt.1 fun h => hn (.inr h)⟩
  simp only [bind_ok] at h
  obtain ⟨blocked, w₂, h₂, h⟩ := h
  obtain ⟨m₂, hb⟩ := onlyIf_query_ok h₂
  rw [m₁.db] at hb
  have hblocked : blocked = true ↔ (merge (loadRow ⟨t, m₀.id⟩ w.db) m).deleted = true ∧
      (loadRow ⟨t, m₀.id⟩ w.db).present = true ∧ w.db.stillReferenced ⟨t, m₀.id⟩ = true := by
    rw [hb]
    split <;> simp_all
  rw [m₁.db] at m₂
  replace m₂ := m₁.trans m₂
  split at h
  · next hr =>
    obtain ⟨db, c, l⟩ := land_ok hp hf h
    obtain ⟨hdel, hpres, href⟩ := hblocked.1 hr.1
    rw [m₂.db] at l
    exact ⟨db, m₂.committed c,
      .landed fresh valid ⟨hg, htomb, .inr ⟨rfl, rfl, hr.2, hdel, hpres, href⟩⟩ l⟩
  next hkept =>
  split at h
  · next hr =>
    obtain ⟨seq, rfl, c⟩ := reject_ok h
    obtain ⟨hdel, hpres, href⟩ := hblocked.1 hr
    rw [m₂.db] at c
    exact ⟨_, m₂.committed c,
      .refused fresh valid (.stillReferenced hg hpres hdel href fun hk => hkept ⟨hr, hk⟩) rfl⟩
  · next hr =>
    obtain ⟨db, c, l⟩ := land_ok hp hf h
    rw [m₂.db] at l
    refine ⟨db, m₂.committed c, .landed fresh valid ⟨hg, htomb, .inl ⟨rfl, rfl, ?_⟩⟩ l⟩
    intro hpres hdel
    by_contra href
    exact hr (hblocked.2 ⟨hdel, hpres, by simpa using href⟩)

/-- A call that answers has done what its answer says, in one transaction. -/
theorem applyMutation_ok (hp : p.Hooked) (hf : ∀ n, faults n ≠ some .constraint)
    (h : applyMutation s m p faults w = (.ok res, w')) :
    ∃ db, Applied s p m w.disk res db ∧ w'.disk = db ∧ w'.db = db ∧ w'.mem.hlc = w.mem.hlc := by
  unfold applyMutation at h
  cases hv : validate m p.tables with
  | error e => simp [hv] at h
  | ok t =>
    simp only [hv, transact_ok, bind_ok] at h
    obtain ⟨w₁, ⟨recorded, w₂, h₁, h₂⟩, rfl⟩ := h
    obtain ⟨-, rfl, rfl⟩ := query_ok.1 h₁
    cases hr : recordedResult m.mutationID w.disk with
    | some r =>
      simp only [hr, pure_ok] at h₂
      obtain ⟨rfl, rfl⟩ := h₂
      exact ⟨_, .duplicate hr, rfl, rfl, rfl⟩
    | none =>
      simp only [hr, bind_ok, query_ok] at h₂
      obtain ⟨row, w₃, ⟨-, rfl, rfl⟩, gated, w₄, ⟨-, rfl, rfl⟩, h₃⟩ := h₂
      have hcom : ∃ db, Committed { w with db := w.disk } w₁ db ∧ Applied s p m w.disk res db := by
        simp only [Txn.World.next_db] at h₃
        rcases hg : p.gate s w.disk t m with ⟨m', reason | reason⟩ <;>
          have hscope := hg <;> rw [Partition.gate] at hscope <;> simp only [hscope] at h₃
        · obtain ⟨db, c, a⟩ := resolve_ok hp hf hr hv hg rfl h₃
          exact ⟨db, ⟨c.disk, c.hlc⟩, a⟩
        · obtain ⟨seq, rfl, c⟩ := reject_ok h₃
          exact ⟨_, ⟨c.disk, c.hlc⟩, .refused hr hv (.scope hg) rfl⟩
      obtain ⟨db, c, a⟩ := hcom
      exact ⟨db, a, c.disk, c.disk, c.hlc⟩

end

end JitPack
