import JitPack.Store.Retire

/-!
# What every call keeps

A property of the rows and of the conflict log that the statements of the store keep (`Steady`), walked
through every procedure down to `step_meets`. The deletes, the entries of the conflict log and their
claims are left to each use, and so is what is asked of the clocks.
-/

namespace JitPack

open Db
open Txn.Proc

/-- The statements on rows keep the property if they write clocks for which `C` holds, and the other
logs do not matter. -/
structure Steady (C : HLC → Prop) (I : Db → Prop) : Prop where
  valid : ∀ {h}, HLC.valid h = true → C h
  minted : ∀ (g : Generator) (now : Int), C (g.next now).1
  loads : ∀ {db} (key : Key), I db → C (loadRow key db).hlc
  logs : ∀ {db db' : Db}, db'.rows = db.rows → db'.conflictLog = db.conflictLog → I db → I db'
  insert : ∀ {sqlite now key applied hlc clocks db db'}, C hlc →
    Db.insertRow sqlite now key applied hlc clocks db = .ok db' → I db → I db'
  update : ∀ {sqlite key applied hlc clocks db db'}, C hlc →
    Db.updateRow sqlite key applied hlc clocks db = .ok db' → I db → I db'

section
variable {s : Env} {p : Partition} {m : Mutation} {key : Key} {row : Row} {feed : Option String}
variable {hlc : HLC} {deleted : Bool} {seq : Nat} {merged : MergeResult} {tripID userID : String}
variable {C : HLC → Prop} {I J : Db → Prop} {α : Type}

theorem merge_rowHLC_of (hm : C m.hlc) (hrow : C row.hlc) : C (merge row m).rowHLC := by
  rw [merge_rowHLC]
  rcases max_choice row.hlc m.hlc with h | h <;> rwa [h]

namespace Steady

/-! ## The parts of a write -/

theorem appendChangeLog (hI : Steady C I) : Meets I I (appendChangeLog feed key hlc deleted) :=
  Meets.exec fun db a db' h => by
    split at h
    · cases h
      exact hI.logs rfl rfl
    · cases h

theorem relogCascadeChildren (hI : Steady C I) : Meets I I (relogCascadeChildren feed key hlc seq) :=
  (Meets.query _).bind_same fun _ => .foldlM fun _ _ _ => hI.appendChangeLog

theorem recordActivity (hI : Steady C I) {a : ActivityWrite} : Meets I I (recordActivity s a) := by
  unfold JitPack.recordActivity
  split
  · exact .pure
  · refine Meets.write fun db db' h => ?_
    split at h <;> cases h
    exact hI.logs rfl rfl

theorem touchTrip (hI : Steady C I) {out : WriteOutcome} : Meets I I (touchTrip out) := by
  unfold JitPack.touchTrip
  split
  · exact hI.appendChangeLog.bind_same fun _ => .pure
  · exact .pure

theorem addOwner (hI : Steady C I) {out : WriteOutcome} (hm : C out.m.hlc) :
    Meets I I (addOwner s userID out) :=
  (Meets.memory _).bind_same fun _ => (Meets.write fun _ _ h => hI.insert hm h).bind_same fun _ =>
    hI.appendChangeLog.bind_same fun _ => .pure

theorem owed (hI : Steady C I) (hp : p.Hooked) {out : WriteOutcome} (hm : C out.m.hlc) :
    Meets I I (p.owed s out) := by
  unfold Partition.owed
  rcases hp with hn | hs
  · rw [hn]
    exact .pure
  · rw [hs]
    exact (Meets.onlyIf hI.relogCascadeChildren).bind_same fun _ =>
      (Meets.onlyIf (hI.addOwner hm)).bind_same fun _ => (Meets.onlyIf hI.touchTrip).bind_same fun _ => .pure

theorem finalize (hI : Steady C I) {res : MutationResult} : Meets I I (finalize res) := by
  refine (Meets.write fun db db' h => ?_).bind_same fun _ => Meets.commit.bind_same fun _ => .pure
  split at h <;> cases h
  exact hI.logs rfl rfl

theorem reject (hI : Steady C I) {reason : RejectReason} {relog : Bool} :
    Meets I I (reject m key row p reason relog) :=
  (Meets.onlyIf (hI.appendChangeLog.bind_same fun _ => .onlyIf hI.relogCascadeChildren)).bind_same
    fun _ => hI.finalize

/-- The statement of `persist`, of which the delete is left open. -/
theorem persist (hI : Steady C I) {present : Bool} (hc : C merged.rowHLC)
    (hdel : merged.deleted = true → ∀ db db', Db.deleteRow key db = .ok db' → I db → I db') :
    Meets I I (persist s key merged present) := by
  unfold JitPack.persist
  split
  · exact .pure
  split
  · next hd => exact (Meets.write (hdel hd)).bind_same fun _ => .pure
  split
  · exact (Meets.write fun _ _ h => hI.insert hc h).bind_same fun _ => .pure
  split
  · exact .pure
  · exact (Meets.write fun _ _ h => hI.update hc h).bind_same fun _ => .pure

/-- The end of the pipeline, of which the delete and the conflicts are left open. -/
theorem land (hI : Steady C I) (hp : p.Hooked) (hm : C m.hlc) (hc : C merged.rowHLC) {retired : Bool}
    (hdel : merged.deleted = true → ∀ db db', Db.deleteRow key db = .ok db' → I db → I db')
    (hlog : Meets I I (logConflicts s p m key merged.conflicts)) :
    Meets I I (land s p m key row merged retired) := by
  refine (Meets.onlyIf (.query _)).bind_same fun cascaded => ?_
  refine (Meets.attempt (hI.persist hc hdel)).bind_same fun r => ?_
  match r with
  | none => exact hI.reject
  | some false => exact hlog.bind_same fun _ => hI.finalize
  | some true =>
    refine hI.appendChangeLog.bind_same fun _ => ?_
    refine (Meets.forM fun _ _ => hI.appendChangeLog.bind_same fun _ => .pure).bind_same fun _ => ?_
    refine (hI.owed hp hm).bind_same fun _ => hI.recordActivity.bind_same fun _ => ?_
    exact hlog.bind_same fun _ => hI.finalize

/-! ## Pushes -/

/-- What follows the read of a row knows its clock. -/
theorem loadRow_bind (hI : Steady C I) {y : Row → Proc α} (hy : ∀ row, C row.hlc → Meets I J (y row))
    (h : ∀ db, I db → J db) : Meets I J (query (loadRow key) >>= y) := by
  refine (Meets.query _).bind_of (fun faults w row w' hi hr => ?_) hy h
  obtain ⟨-, rfl, -⟩ := query_ok.1 hr
  exact hI.loads key hi

/-- A push meets what its last part meets. -/
theorem applyMutation (hI : Steady C I) (hIJ : ∀ db, I db → J db) (ht : p.Thins)
    (hm : C m.hlc)
    (hland : ∀ key row m' retired, C row.hlc → C m'.hlc →
      Meets I J (JitPack.land s p m' key row (merge row m') retired)) :
    Meets I J (applyMutation s m p) := by
  have hreject {m key row reason relog} : Meets I J (JitPack.reject m key row p reason relog) :=
    hI.reject.imp hIJ
  unfold JitPack.applyMutation
  split
  · exact (Meets.fail _).imp hIJ
  next t _ =>
  refine .transact ((Meets.query _).bind (fun recorded => ?_) hIJ)
  split
  · exact Meets.pure.imp hIJ
  refine hI.loadRow_bind (fun row hrow => ?_) hIJ
  refine (Meets.query _).bind_of (P := fun gated => gated.1.hlc = m.hlc) (fun faults w gated w' _ hr => ?_)
    (fun gated hgated => ?_) hIJ
  · obtain ⟨-, rfl, -⟩ := query_ok.1 hr
    exact (ht ..).frame.hlc.trans (stampServerOwned_onlyFields ..).hlc
  rcases gated with ⟨m', reason | reason⟩
  · have hm' : C m'.hlc := (show m'.hlc = m.hlc from hgated) ▸ hm
    dsimp only
    unfold resolve
    refine (Meets.onlyIf (.query _)).bind (fun tomb => ?_) hIJ
    split
    · exact hreject
    refine (Meets.onlyIf (.query _)).bind (fun blocked => ?_) hIJ
    split
    · exact hland _ _ _ _ hrow hm'
    split
    · exact hreject
    · exact hland _ _ _ _ hrow hm'
  · exact hreject

/-! ## The other writes -/

theorem next_bind (hI : Steady C I) {y : HLC → Proc α} (hy : ∀ hlc, C hlc → Meets I J (y hlc))
    (h : ∀ db, I db → J db) : Meets I J (nextHLC s >>= y) := by
  refine (Meets.memory _).bind_of (fun faults w hlc w' _ hr => ?_) hy h
  obtain ⟨hnext, -⟩ := memory_ok.1 hr
  cases hnext
  exact hI.minted _ _

theorem applyRevert (hI : Steady C I) (hp : p.Hooked) {e : ConflictEntry} {group : Fields × List String}
    (hclaim : Meets I I (claimConflicts group.2)) : Meets I I (applyRevert s e group p) := by
  unfold JitPack.applyRevert
  dsimp only
  split
  · exact .fail _
  refine .transact (hclaim.bind_same fun _ => hI.loadRow_bind (fun row hrow => ?_) fun _ h => h)
  split
  · exact .fail _
  refine (Meets.query _).bind_same fun gated => ?_
  split
  · exact .fail _
  refine (Meets.onlyIf (.memory _)).bind_same fun _ => hI.next_bind (fun hlc hhlc => ?_) fun _ h => h
  dsimp only
  split
  · exact .fail _
  refine (Meets.failAs (.write fun _ _ => hI.update (merge_rowHLC_of hhlc hrow))).bind_same fun _ => ?_
  refine hI.appendChangeLog.bind_same fun _ => (hI.owed hp hhlc).bind_same fun _ => ?_
  exact hI.recordActivity.bind_same fun _ => Meets.commit.bind_same fun _ => .pure

theorem takeOverClaim (hI : Steady C I) {itemID takerID : String} :
    Meets I I (takeOverClaim s tripID itemID takerID) := by
  refine .transact ((Meets.exec fun db a db' h => ?_).bind_same fun _ => ?_)
  · cases hheld : heldClaim tripID itemID takerID db with
    | error e => rw [hheld] at h; cases h
    | ok held => rw [hheld] at h; cases h; exact id
  refine hI.loadRow_bind (fun row hrow => ?_) fun _ h => h
  refine (Meets.onlyIf (.memory _)).bind_same fun _ => hI.next_bind (fun hlc hhlc => ?_) fun _ h => h
  refine (Meets.write fun _ _ => hI.update (merge_rowHLC_of hhlc hrow)).bind_same fun _ => ?_
  refine hI.appendChangeLog.bind_same fun _ => (Meets.memory _).bind_same fun _ => ?_
  refine (Meets.write fun db db' h => ?_).bind_same fun _ => Meets.commit.bind_same fun _ => .pure
  split at h <;> cases h
  exact hI.logs rfl rfl

theorem storeTrack (hI : Steady C I) {h : TrackHolder} (hhlc : C hlc) {holderID trackID hash : String}
    {f : TrackFile} : Meets I I (storeTrack s h hlc tripID holderID trackID hash row f) := by
  have hstore : Meets I I storeBytes := Meets.write fun _ _ hdb => by
    cases hdb
    exact id
  have hcount : Meets I I (countAndNext s h.table h.column holderID) := Meets.exec fun _ _ _ hdb => by
    dsimp only at hdb
    split at hdb <;> cases hdb
    exact id
  unfold JitPack.storeTrack replaceTrack insertTrack
  split
  · exact (Meets.write fun _ _ => hI.update hhlc).bind_same fun _ => hstore.bind_same fun _ => .pure
  refine hcount.bind_same fun r => ?_
  dsimp only
  split
  · exact .fail _
  · exact (Meets.write fun _ _ => hI.insert hhlc).bind_same fun _ => hstore.bind_same fun _ => .pure

theorem putTrack (hI : Steady C I) {h : TrackHolder} {holderID trackID : String} {f : TrackFile} :
    Meets I I (putTrack s h tripID userID holderID trackID f) := by
  unfold JitPack.putTrack
  split
  · exact .fail _
  split
  · exact .fail _
  refine .transact ((Meets.query _).bind_same fun _ => ?_)
  split
  · exact .fail _
  refine (Meets.query _).bind_same fun before => ?_
  split
  · exact .fail _
  refine hI.next_bind (fun hlc hhlc => ?_) fun _ h => h
  split
  · exact .pure
  refine (hI.storeTrack hhlc).bind_same fun _ => hI.appendChangeLog.bind_same fun _ => ?_
  exact hI.recordActivity.bind_same fun _ => Meets.commit.bind_same fun _ => .pure

theorem addIdeaImage (hI : Steady C I) {ideaID imageID : String} {jpeg : List UInt8} :
    Meets I I (addIdeaImage s tripID userID ideaID imageID jpeg) := by
  unfold JitPack.addIdeaImage
  split
  · exact .fail _
  refine .transact ((Meets.query _).bind_same fun _ => ?_)
  split
  · exact .fail _
  refine (Meets.query _).bind_same fun known => ?_
  split
  · exact .pure
  refine (Meets.exec fun _ _ _ hdb => ?_).bind_same fun _ => ?_
  · dsimp only at hdb
    split at hdb <;> cases hdb
    exact id
  dsimp only
  split
  · exact .fail _
  refine hI.next_bind (fun hlc hhlc => ?_) fun _ h => h
  refine (Meets.write fun _ _ => hI.insert hhlc).bind_same fun _ => ?_
  refine (Meets.write fun _ _ hdb => by cases hdb; exact id).bind_same fun _ => ?_
  refine hI.appendChangeLog.bind_same fun _ => hI.recordActivity.bind_same fun _ => ?_
  exact Meets.commit.bind_same fun _ => .pure

theorem withImageTx (hI : Steady C I) {itemID : String} {hash : Option String} :
    Meets I I (withImageTx s userID itemID hash) := by
  refine .transact ((Meets.query _).bind_same fun before => hI.next_bind (fun hlc hhlc => ?_) fun _ h => h)
  refine (Meets.write fun _ _ => hI.update hhlc).bind_same fun _ => ?_
  split
  · exact .fail _
  refine (Meets.write fun _ _ hdb => by cases hdb; exact id).bind_same fun _ => ?_
  exact hI.appendChangeLog.bind_same fun _ => hI.recordActivity.bind_same fun _ => Meets.commit

/-! ## Calls -/

theorem deleteWithClock (hI : Steady C I) (hIJ : ∀ db, I db → J db)
    (hpush : ∀ m, C m.hlc → Meets I J (JitPack.applyMutation s m p)) :
    Meets I J (deleteWithClock s key hlc p) :=
  (Meets.onlyIf (.memory _)).bind (fun _ => (Meets.memory _).bind (fun _ =>
    hI.next_bind (fun _ hhlc => hpush _ hhlc) hIJ) hIJ) hIJ

/-- What a call meets, given what its push and its revert meet. -/
theorem serve (hI : Steady C I) (hIJ : ∀ db, I db → J db)
    (hpush : ∀ p m, p.Hooked → p.Thins → C m.hlc → Meets I J (JitPack.applyMutation s m p))
    (hrevert : ∀ p e group, p.Hooked → Meets I J (JitPack.applyRevert s e group p)) (r : Request) :
    Meets I J (serve s r) := by
  have hdone {α : Type} {x : Proc α} {y : α → Answer} (hx : Meets I I x) :
      Meets I J (x >>= fun a => pure (y a)) := (hx.bind_same fun _ => .pure).imp hIJ
  have hthen {α : Type} {x : Proc α} {y : α → Answer} (hx : Meets I J x) :
      Meets I J (x >>= fun a => pure (y a)) := hx.bind (fun _ => .pure) fun _ h => h
  have hpushed {p : Partition} {m : Mutation} (hp : p.Hooked) (ht : p.Thins) :
      Meets I J (push s m p) := by
    unfold push
    split
    · next hv => exact hthen (hpush p m hp ht (hI.valid hv.1))
    · exact Meets.pure.imp hIJ
  cases r with
  | restart deviceID => exact hdone (.memory _)
  | addUser userID =>
    refine hdone (.transact ((Meets.write fun db db' h => ?_).bind_same fun _ => .commit))
    split at h <;> cases h
    exact hI.logs rfl rfl
  | push tripID userID m => exact hpushed tripPartition_hooked tripPartition_thins
  | pushMaster userID m => exact hpushed masterPartition_hooked masterPartition_thins
  | revert tripID userID conflictID seen =>
    refine hthen ?_
    unfold revertTripConflict
    split
    · exact (Meets.fail _).imp hIJ
    · exact hrevert _ _ _ tripPartition_hooked
  | revertMaster userID conflictID seen =>
    refine hthen ?_
    unfold revertMasterConflict
    split
    · exact (Meets.fail _).imp hIJ
    · exact hrevert _ _ _ masterPartition_hooked
  | takeOver tripID itemID takerID => exact hdone hI.takeOverClaim
  | putTrack h tripID userID holderID trackID f => exact hdone hI.putTrack
  | addIdeaImage tripID userID ideaID imageID jpeg => exact hdone hI.addIdeaImage
  | setItemImage userID itemID jpeg =>
    refine hdone ?_
    unfold setItemImage
    split
    · exact .fail _
    · exact hI.withImageTx
  | deleteItemImage userID itemID => exact hdone hI.withImageTx
  | deleteMasterRow userID key seen =>
    refine hthen ?_
    unfold deleteMasterRow
    split
    · exact (Meets.fail _).imp hIJ
    split
    · exact (Meets.fail _).imp hIJ
    refine (hI.deleteWithClock hIJ fun m => hpush _ m masterPartition_hooked masterPartition_thins).bind
      (fun res => ?_) fun _ h => h
    exact (Meets.onlyIf (.query _)).bind_same fun _ => .pure
  | pruneMasterItem userID id seen =>
    refine hthen ?_
    unfold pruneMasterItem
    split
    · exact Meets.pure.imp hIJ
    exact (hI.deleteWithClock hIJ fun m => hpush _ m prunePartition_hooked prunePartition_thins).bind
      (fun _ => .pure) fun _ h => h

end Steady

/-- The step lemma. -/
theorem step_meets {σ : Server} {c : Call} (h : Meets I J (JitPack.serve c.env c.request)) (hi : I σ.db) :
    J (server.step σ c).2.db := (h c.oracle σ.world hi hi).2

end

end JitPack
