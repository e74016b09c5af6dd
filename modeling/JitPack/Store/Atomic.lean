import JitPack.Store.Server

/-!
# A call that fails has done nothing

Every write of the store commits last: whichever of its statements fails, and the commit itself, the
database is as it was (`applyMutation_atomic` and its siblings). The proofs follow the procedures
part by part.
-/

namespace JitPack

open Txn.Proc

/-- What a push must leave alone when it fails: the database and the clock generator. -/
def storeState (db : Db) (mem : Memory) : Db × Generator := (db, mem.hlc)

/-- What every write must leave alone when it fails. -/
def onDisk (db : Db) (_ : Memory) : Db := db

/-! ## The parts before the commit -/

section
variable {s : Env} {p : Partition} {m : Mutation} {key : Key} {row : Row} {feed : Option String}
variable {hlc : HLC} {deleted : Bool} {seq : Nat} {merged : MergeResult} {tripID userID : String}

theorem randomID_keeps : Keeps storeState (randomID s) := .memory fun _ _ => rfl

theorem nextHLC_keeps : Keeps onDisk (nextHLC s) := .memory fun _ _ => rfl

theorem observe_keeps {h : HLC} : Keeps onDisk (observe h) := .memory fun _ _ => rfl

theorem appendChangeLog_keeps : Keeps storeState (appendChangeLog feed key hlc deleted) := .exec _

theorem relogCascadeChildren_keeps : Keeps storeState (relogCascadeChildren feed key hlc seq) :=
  .bind (.query _) fun _ => .foldlM fun _ _ _ => appendChangeLog_keeps

theorem relogRefused_keeps : Keeps storeState (relogRefused feed m key row) :=
  .bind appendChangeLog_keeps fun _ => .onlyIf relogCascadeChildren_keeps

theorem logConflicts_keeps {conflicts : List Conflict} :
    Keeps storeState (logConflicts s p m key conflicts) :=
  .forM fun _ _ => .bind randomID_keeps fun _ => .write _

theorem recordActivity_keeps {a : ActivityWrite} : Keeps storeState (recordActivity s a) := by
  unfold recordActivity
  split
  · exact .pure
  · exact .write _

theorem persist_keeps {present : Bool} :
    Keeps storeState (persist s key merged present) := by
  unfold persist
  split
  · exact .pure
  split
  · exact .bind (.write _) fun _ => .pure
  split
  · exact .bind (.write _) fun _ => .pure
  split
  · exact .pure
  · exact .bind (.write _) fun _ => .pure

theorem touchTrip_keeps {out : WriteOutcome} : Keeps storeState (touchTrip out) := by
  unfold touchTrip
  split
  · exact .bind appendChangeLog_keeps fun _ => .pure
  · exact .pure

theorem addOwner_keeps {out : WriteOutcome} :
    Keeps storeState (addOwner s userID out) :=
  .bind randomID_keeps fun _ => .bind (.write _) fun _ =>
    .bind appendChangeLog_keeps fun _ => .pure

theorem masterAfterChange_keeps {out : WriteOutcome} :
    Keeps storeState (masterAfterChange userID s out) :=
  .bind (.onlyIf relogCascadeChildren_keeps) fun _ =>
    .bind (.onlyIf addOwner_keeps) fun _ =>
      .bind (.onlyIf touchTrip_keeps) fun _ => .pure

/-- The partition has the change hook of the master partition or none. -/
def Partition.Hooked (p : Partition) : Prop :=
  p.afterChange = none ∨ p.afterChange = some (masterAfterChange p.actorID)

theorem tripPartition_hooked : (tripPartition tripID userID).Hooked := .inl rfl

theorem masterPartition_hooked : (masterPartition userID).Hooked := .inr rfl

theorem prunePartition_hooked : (prunePartition userID).Hooked := .inr rfl

theorem owed_keeps (hp : p.Hooked) {out : WriteOutcome} : Keeps storeState (p.owed s out) := by
  unfold Partition.owed
  rcases hp with hn | hs
  · rw [hn]
    exact .pure
  · rw [hs]
    exact masterAfterChange_keeps

/-! ## Pushes -/

theorem finalize_atomic {res : MutationResult} : Atomic storeState (finalize res) :=
  .bind (.write _) fun _ => Atomic.commit.bind_pure fun _ => res

theorem reject_atomic {reason : RejectReason} {relog : Bool} :
    Atomic storeState (reject m key row p reason relog) :=
  .bind (.onlyIf relogRefused_keeps) fun _ => finalize_atomic

theorem land_atomic (hp : p.Hooked) {retired : Bool} :
    Atomic storeState (land s p m key row merged retired) := by
  refine .bind (.onlyIf (.query _)) fun cascaded => ?_
  refine .bind (.attempt persist_keeps) fun r => ?_
  match r with
  | none => exact reject_atomic
  | some false => exact .bind logConflicts_keeps fun _ => finalize_atomic
  | some true =>
    refine .bind appendChangeLog_keeps fun _ => ?_
    refine .bind (.forM fun _ _ => .bind appendChangeLog_keeps fun _ => .pure) fun _ => ?_
    refine .bind (owed_keeps hp) fun _ => ?_
    refine .bind recordActivity_keeps fun _ => ?_
    exact .bind logConflicts_keeps fun _ => finalize_atomic

theorem resolve_atomic (hp : p.Hooked) : Atomic storeState (resolve s p m key row) := by
  refine .bind (.onlyIf (.query _)) fun tomb => ?_
  split
  · exact reject_atomic
  refine .bind (.onlyIf (.query _)) fun blocked => ?_
  split
  · exact land_atomic hp
  split
  · exact reject_atomic
  · exact land_atomic hp

theorem applyMutation_atomic (hp : p.Hooked) : Atomic storeState (applyMutation s m p) := by
  unfold applyMutation
  split
  · exact (Keeps.fail _).atomic
  refine .transact (.bind (.query _) fun recorded => ?_)
  split
  · exact Keeps.pure.atomic
  refine .bind (.query _) fun row => .bind (.query _) fun gated => ?_
  split
  · exact reject_atomic
  · exact resolve_atomic hp

/-! ## The other writes -/

theorem restore_atomic (hp : p.Hooked) : Atomic onDisk (restore s p m key row) := by
  refine .bind (.onlyIf observe_keeps) fun _ => .bind nextHLC_keeps fun hlc => ?_
  dsimp only
  split
  · exact (Keeps.fail _).atomic
  refine .bind (.failAs (.write _)) fun _ => .bind (appendChangeLog_keeps.comp Prod.fst) fun _ => ?_
  refine .bind ((owed_keeps hp).comp Prod.fst) fun seq => .bind (recordActivity_keeps.comp Prod.fst) fun _ => ?_
  exact Atomic.commit.bind_pure fun _ => seq

theorem applyRevert_atomic (hp : p.Hooked) {e : ConflictEntry} {group : Fields × List String} :
    Atomic onDisk (applyRevert s e group p) := by
  unfold applyRevert
  dsimp only
  split
  · exact (Keeps.fail _).atomic
  refine .transact (.bind (.write _) fun _ => .bind (.query _) fun row => ?_)
  split
  · exact (Keeps.fail _).atomic
  refine .bind (.query _) fun gated => ?_
  split
  · exact (Keeps.fail _).atomic
  · exact restore_atomic hp

theorem revertTripConflict_atomic {conflictID : String} {seen : Db} :
    Atomic onDisk (revertTripConflict s tripID userID conflictID seen) := by
  unfold revertTripConflict
  split
  · exact (Keeps.fail _).atomic
  · exact applyRevert_atomic tripPartition_hooked

theorem revertMasterConflict_atomic {conflictID : String} {seen : Db} :
    Atomic onDisk (revertMasterConflict s userID conflictID seen) := by
  unfold revertMasterConflict
  split
  · exact (Keeps.fail _).atomic
  · exact applyRevert_atomic masterPartition_hooked

theorem takeOverClaim_atomic {itemID takerID : String} :
    Atomic onDisk (takeOverClaim s tripID itemID takerID) := by
  refine .transact (.bind (.exec _) fun held => .bind (.query _) fun row => ?_)
  refine .bind (.onlyIf observe_keeps) fun _ => .bind nextHLC_keeps fun hlc => ?_
  refine .bind (.write _) fun _ => .bind (appendChangeLog_keeps.comp Prod.fst) fun _ => ?_
  refine .bind (randomID_keeps.comp Prod.fst) fun id => .bind (.write _) fun _ => ?_
  exact Atomic.commit.bind_pure fun _ => _

theorem countAndNext_keeps {t : Table} {column holderID : String} :
    Keeps onDisk (countAndNext s t column holderID) := .exec _

theorem storeTrack_keeps {h : TrackHolder} {holderID trackID hash : String}
    {f : TrackFile} : Keeps onDisk (storeTrack s h hlc tripID holderID trackID hash row f) := by
  unfold storeTrack
  split
  · exact .bind (.write _) fun _ => .bind (.write _) fun _ => .pure
  refine .bind countAndNext_keeps fun count => ?_
  dsimp only
  split
  · exact .fail _
  · exact .bind (.write _) fun _ => .bind (.write _) fun _ => .pure

theorem putTrack_atomic {h : TrackHolder} {holderID trackID : String} {f : TrackFile} :
    Atomic onDisk (putTrack s h tripID userID holderID trackID f) := by
  unfold putTrack
  split
  · exact (Keeps.fail _).atomic
  split
  · exact (Keeps.fail _).atomic
  refine .transact (.bind (.query _) fun onTrip => ?_)
  split
  · exact (Keeps.fail _).atomic
  refine .bind (.query _) fun before => ?_
  split
  · exact (Keeps.fail _).atomic
  refine .bind nextHLC_keeps fun hlc => ?_
  split
  · exact Keeps.pure.atomic
  refine .bind storeTrack_keeps fun stored => ?_
  refine .bind (appendChangeLog_keeps.comp Prod.fst) fun _ => .bind (recordActivity_keeps.comp Prod.fst) fun _ => ?_
  exact Atomic.commit.bind_pure fun _ => _

theorem addIdeaImage_atomic {ideaID imageID : String} {jpeg : List UInt8} :
    Atomic onDisk (addIdeaImage s tripID userID ideaID imageID jpeg) := by
  unfold addIdeaImage
  split
  · exact (Keeps.fail _).atomic
  refine .transact (.bind (.query _) fun onTrip => ?_)
  split
  · exact (Keeps.fail _).atomic
  refine .bind (.query _) fun known => ?_
  split
  · exact Keeps.pure.atomic
  refine .bind countAndNext_keeps fun count => ?_
  dsimp only
  split
  · exact (Keeps.fail _).atomic
  refine .bind nextHLC_keeps fun hlc => .bind (.write _) fun _ => .bind (.write _) fun _ => ?_
  refine .bind (appendChangeLog_keeps.comp Prod.fst) fun _ => .bind (recordActivity_keeps.comp Prod.fst) fun _ => ?_
  exact Atomic.commit.bind_pure fun _ => _

theorem withImageTx_atomic {itemID : String} {hash : Option String} :
    Atomic onDisk (withImageTx s userID itemID hash) := by
  refine .transact (.bind (.query _) fun before => .bind nextHLC_keeps fun hlc => ?_)
  refine .bind (.write _) fun _ => ?_
  split
  · exact (Keeps.fail _).atomic
  refine .bind (.write _) fun _ => .bind (appendChangeLog_keeps.comp Prod.fst) fun _ => ?_
  exact .bind (recordActivity_keeps.comp Prod.fst) fun _ => .commit

theorem deleteWithClock_atomic (hp : p.Hooked) {rowHLC : HLC} :
    Atomic onDisk (deleteWithClock s key rowHLC p) := by
  refine .bind (.onlyIf observe_keeps) fun _ => .bind (randomID_keeps.comp Prod.fst) fun id => ?_
  exact .bind nextHLC_keeps fun hlc => (applyMutation_atomic hp).comp Prod.fst

theorem addUser_atomic : Atomic onDisk (addUser userID) :=
  .transact (.bind (.write _) fun _ => .commit)

end

end JitPack
