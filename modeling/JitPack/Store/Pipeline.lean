import JitPack.Lib.Txn
import JitPack.Store.Guard
import JitPack.Sync.Generator

/-!
# The write pipeline

`applyMutation` of `partition.go`, with the steps of `pipeline.go` it is made of: the idempotency
memo, the row the merge compares against, the stamp, the scope, the tombstone, the merge, the
blocking references, the cascade, the write, the change log, the activity log, the conflict log, and
the memo again. The two partitions are values of one structure, `Partition`.
-/

namespace JitPack

open Txn (World)
open Txn.Proc (fail exec query write memory commit transact attempt onlyIf)

/-- What a call of the store reads from outside: how the database engine converts values, the store's
clock, the clock of the database, the random ids it draws, and the hash it names a file by (the first
eight bytes of its SHA-256, in hex). -/
structure Env where
  sqlite : Sqlite
  now : Now
  sqlNow : String
  randomID : Nat → String
  hash : List UInt8 → String

/-- What the process keeps in memory: the clock generator, and how many random ids the call has
drawn. -/
structure Memory where
  hlc : Generator
  drawn : Nat

abbrev Proc := Txn.Proc Error Db Memory

/-- `randomID`, and the random default of an id column. -/
def randomID (s : Env) : Proc String :=
  memory fun mem => (.ok (s.randomID mem.drawn), { mem with drawn := mem.drawn + 1 })

/-- `Generator.Next`. -/
def nextHLC (s : Env) : Proc HLC :=
  memory fun mem => (.ok (mem.hlc.next s.now).1, { mem with hlc := (mem.hlc.next s.now).2 })

/-- `Generator.Observe`. -/
def observe (h : HLC) : Proc Unit :=
  memory fun mem => ((mem.hlc.observe h).1.mapError .malformedClock, { mem with hlc := (mem.hlc.observe h).2 })

/-- A value after `json.Marshal` and `json.Unmarshal`: every number comes back as a double. -/
def Value.viaJSON : Value → Value
  | .int n => .float (toFloat64 n)
  | v => v

def Conflict.viaJSON (c : Conflict) : Conflict := ⟨c.field, c.losingValue.viaJSON, c.winningValue.viaJSON⟩

/-- `MutationResult`. `reason` is set exactly when the outcome is `rejected`. -/
structure MutationResult where
  mutationID : String
  outcome : Outcome
  conflicts : List Conflict
  seq : Nat
  reason : Option RejectReason
  deriving DecidableEq

/-- `writeOutcome`: what a change hook needs to know about the write that just landed. -/
structure WriteOutcome where
  m : Mutation
  key : Key
  row : Row
  deleted : Bool
  retired : Bool
  seq : Nat

/-- The write has created a trip. -/
def WriteOutcome.newTrip (w : WriteOutcome) : Bool :=
  w.key.table = .trips && !w.row.present && !w.deleted

/-- `partition`. The feed is the nullable `trip_id` that the logs carry. -/
structure Partition where
  tables : Table → Bool
  feed : Option String
  actorID : String
  scope : Db → Table → Mutation → Row → Mutation × Option RejectReason
  relogScopeRefusal : Bool
  retirable : Table → Bool
  afterChange : Option (Env → WriteOutcome → Proc Nat)

/-! ## Reading -/

/-- `validate`. -/
def validate (m : Mutation) (tables : Table → Bool) : Except Error Table :=
  match (Table.ofName m.table).filter tables with
  | none => .error .unknownTable
  | some t => if m.fields.keys.all (· ∈ t.columnList) then .ok t else .error .unknownColumn

/-- `recordedResult`. -/
def recordedResult (mutationID : String) (db : Db) : Option MutationResult :=
  (db.mutations.find? (·.mutationID = mutationID)).map fun memo =>
    ⟨mutationID, .duplicate, memo.conflicts.map Conflict.viaJSON, memo.seq, none⟩

/-- `loadRow`. -/
def loadRow (key : Key) (db : Db) : Row :=
  match db.rows.lookup key with
  | none => ⟨false, fun _ => .null, [], fun _ => none⟩
  | some row => ⟨true, row.fields, row.hlc, row.clocks⟩

/-- `tombstoneHLC`: the greatest clock of a delete that the feed recorded for the row, or the empty
clock. -/
def tombstoneHLC (feed : Option String) (key : Key) (db : Db) : HLC :=
  ((db.changeLog.filter fun e => e.tripID = feed && e.key = key && e.deleted).map (·.hlc)).foldl max []

/-! ## Logs -/

/-- `appendChangeLog`. The trip that an entry names has to be there. -/
def appendChangeLog (feed : Option String) (key : Key) (hlc : HLC) (deleted : Bool) : Proc Nat :=
  exec fun db =>
    if db.hasTrip feed then
      .ok (db.lastSeq + 1, { db with
        changeLog := db.changeLog ++ [⟨db.lastSeq + 1, feed, key, deleted, hlc⟩]
        lastSeq := db.lastSeq + 1 })
    else .error .constraint

/-- `relogCascadeChildren`: names every row that a delete of `key` would have taken, alive. -/
def relogCascadeChildren (feed : Option String) (key : Key) (hlc : HLC) (seq : Nat) : Proc Nat := do
  let children ← query (·.cascadeChildren key)
  children.foldlM (fun _ c => appendChangeLog feed c hlc false) seq

/-- `relogRefused`: delivers again the row that a refusal did not change, or a tombstone where there
is none. -/
def relogRefused (feed : Option String) (m : Mutation) (key : Key) (row : Row) : Proc Nat := do
  let seq ← appendChangeLog feed key (if row.present then row.hlc else m.hlc) (!row.present)
  onlyIf (m.op = .delete && row.present) (relogCascadeChildren feed key m.hlc seq) seq

/-- `logConflicts`. -/
def logConflicts (s : Env) (p : Partition) (m : Mutation) (key : Key) (conflicts : List Conflict) :
    Proc PUnit :=
  conflicts.forM fun c => do
    let id ← randomID s
    write fun db =>
      if db.hasTrip p.feed ∧ db.conflictLog.all (·.id ≠ id) then
        .ok { db with conflictLog := db.conflictLog ++ [⟨id, p.feed, key, c.field, c.losingValue.viaJSON,
          c.winningValue.viaJSON, m.mutationID, p.actorID, false⟩] }
      else .error .constraint

/-- `asStored` of `activity.go`: a boolean as the number it is stored as, and an integral double as
an integer. -/
def asStored : Value → Value
  | .bool b => .int (if b then 1 else 0)
  | .float x => if x.den = 1 ∧ -2 ^ 63 ≤ x ∧ x < 2 ^ 63 then .int x.num else .float x
  | v => v

/-- `activityWrite`. -/
structure ActivityWrite where
  feed : Option String
  actorID : String
  key : Key
  before : Row
  applied : Fields
  deleted : Bool

/-- What an activity entry says has changed: of a delete every value the row held, of any other write
every value that is not the one it replaces. -/
def ActivityWrite.changes (w : ActivityWrite) : List (String × Value × Value) :=
  let logged f := f ∉ w.key.table.unlogged
  if w.deleted then
    (w.key.table.columnList.filter fun f => w.before.fields f ≠ .null ∧ logged f).map
      fun f => (f, w.before.fields f, .null)
  else
    (w.applied.entries.filter fun e => asStored (w.before.fields e.1) ≠ asStored e.2 ∧ logged e.1).map
      fun e => (e.1, w.before.fields e.1, e.2)

/-- `activityTrip`: the trip an entry is about. -/
def ActivityWrite.tripID (w : ActivityWrite) : Option String :=
  let stored := (w.before.fields columnTripID).asString
  let written := if w.deleted then none else (w.applied.lookup columnTripID).map Value.asString
  w.feed.or (if w.key.table = .trips then some w.key.id else (written.getD stored).filter (· ≠ ""))

/-- `recordActivity`. A write that changed no value records nothing, and neither does the delete of a
trip. -/
def recordActivity (s : Env) (w : ActivityWrite) : Proc Unit :=
  if w.key.table = .trips ∧ w.deleted ∨ !w.deleted ∧ w.changes.isEmpty then pure ()
  else
    let op := if w.deleted then ActivityOp.delete else if w.before.present then .update else .insert
    write fun db =>
      if db.hasTrip w.tripID then
        .ok { db with activityLog := db.activityLog ++
          [⟨w.tripID, w.key, op, w.changes, w.actorID, Now.millis s.now⟩] }
      else .error .constraint

/-- `recordResult`. -/
def recordResult (res : MutationResult) : Proc Unit :=
  write fun db =>
    if db.mutations.all (·.mutationID ≠ res.mutationID) then
      .ok { db with mutations := db.mutations ++ [⟨res.mutationID, res.outcome, res.conflicts, res.seq⟩] }
    else .error .constraint

/-- `finalize`. -/
def finalize (res : MutationResult) : Proc MutationResult := do
  recordResult res
  commit
  pure res

/-- `reject`. -/
def reject (m : Mutation) (key : Key) (row : Row) (p : Partition) (reason : RejectReason)
    (relog : Bool) : Proc MutationResult := do
  let seq ← onlyIf relog (relogRefused p.feed m key row) 0
  finalize ⟨m.mutationID, .rejected, [], seq, some reason⟩

/-! ## The write -/

/-- The clocks of an inserted row: a column the insert did not name is as old as the write. -/
def insertedClocks (t : Table) (merged : MergeResult) : FieldClocks := fun f =>
  (merged.clocks f).or (if f ∈ t.columnList then some merged.rowHLC else none)

/-- `persist`. The answer says whether anything was written. -/
def persist (s : Env) (key : Key) (merged : MergeResult) (present : Bool) : Proc Bool :=
  if merged.deleted ∧ !present then pure false
  else if merged.deleted then do
    write (Db.deleteRow key)
    pure true
  else if !present then do
    write (Db.insertRow s.sqlite s.sqlNow key merged.applied merged.rowHLC
      (insertedClocks key.table merged))
    pure true
  else if merged.applied.entries.isEmpty then pure false
  else do
    write (Db.updateRow s.sqlite key merged.applied merged.rowHLC merged.clocks)
    pure true

/-- `retireInstead`. -/
def retireInstead (m : Mutation) (retiredAt : String) : Mutation :=
  { m with op := .upsert, fields := Fields.decode [("retired_at", .str retiredAt)] }

/-- The entries that the partition owes for a write that just landed. -/
def Partition.owed (p : Partition) (s : Env) (w : WriteOutcome) : Proc Nat :=
  match p.afterChange with
  | some hook => hook s w
  | none => pure w.seq

/-- What `applyMutation` does once the merge is decided, from the collection of the cascade on. -/
def land (s : Env) (p : Partition) (m : Mutation) (key : Key) (row : Row) (merged : MergeResult)
    (retired : Bool) : Proc MutationResult := do
  let cascaded ← onlyIf (merged.deleted && row.present) (query (·.cascadeChildren key)) []
  let res : MutationResult := ⟨m.mutationID, merged.outcome, merged.conflicts, 0, none⟩
  match ← attempt (persist s key merged row.present) (· = .constraint) with
  | none => reject m key row p .constraintViolated true
  | some false =>
    logConflicts s p m key merged.conflicts
    finalize res
  | some true =>
    let seq ← appendChangeLog p.feed key m.hlc merged.deleted
    cascaded.forM fun c => do
      let _ ← appendChangeLog p.feed c m.hlc true
      pure ⟨⟩
    let seq ← p.owed s ⟨m, key, row, merged.deleted, retired, seq⟩
    recordActivity s ⟨p.feed, p.actorID, key, row, merged.applied, merged.deleted⟩
    logConflicts s p m key merged.conflicts
    finalize { res with seq }

/-- What `applyMutation` does with a mutation that is in scope, from the tombstone on. -/
def resolve (s : Env) (p : Partition) (m : Mutation) (key : Key) (row : Row) :
    Proc MutationResult := do
  let tomb ← onlyIf (m.op ≠ .delete && !row.present) (query (tombstoneHLC p.feed key)) []
  if tomb ≠ [] ∧ m.hlc ≤ tomb then reject m key row p .rowDeleted true
  else
    let merged := merge row m
    let blocked ← onlyIf (merged.deleted && row.present) (query (·.stillReferenced key)) false
    if blocked ∧ p.retirable key.table then
      let m := retireInstead m (Now.rfc3339 s.now)
      land s p m key row (merge row m) true
    else if blocked then reject m key row p .stillReferenced true
    else land s p m key row merged false

/-- `applyMutation`: resolves one mutation of either partition in one transaction. -/
def applyMutation (s : Env) (m : Mutation) (p : Partition) : Proc MutationResult :=
  match validate m p.tables with
  | .error e => fail e
  | .ok t => transact do
    match ← query (recordedResult m.mutationID) with
    | some recorded => pure recorded
    | none =>
      let key : Key := ⟨t, m.id⟩
      let row ← query (loadRow key)
      let stamped := stampServerOwned t m row p.actorID s.now
      match ← query fun db => p.scope db t stamped row with
      | (m, some reason) => reject m key row p reason p.relogScopeRefusal
      | (m, none) => resolve s p m key row

/-! ## The partitions -/

/-- `tripPartition`. -/
def tripPartition (tripID userID : String) : Partition where
  tables t := t.partition = .trip
  feed := some tripID
  actorID := userID
  scope db t m row :=
    if belongsToTrip tripID m row then guardFor t db ⟨tripID, userID, m, row⟩
    else (m, some .outOfScope)
  relogScopeRefusal := false
  retirable _ := false
  afterChange := none

/-- `memberTrip`. -/
def memberTrip (row : Row) (m : Mutation) : Option String :=
  ((m.string columnTripID).filter (· ≠ "")).or ((row.fields columnTripID).asString.filter (· ≠ ""))

/-- The row that makes the creator of a trip its owner. -/
def ownerRow (tripID userID : String) : Fields :=
  Fields.decode [("trip_id", .str tripID), ("user_id", .str userID), ("role", .str "owner")]

/-- The entry of `masterAfterChange` for the membership row of a trip's creator. -/
def addOwner (s : Env) (userID : String) (w : WriteOutcome) : Proc Unit := do
  let memberID ← randomID s
  write (Db.insertRow s.sqlite s.sqlNow ⟨.tripMembers, memberID⟩ (ownerRow w.key.id userID) w.m.hlc
    fun _ => none)
  let _ ← appendChangeLog none ⟨.tripMembers, memberID⟩ w.m.hlc false
  pure ()

/-- The entry of `masterAfterChange` that brings a trip back to its members' attention. -/
def touchTrip (w : WriteOutcome) : Proc Unit :=
  match memberTrip w.row w.m with
  | some trip => do
    let _ ← appendChangeLog none ⟨.trips, trip⟩ w.m.hlc false
    pure ()
  | none => pure ()

/-- `masterAfterChange`: the entries only the master partition owes. -/
def masterAfterChange (userID : String) (s : Env) (w : WriteOutcome) : Proc Nat := do
  let seq ← onlyIf w.retired (relogCascadeChildren none w.key w.m.hlc w.seq) w.seq
  onlyIf w.newTrip (addOwner s userID w) ()
  onlyIf (w.key.table = .tripMembers && !w.deleted) (touchTrip w) ()
  pure seq

/-- `masterPartition`. -/
def masterPartition (userID : String) : Partition where
  tables t := t.partition = .master
  feed := none
  actorID := userID
  scope db t m row := guardFor t db ⟨"", userID, m, row⟩
  relogScopeRefusal := true
  retirable t := t ∈ lifecycleTables
  afterChange := some (masterAfterChange userID)

/-- `prunePartition`: the master partition, which refuses an item in use and retires nothing. -/
def prunePartition (userID : String) : Partition where
  tables t := t.partition = .master
  feed := none
  actorID := userID
  scope db t m row :=
    match guardFor t db ⟨"", userID, m, row⟩ with
    | (m, some reason) => (m, some reason)
    | (m, none) => (m, if db.itemInUse m.id then some .stillReferenced else none)
  relogScopeRefusal := false
  retirable _ := false
  afterChange := some (masterAfterChange userID)

end JitPack
