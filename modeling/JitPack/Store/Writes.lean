import JitPack.Store.Pipeline

/-!
# The other writes

What writes to the synced tables beside the pushes: the revert of a conflict (`conflicts.go`), the
takeover of a packing claim (`locks.go`), the upload of a track (`track.go`), of a picture of an idea
(`ideaimage.go`) and of a photo of an item (`itemimage.go`), and the two deletes over REST
(`master_delete_row.go`, `master_prune_item.go`). The deletes and the reverts read before they open
their transaction: what they read is a database `seen` of its own, which other calls may have
changed since.
-/

namespace JitPack

open Txn.Proc

/-! ## Reverts -/

/-- `loadConflictEntry`. -/
def loadConflictEntry (conflictID : String) (seen : Db) : Except Error ConflictEntry :=
  match seen.conflictLog.find? (·.id = conflictID) with
  | some e => .ok e
  | none => .error .conflictNotFound

/-- `revertGroup`: the fields one revert restores, and the entries they come from. -/
def revertGroup (e : ConflictEntry) (seen : Db) : Except Error (Fields × List String) :=
  let rows := seen.conflictLog.filter fun r =>
    r.mutationID = e.mutationID && r.key = e.key && r.field ∈ groupedWith e.field && !r.reverted
  if rows.isEmpty then .error .conflictAlreadyReverted
  else .ok (Fields.decode (rows.map fun r => (r.field, r.losingValue)), rows.map (·.id))

/-- The statement by which a revert claims its entries. -/
def claimConflicts (ids : List String) : Proc Unit :=
  write fun db =>
    let claimed (e : ConflictEntry) := e.id ∈ ids && !e.reverted
    if (db.conflictLog.filter claimed).length = ids.length then
      .ok { db with conflictLog :=
        db.conflictLog.map fun e => if claimed e then { e with reverted := true } else e }
    else .error .conflictAlreadyReverted

/-- The write of a revert, from its clock on. -/
def restore (s : Env) (p : Partition) (m : Mutation) (key : Key) (row : Row) : Proc Nat := do
  onlyIf (row.hlc ≠ []) (observe row.hlc) ()
  let hlc ← nextHLC s
  let m := { m with hlc }
  let merged := merge row m
  if merged.applied.entries.isEmpty then fail .revertRefused
  else do
    failAs (write (Db.updateRow s.sqlite key merged.applied merged.rowHLC merged.clocks))
      (· = .constraint) .revertRefused
    let seq ← appendChangeLog p.feed key m.hlc false
    let seq ← p.owed s ⟨m, key, row, false, false, seq⟩
    recordActivity s ⟨p.feed, p.actorID, key, row, merged.applied, false⟩
    commit
    pure seq

/-- `applyRevert`. -/
def applyRevert (s : Env) (e : ConflictEntry) (group : Fields × List String) (p : Partition) :
    Proc Nat :=
  let m : Mutation := ⟨"", .upsert, e.key.table.name, e.key.id, group.1, []⟩
  match validate m p.tables with
  | .error err => fail err
  | .ok t => transact do
    claimConflicts group.2
    let key : Key := ⟨t, m.id⟩
    let row ← query (loadRow key)
    if !row.present then fail .conflictRowGone
    else do
      let stamped := stampServerOwned t m row p.actorID s.now
      match ← query fun db => p.scope db t stamped row with
      | (_, some _) => fail .revertForbidden
      | (m, none) => restore s p m key row

/-- What `RevertTripConflict` reads before its transaction. -/
def tripConflict (tripID conflictID : String) (seen : Db) :
    Except Error (ConflictEntry × Fields × List String) := do
  let e ← loadConflictEntry conflictID seen
  if e.tripID ≠ some tripID then .error .conflictNotFound
  else return (e, ← revertGroup e seen)

/-- `RevertTripConflict`. -/
def revertTripConflict (s : Env) (tripID userID conflictID : String) (seen : Db) : Proc Nat :=
  match tripConflict tripID conflictID seen with
  | .error err => fail err
  | .ok (e, group) => applyRevert s e group (tripPartition tripID userID)

/-- `IsTripMember`. -/
def Db.isTripMember (db : Db) (tripID userID : String) : Bool :=
  !(db.select .tripMembers fun row =>
    row.fields columnTripID = .str tripID && row.fields "user_id" = .str userID).isEmpty

/-- `masterVisible`, with the visibility rule that each table declares in the registry. -/
def Db.masterVisible (db : Db) (userID : String) (key : Key) : Bool :=
  let tripOf (trip : Option Value) := (trip.bind Value.asString).any (db.isTripMember · userID)
  let profileOf := (db.rows.lookup key).bind fun row => (row.fields "profile_id").asString
  match key.table with
  | .trips => (db.rows.lookup key).isSome && db.isTripMember key.id userID
  | .tripMembers | .tripTemplateSources | .tripAppliedChanges => tripOf (db.tripOf key.table key.id)
  | .tripSeries => db.seriesOwnerOf key.id = some (.str userID)
  | .destinationProfiles => db.profileOwnerOf key.id = some (.str userID)
  | .destinationChecklistItems | .destinationTasks =>
    profileOf.bind db.profileOwnerOf = some (.str userID)
  | t => t.partition = .master

/-- What `RevertMasterConflict` reads before its transaction. -/
def masterConflict (userID conflictID : String) (seen : Db) :
    Except Error (ConflictEntry × Fields × List String) := do
  let e ← loadConflictEntry conflictID seen
  if e.tripID.isSome ∨ !seen.masterVisible userID e.key then .error .conflictNotFound
  else return (e, ← revertGroup e seen)

/-- `RevertMasterConflict`. -/
def revertMasterConflict (s : Env) (userID conflictID : String) (seen : Db) : Proc Nat :=
  match masterConflict userID conflictID seen with
  | .error err => fail err
  | .ok (e, group) => applyRevert s e group (masterPartition userID)

/-! ## Takeovers -/

/-- The claim that a takeover finds: the name of the row and who holds it. -/
def heldClaim (tripID itemID takerID : String) (db : Db) : Except Error (Value × String) :=
  match db.rows.lookup ⟨.tripItems, itemID⟩ with
  | none => .error .tripItemNotFound
  | some row =>
    if row.fields columnTripID ≠ .str tripID then .error .tripItemNotFound
    else
      match row.fields "packing_now_by" with
      | .str holder =>
        if row.fields fieldState ≠ .str statePackingNow ∨ holder = "" then .error .claimNotHeld
        else if holder = takerID then .error .claimIsOwn
        else .ok (row.fields "name", holder)
      | _ => .error .claimNotHeld

/-- `TakeOverClaim`. -/
def takeOverClaim (s : Env) (tripID itemID takerID : String) : Proc LockEvent := transact do
  let key : Key := ⟨.tripItems, itemID⟩
  let (name, holder) ← exec fun db => (heldClaim tripID itemID takerID db).map (·, db)
  let row ← query (loadRow key)
  onlyIf (row.hlc ≠ []) (observe row.hlc) ()
  let hlc ← nextHLC s
  let fields := Fields.decode [(fieldState, .str statePackingNow), ("packing_now_by", .str takerID),
    ("packing_now_at", .str (Now.rfc3339 s.now))]
  let m : Mutation := ⟨"", .upsert, Table.name .tripItems, itemID, fields, hlc⟩
  let merged := merge row m
  write (Db.updateRow s.sqlite key merged.applied merged.rowHLC merged.clocks)
  let _ ← appendChangeLog (some tripID) key m.hlc false
  let id ← randomID s
  let event : LockEvent := ⟨id, tripID, itemID, name, holder, takerID⟩
  write fun db =>
    if db.hasTrip (some tripID) ∧ holder ∈ db.users ∧ takerID ∈ db.users ∧
        db.lockEvents.all (·.id ≠ id) then
      .ok { db with lockEvents := db.lockEvents ++ [event] }
    else .error .constraint
  commit
  pure event

/-! ## Uploads -/

/-- A statement on a table of bytes, which no statement here reads. -/
def storeBytes : Proc Unit := write .ok

/-- `coalesce(max(position) + 1, 0)` over the rows of the table that name the holder. -/
def nextPosition (sqlite : Sqlite) (positions : List Value) : Option Int :=
  match positions.foldl (fun best v => if sqlLe best v then v else best) .null with
  | .null => some 0
  | .int n => some (n + 1)
  | v => sqlite.plusOne v

/-- The number of rows of the table that name the holder, and the position behind them. -/
def countAndNext (s : Env) (t : Table) (column holderID : String) : Proc (Nat × Int) :=
  exec fun db =>
    let rows := db.rows.entries.filter fun e => e.1.table = t && e.2.fields column = .str holderID
    match nextPosition s.sqlite (rows.map fun e => e.2.fields "position") with
    | some next => .ok ((rows.length, next), db)
    | none => .error .fault

/-- `trackHolder`, of which there are two. The error is told apart by the table of the holder. -/
structure TrackHolder where
  table : Table
  column : String
  holders : Table
  known : (table, column, holders) ∈ [(Table.ideaTracks, "idea_id", Table.ideas),
    (Table.excursionTracks, "excursion_id", Table.excursions)]

/-- `ideaTracks`. -/
def ideaTracks : TrackHolder := ⟨.ideaTracks, "idea_id", .ideas, by decide⟩

/-- `excursionTracks`. -/
def excursionTracks : TrackHolder := ⟨.excursionTracks, "excursion_id", .excursions, by decide⟩

/-- The rows of a holder are tracks. -/
theorem TrackHolder.table_eq (h : TrackHolder) : h.table = .ideaTracks ∨ h.table = .excursionTracks := by
  obtain ⟨t, column, holders, known⟩ := h
  simp only [List.mem_cons, List.not_mem_nil, or_false, Prod.mk.injEq] at known
  exact known.imp And.left And.left

/-- `TrackFile`. -/
structure TrackFile where
  name : String
  fileName : String
  kind : String
  distanceM : Int
  ascentM : Option Int
  descentM : Option Int
  maxEleM : Option Int
  pointCount : Int
  line : String
  gpx : List UInt8

def maxTrackBytes : Nat := 5 * 1024 * 1024
def maxTracks : Nat := 5

/-- `TrackFile.valid`. -/
def TrackFile.valid (f : TrackFile) : Bool :=
  f.name ≠ "" && f.name.length ≤ 200 && f.fileName ≠ "" && f.fileName.length ≤ 255 &&
  (f.kind = "hike" || f.kind = "bike") && 0 ≤ f.distanceM && f.ascentM.all (0 ≤ ·) &&
  f.descentM.all (0 ≤ ·) && 2 ≤ f.pointCount && f.line ≠ "" && f.line.utf8ByteSize ≤ 16000

/-- `optionalInt`. -/
def optionalInt (v : Option Int) : Value := (v.map Value.int).getD .null

/-- The columns that an upload sets from the file. -/
def TrackFile.fileFields (f : TrackFile) (hash : String) : List (String × Value) := [
  ("file_name", .str f.fileName), ("gpx_hash", .str hash), ("distance_m", .int f.distanceM),
  ("ascent_m", optionalInt f.ascentM), ("descent_m", optionalInt f.descentM),
  ("max_ele_m", optionalInt f.maxEleM), ("point_count", .int f.pointCount), ("line", .str f.line)]

/-- `trackFileFields`. -/
def trackFileFields : List String :=
  ["file_name", "gpx_hash", "distance_m", "ascent_m", "descent_m", "max_ele_m", "point_count", "line"]

/-- `Track`. -/
structure Track where
  id : String
  hash : String
  position : Int

/-- `before.Fields[columnPosition].(int64)`. -/
def Row.position (row : Row) : Int :=
  match row.fields "position" with
  | .int n => n
  | _ => 0

/-- What a new track's row is made of, without the file. -/
def TrackFile.rowFields (f : TrackFile) (h : TrackHolder) (tripID holderID : String)
    (position : Int) : List (String × Value) := [
  ("trip_id", .str tripID), (h.column, .str holderID), ("name", .str f.name), ("kind", .str f.kind),
  ("position", .int position)]

/-- `insertTrack`. The answer is what the upload has written. -/
def insertTrack (s : Env) (h : TrackHolder) (hlc : HLC) (tripID holderID trackID hash : String)
    (f : TrackFile) : Proc (Fields × Int) := do
  let (count, next) ← countAndNext s h.table h.column holderID
  if maxTracks ≤ count then fail .trackLimit
  else do
    let fields := Fields.decode (f.fileFields hash ++ f.rowFields h tripID holderID next)
    write (Db.insertRow s.sqlite s.sqlNow ⟨h.table, trackID⟩ fields hlc fun _ => none)
    storeBytes
    pure (fields, next)

/-- The clocks of a track whose file was replaced: a setting that never had a clock of its own is
pinned to the row's old clock. -/
def replacedClocks (before : Row) (hlc : HLC) : FieldClocks := fun field =>
  if field ∈ trackFileFields then some hlc
  else (before.clocks field).or (if field ∈ trackSettings then some before.hlc else none)

/-- `replaceTrack`. -/
def replaceTrack (s : Env) (h : TrackHolder) (hlc : HLC) (trackID hash : String) (before : Row)
    (f : TrackFile) : Proc (Fields × Int) := do
  let fields := Fields.decode (f.fileFields hash)
  write (Db.updateRow s.sqlite ⟨h.table, trackID⟩ fields hlc (replacedClocks before hlc))
  storeBytes
  pure (fields, before.position)

/-- The two ways in which `putTrack` stores a file. -/
def storeTrack (s : Env) (h : TrackHolder) (hlc : HLC) (tripID holderID trackID hash : String)
    (before : Row) (f : TrackFile) : Proc (Fields × Int) :=
  if before.present then replaceTrack s h hlc trackID hash before f
  else insertTrack s h hlc tripID holderID trackID hash f

/-- `putTrack`, with `PutIdeaTrack` and `PutExcursionTrack` as its two holders. -/
def putTrack (s : Env) (h : TrackHolder) (tripID userID holderID trackID : String) (f : TrackFile) :
    Proc Track :=
  if maxTrackBytes < f.gpx.length then fail .trackTooLarge
  else if !f.valid then fail .trackInvalid
  else transact do
    let key : Key := ⟨h.table, trackID⟩
    let onTrip ← query fun db => decide (db.tripOf h.holders holderID = some (.str tripID))
    if !onTrip then fail (.holderNotFound h.holders)
    else do
      let hash := s.hash f.gpx
      let before ← query (loadRow key)
      if before.present ∧ before.fields h.column ≠ .str holderID then
        fail (.holderNotFound h.holders)
      else do
        let hlc ← nextHLC s
        if before.present ∧ before.fields "gpx_hash" = .str hash then
          pure ⟨trackID, hash, before.position⟩
        else do
          let (applied, position) ← storeTrack s h hlc tripID holderID trackID hash before f
          let _ ← appendChangeLog (some tripID) key hlc false
          recordActivity s ⟨some tripID, userID, key, before, applied, false⟩
          commit
          pure ⟨trackID, hash, position⟩

def maxIdeaImageBytes : Nat := 500 * 1024
def maxIdeaImages : Nat := 4

/-- `IdeaImage`. -/
structure IdeaImage where
  id : String
  hash : Value
  position : Value

/-- `AddIdeaImage`, with the picture the upload finds if it is a retry. -/
def addIdeaImage (s : Env) (tripID userID ideaID imageID : String) (jpeg : List UInt8) :
    Proc IdeaImage :=
  if maxIdeaImageBytes < jpeg.length then fail .imageTooLarge
  else transact do
    let key : Key := ⟨.ideaImages, imageID⟩
    let onTrip ← query fun db => decide (db.tripOf .ideas ideaID = some (.str tripID))
    if !onTrip then fail (.holderNotFound .ideas)
    else do
      let known ← query (loadRow key)
      if known.present ∧ known.fields "idea_id" = .str ideaID then
        pure ⟨imageID, known.fields "image_hash", known.fields "position"⟩
      else do
        let (count, next) ← countAndNext s .ideaImages "idea_id" ideaID
        if maxIdeaImages ≤ count then fail .imageLimit
        else do
          let hlc ← nextHLC s
          let fields := Fields.decode [("trip_id", .str tripID), ("idea_id", .str ideaID),
            ("image_hash", .str (s.hash jpeg)), ("position", .int next)]
          write (Db.insertRow s.sqlite s.sqlNow key fields hlc fun _ => none)
          storeBytes
          let _ ← appendChangeLog (some tripID) key hlc false
          recordActivity s ⟨some tripID, userID, key, ⟨false, fun _ => .null, [], fun _ => none⟩,
            fields, false⟩
          commit
          pure ⟨imageID, .str (s.hash jpeg), .int next⟩

/-- `withImageTx`: stamps the hash of an item's photo, or NULL for none. -/
def withImageTx (s : Env) (userID itemID : String) (hash : Option String) : Proc Unit := transact do
  let key : Key := ⟨.items, itemID⟩
  let before ← query (loadRow key)
  let hlc ← nextHLC s
  let applied := Fields.decode [("image_hash", (hash.map Value.str).getD .null)]
  write (Db.updateRow s.sqlite key applied hlc before.clocks)
  if !before.present then fail .itemNotFound
  else do
    storeBytes
    let _ ← appendChangeLog none key hlc false
    recordActivity s ⟨none, userID, key, before, applied, false⟩
    commit

def maxItemImageBytes : Nat := 150 * 1024

/-- `SetItemImage`. -/
def setItemImage (s : Env) (userID itemID : String) (jpeg : List UInt8) : Proc Unit :=
  if maxItemImageBytes < jpeg.length then fail .imageTooLarge
  else withImageTx s userID itemID (some (s.hash jpeg))

/-- `DeleteItemImage`. -/
def deleteItemImage (s : Env) (userID itemID : String) : Proc Unit := withImageTx s userID itemID none

/-! ## Deletes over REST -/

/-- `deletableMasterTables`. -/
def deletableMasterTables : List Table := [.tags, .items, .templates, .templateItems]

/-- The delete that both calls push, with a clock behind the one `masterRowClock` has read. -/
def deleteWithClock (s : Env) (key : Key) (rowHLC : HLC) (p : Partition) : Proc MutationResult := do
  onlyIf (rowHLC ≠ []) (observe rowHLC) ()
  let mutationID ← randomID s
  let hlc ← nextHLC s
  applyMutation s ⟨mutationID, .delete, key.table.name, key.id, ∅, hlc⟩ p

/-- `DeleteMasterRow`. The answer says whether the row was kept and marked instead. -/
def deleteMasterRow (s : Env) (userID : String) (key : Key) (seen : Db) :
    Proc (MutationResult × Bool) :=
  if key.table ∉ deletableMasterTables then fail .masterTableNotDeletable
  else
    match seen.rows.lookup key with
    | none => fail .masterRowNotFound
    | some row => do
      let res ← deleteWithClock s key row.hlc (masterPartition userID)
      let retired ← onlyIf (res.outcome ≠ .rejected && key.table ∈ lifecycleTables)
        (query fun db => (db.rows.lookup key).any fun row => row.fields "retired_at" ≠ .null) false
      pure (res, retired)

/-- `PruneMasterItem`. The answer is the position of the delete, if the item was deleted. -/
def pruneMasterItem (s : Env) (userID id : String) (seen : Db) : Proc (Option Nat) :=
  match seen.rows.lookup ⟨.items, id⟩ with
  | none => pure none
  | some row => do
    let res ← deleteWithClock s ⟨.items, id⟩ row.hlc (prunePartition userID)
    pure (if res.outcome = .rejected then none else some res.seq)

end JitPack
