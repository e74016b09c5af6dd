import JitPack.Lib.Machine
import JitPack.Store.Writes

/-!
# The server

The store as a machine: a state is the database and the clock generator, and an input is one call,
with what it reads from outside and with the statements that fail on their own. A push passes the
two checks of `applyPushBatch` first. Whether the caller may use a route at all (`authed`, `member`)
is decided before and stays open here, so a property of all runs holds whoever calls what.
-/

namespace JitPack

open Txn (World)
open Txn.Proc

/-! ## Calls -/

/-- `MarkMaxBytes`. -/
def markMaxBytes : Nat := 32

/-- `capMark`: the mark of a row that carries one is short enough. -/
def capMark (m : Mutation) : Bool :=
  match Table.ofName m.table with
  | some t => "icon" ∉ t.columnList || (m.string "icon").all fun mark => mark.utf8ByteSize ≤ markMaxBytes
  | none => true

/-- What the server is asked to write. A restart begins with a new clock generator. -/
inductive Request where
  | restart (deviceID : List UInt8)
  | addUser (userID : String)
  | push (tripID userID : String) (m : Mutation)
  | pushMaster (userID : String) (m : Mutation)
  | revert (tripID userID conflictID : String) (seen : Db)
  | revertMaster (userID conflictID : String) (seen : Db)
  | takeOver (tripID itemID takerID : String)
  | putTrack (h : TrackHolder) (tripID userID holderID trackID : String) (f : TrackFile)
  | addIdeaImage (tripID userID ideaID imageID : String) (jpeg : List UInt8)
  | setItemImage (userID itemID : String) (jpeg : List UInt8)
  | deleteItemImage (userID itemID : String)
  | deleteMasterRow (userID : String) (key : Key) (seen : Db)
  | pruneMasterItem (userID id : String) (seen : Db)

/-- What the server answers. The answers to the uploads and the deletes are left out. -/
inductive Answer where
  | done
  | malformed
  | result (res : MutationResult)
  | seq (n : Nat)
  | taken (event : LockEvent)

/-- One mutation of `applyPushBatch`. -/
def push (s : Env) (m : Mutation) (p : Partition) : Proc Answer :=
  if HLC.valid m.hlc ∧ capMark m then do
    let res ← applyMutation s m p
    pure (.result res)
  else pure .malformed

/-- A new account. Nothing deletes one. -/
def addUser (userID : String) : Proc Unit := transact do
  write fun db => if userID ∈ db.users then .error .constraint
    else .ok { db with users := db.users ++ [userID] }
  commit

/-- A new clock generator, if the device id is one. -/
def restart (deviceID : List UInt8) : Proc Unit :=
  memory fun mem =>
    match newGenerator deviceID with
    | .ok g => (.ok (), { mem with hlc := g })
    | .error _ => (.ok (), mem)

/-- What the server does for a request. -/
def serve (s : Env) : Request → Proc Answer
  | .restart deviceID => do
    restart deviceID
    pure .done
  | .addUser userID => do
    addUser userID
    pure .done
  | .push tripID userID m => push s m (tripPartition tripID userID)
  | .pushMaster userID m => push s m (masterPartition userID)
  | .revert tripID userID conflictID seen => do
    let n ← revertTripConflict s tripID userID conflictID seen
    pure (.seq n)
  | .revertMaster userID conflictID seen => do
    let n ← revertMasterConflict s userID conflictID seen
    pure (.seq n)
  | .takeOver tripID itemID takerID => do
    let event ← takeOverClaim s tripID itemID takerID
    pure (.taken event)
  | .putTrack h tripID userID holderID trackID f => do
    let _ ← putTrack s h tripID userID holderID trackID f
    pure .done
  | .addIdeaImage tripID userID ideaID imageID jpeg => do
    let _ ← addIdeaImage s tripID userID ideaID imageID jpeg
    pure .done
  | .setItemImage userID itemID jpeg => do
    setItemImage s userID itemID jpeg
    pure .done
  | .deleteItemImage userID itemID => do
    deleteItemImage s userID itemID
    pure .done
  | .deleteMasterRow userID key seen => do
    let _ ← deleteMasterRow s userID key seen
    pure .done
  | .pruneMasterItem userID id seen => do
    let _ ← pruneMasterItem s userID id seen
    pure .done

/-- A call: the request, what it reads from outside, and which of its statements fail. -/
structure Call where
  env : Env
  faults : Nat → Bool
  request : Request

/-- The state of the server between two calls. -/
structure Server where
  db : Db
  hlc : Generator

/-- What a call starts from. -/
def Server.world (σ : Server) : World Db Memory := ⟨σ.db, σ.db, ⟨σ.hlc, 0⟩, 0⟩

def Call.oracle (c : Call) (n : Nat) : Option Error := if c.faults n then some .fault else none

/-- The server as a machine. -/
def server : Machine Server Call (Except Error Answer) where
  step σ c :=
    let r := serve c.env c.request c.oracle σ.world
    (r.1, ⟨r.2.disk, r.2.mem.hlc⟩)

/-- An environment for concrete runs: none of them writes a real number, a numeric text or JSON. -/
def Env.plain (now : Now) : Env where
  sqlite := {
    realText := fun _ => "0.0"
    numericText := fun _ => none
    jsonValid := fun _ => true
    plusOne := fun _ => none
    realText_start := fun _ => ⟨'0', ['.', '0'], rfl, .inl rfl⟩ }
  now := now
  sqlNow := "2026-01-01T00:00:00.000Z"
  randomID n := "r" ++ toString n
  hash bytes := String.ofList (bytes.map fun b => Char.ofNat b.toNat)

/-- A call none of whose statements fails. -/
def Call.plain (now : Now) (request : Request) : Call := ⟨.plain now, fun _ => false, request⟩

/-- A mutation of the concrete runs. The clocks follow the numbers. -/
def Mutation.plain (n : Nat) (op : Op) (t : Table) (id : String) (fields : List (String × Value)) :
    Mutation :=
  ⟨toString n, op, t.name, id, Fields.decode fields,
    ascii ("1759999999999-" ++ Instant.pad 4 n ++ "-00000000")⟩

/-- A push to a trip in the concrete runs. -/
def Call.trip (tripID userID : String) (m : Mutation) : Call :=
  .plain 1760000000000 (.push tripID userID m)

/-- A push to the master partition in the concrete runs. -/
def Call.master (userID : String) (m : Mutation) : Call :=
  .plain 1760000000000 (.pushMaster userID m)

/-- Ann has joined, and made the trip T1. -/
def annsTrip : List Call := [
  .plain 1760000000000 (.addUser "ann"),
  .master "ann" (.plain 1 .insert .trips "T1" [("name", .str "Oslo"), ("year", .float 2026)])]

/-- The generator of the concrete runs. -/
def Generator.plain : Generator :=
  ⟨ascii "a1b2c3d4", 0, 0, by decide +kernel, by decide, by decide⟩

/-- A server that has been started on a fresh store. -/
def Server.fresh (g : Generator) : Server := ⟨.empty, g⟩

end JitPack
