import JitPack.Lib.Machine
import JitPack.Api.Push

/-!
# The outbox of a device

`sync/outbox.ts` and `sync/outboxStore.ts`: the queue of mutations that a device keeps for each partition, in memory and
in its storage, and the drains that push the queue and pull the feed. The code runs to the end between two awaits, so a
step of the machine (`Step`) is what runs between them: a call, the answer of a push or of a pull, the end of a write to
the storage, a crash. The steps come in any order.

The array that a drain works through is the live queue itself until the first answer replaces that (`Drain.pushing`), so
what is enqueued meanwhile is in both.

`History` is in no code: it says what the device has ever enqueued, sent and been told.
-/

namespace JitPack

namespace Outbox

/-- `PartitionKey`. -/
abbrev PartitionKey := String

/-! ## Answers -/

/-- Why a mutation is parked: the message of a refused envelope, or the error of its own result. -/
inductive Reason where
  | message (text : String)
  | wire (error : PushError)
  /-- `UNSPECIFIED_REJECTION`. -/
  | unspecified
  deriving DecidableEq

/-- How a push ends. -/
inductive Answer where
  | response (results : List WireResult)
  /-- An error for which `isPermanentRefusal` holds. -/
  | refused (message : String)
  /-- Any other error. -/
  | failed

/-- `PullChange`. -/
structure PullChange where
  seq : Nat
  table : String
  id : String
  deleted : Bool
  row : Option Fields

/-- `PullResponse`. -/
structure Page where
  changes : List PullChange
  nextCursor : Nat
  hasMore : Bool

/-- `hasFurtherPage`. -/
def hasFurtherPage (page : Page) (askedFrom : Nat) : Bool := page.hasMore && askedFrom < page.nextCursor

/-! ## The storage -/

/-- `ParkedMutation`. -/
structure ParkedMutation where
  partition : PartitionKey
  mutation : Mutation
  reason : Reason
  parkedAt : Nat

/-- A write to the storage. -/
inductive Write where
  | append (key : PartitionKey) (m : Mutation)
  | remove (ids : List String)
  | park (entry : ParkedMutation)

/-- `IndexedDBOutboxStore`: its two object stores, by `seq`. -/
structure Device where
  pending : List (PartitionKey × Mutation)
  parked : List ParkedMutation

/-- A write that succeeds. A record that is put takes the place of the one with its id, at the end. -/
def Device.write (d : Device) : Write → Device
  | .append key m => { d with pending := d.pending.filter (·.2.mutationID ≠ m.mutationID) ++ [(key, m)] }
  | .remove ids => { d with pending := d.pending.filter (·.2.mutationID ∉ ids) }
  | .park entry =>
    { pending := d.pending.filter (·.2.mutationID ≠ entry.mutation.mutationID)
      parked := d.parked.filter (·.mutation.mutationID ≠ entry.mutation.mutationID) ++ [entry] }

/-! ## The outbox -/

/-- A drain that waits for an answer. -/
inductive Drain where
  /-- The push of `chunk` is open. No `array` is the live queue. -/
  | pushing (array : Option (List Mutation)) (offset : Nat) (chunk : List Mutation)
  /-- A pull from `cursor` is open. -/
  | pulling (cursor : Nat)

/-- `SyncOutbox`. `writes` are the writes to the storage that have not ended, `loaded` what a `restore` under way has
read. -/
structure SyncOutbox where
  queues : PartitionKey → List Mutation
  /-- The keys of `queues`. -/
  keys : List PartitionKey
  cursors : PartitionKey → Nat
  draining : PartitionKey → Option Drain
  queuedDrain : PartitionKey → Bool
  writes : List Write
  durable : Bool
  parked : Nat
  lastReason : Option Reason
  uncaptured : Nat
  loaded : Option (List (PartitionKey × Mutation))

/-- A new session. -/
def SyncOutbox.new : SyncOutbox where
  queues _ := []
  keys := []
  cursors _ := 0
  draining _ := none
  queuedDrain _ := false
  writes := []
  durable := true
  parked := 0
  lastReason := none
  uncaptured := 0
  loaded := none

/-- What the code hands out. -/
inductive Event where
  /-- `pushPartition`. -/
  | push (key : PartitionKey) (chunk : List Mutation)
  /-- `onChanges`. -/
  | changes (changes : List PullChange)
  /-- `onParked`. -/
  | parked (entry : ParkedMutation)
  /-- `onConflicts`. -/
  | conflicts (key : PartitionKey) (count : Nat)
  /-- `onRejections`. -/
  | rejections (key : PartitionKey) (count : Nat) (reason : Reason)
  /-- What `restore` returns. -/
  | restored (keys : List PartitionKey)

section
variable (cap : Nat)

namespace SyncOutbox
variable (box : SyncOutbox) (key : PartitionKey)

/-- `queues.set`. -/
def setQueue (queue : List Mutation) : SyncOutbox :=
  { box with queues := Function.update box.queues key queue, keys := box.keys.insert key }

/-- `persist`. -/
def persist (w : Write) : SyncOutbox := { box with writes := box.writes ++ [w] }

/-- `enqueue`. -/
def enqueue (m : Mutation) : SyncOutbox :=
  { box.setQueue key (box.queues key ++ [m]) with uncaptured := box.uncaptured + 1 }.persist (.append key m)

/-- `pendingCount`. -/
def pendingCount : Nat := (box.queues key).length

/-- The pull that `runDrain` makes next. -/
def pull : SyncOutbox := { box with draining := Function.update box.draining key (some (.pulling (box.cursors key))) }

/-- The next round of the loop of `runDrain` over the chunks of `array`, or the pull behind it. -/
def pushFrom (array : Option (List Mutation)) (offset : Nat) : List Event × SyncOutbox :=
  let queue := array.getD (box.queues key)
  if offset < queue.length then
    let chunk := (queue.drop offset).take cap
    ([.push key chunk], { box with draining := Function.update box.draining key (some (.pushing array offset chunk)) })
  else ([], box.pull key)

/-- `runDrain`, up to its first await. -/
def runDrain : List Event × SyncOutbox := box.pushFrom cap key none 0

/-- `drain`. A caller that comes during a drain is promised a further one. -/
def drain : List Event × SyncOutbox :=
  match box.draining key with
  | none => box.runDrain cap key
  | some _ => ([], { box with queuedDrain := Function.update box.queuedDrain key true })

/-- The further drain that was promised. -/
def follow : List Event × SyncOutbox :=
  if box.queuedDrain key then { box with queuedDrain := Function.update box.queuedDrain key false }.drain cap key
  else ([], box)

/-- `whenSent`, behind the drain it waits out. -/
def whenSent : List Event × SyncOutbox := if 0 < box.pendingCount key then box.drain cap key else ([], box)

/-- `park`. -/
def park (entry : ParkedMutation) : SyncOutbox :=
  { box.setQueue entry.partition
      ((box.queues entry.partition).filter (·.mutationID ≠ entry.mutation.mutationID)) with
    parked := box.parked + 1
    lastReason := some entry.reason }.persist (.park entry)

/-- `parkAll`, and the loop of `parkRejected`. -/
def parkAll (entries : List ParkedMutation) : SyncOutbox := entries.foldl park box

/-- `forget`. -/
def forget (chunk : List Mutation) : SyncOutbox :=
  (box.setQueue key ((box.queues key).filter (·.mutationID ∉ chunk.map (·.mutationID)))).persist
    (.remove (chunk.map (·.mutationID)))

/-- The drain has ended. -/
def endDrain : SyncOutbox := { box with draining := Function.update box.draining key none }

/-- A page has come. -/
def page (p : Page) : List Event × SyncOutbox :=
  match box.draining key with
  | some (.pulling cursor) =>
    let box := { box with cursors := Function.update box.cursors key p.nextCursor }
    (if p.changes = [] then [] else [.changes p.changes],
      if hasFurtherPage p cursor then box.pull key else box.endDrain key)
  | _ => ([], box)

end SyncOutbox
end

/-- The refusal of a mutation in the results of a push, the last one where there are several. -/
def refusalOf (results : List WireResult) (m : Mutation) : Option WireResult :=
  (results.filter fun r => r.outcome = .rejected ∧ r.mutationID = m.mutationID).getLast?

/-- `result.error ?? UNSPECIFIED_REJECTION`. -/
def reasonOf (r : WireResult) : Reason := r.error.elim .unspecified .wire

/-- What `parkRejected` parks. -/
def rejectedEntries (key : PartitionKey) (chunk : List Mutation) (results : List WireResult) (now : Mutation → Nat) :
    List ParkedMutation :=
  chunk.filterMap fun m => (refusalOf results m).map fun r => ⟨key, m, reasonOf r, now m⟩

/-- The mutations of a chunk that were not parked. -/
def unparked (chunk : List Mutation) (entries : List ParkedMutation) : List Mutation :=
  chunk.filter (·.mutationID ∉ entries.map (·.mutation.mutationID))

/-- `repairRejected`: the rows that a partition must not keep, and the report. -/
def repairRejected (key : PartitionKey) (chunk : List Mutation) (results : List WireResult) : List Event :=
  let refused := ((results.filter (·.outcome = .rejected)).map (·.mutationID)).dedup
  if refused = [] then []
  else
    let found := chunk.filterMap fun m => (refusalOf results m).map (m, ·)
    let dropped := (found.filter (·.2.error = some (.refused .outOfScope))).map fun p =>
      (⟨0, p.1.table, p.1.id, true, none⟩ : PullChange)
    (if dropped = [] then [] else [.changes dropped]) ++
      [.rejections key refused.length ((found.getLast?.map fun p => reasonOf p.2).getD .unspecified)]

/-- `reportConflicts`. -/
def reportConflicts (key : PartitionKey) (results : List WireResult) : List Event :=
  let count := ((results.filter (·.outcome = .merged)).map (·.conflicts.length)).sum
  if 0 < count then [.conflicts key count] else []

/-- The answer of a push, up to the next await. -/
def SyncOutbox.answer (cap : Nat) (box : SyncOutbox) (key : PartitionKey) (now : Mutation → Nat) (a : Answer) :
    List Event × SyncOutbox :=
  match box.draining key with
  | some (.pushing array offset chunk) =>
    let queue := array.getD (box.queues key)
    match a with
    | .failed => ([], box.endDrain key)
    | .refused message =>
      let entries := chunk.map fun m => (⟨key, m, .message message, now m⟩ : ParkedMutation)
      let next := (box.parkAll entries).pushFrom cap key (some queue) (offset + cap)
      (entries.map .parked ++ next.1, next.2)
    | .response results =>
      let entries := rejectedEntries key chunk results now
      let next := ((box.parkAll entries).forget key (unparked chunk entries)).pushFrom cap key (some queue) (offset + cap)
      (entries.map .parked ++ repairRejected key chunk results ++ reportConflicts key results ++ next.1, next.2)
  | _ => ([], box)

/-! ## The machine -/

/-- What has happened: everything enqueued, in order, the ids with a verdict that is no refusal, the ids refused, and the
ids with either in this session. -/
structure History where
  enqueued : List (PartitionKey × Mutation)
  answered : List String
  refused : List String
  told : List String

structure State where
  box : SyncOutbox
  device : Device
  history : History

/-- Before the first session. -/
def State.init : State := ⟨.new, ⟨[], []⟩, ⟨[], [], [], []⟩⟩

inductive Step where
  | enqueue (key : PartitionKey) (m : Mutation)
  | drain (key : PartitionKey)
  | follow (key : PartitionKey)
  | whenSent (key : PartitionKey)
  | answer (key : PartitionKey) (now : Mutation → Nat) (a : Answer)
  | page (key : PartitionKey) (p : Page)
  /-- The pull has failed. -/
  | pageFailed (key : PartitionKey)
  /-- The first write that has not ended ends, well or not. -/
  | settle (ok : Bool)
  | crash
  /-- `restore` reads what is pending, or fails. -/
  | load (ok : Bool)
  /-- `restore` reads what is parked, and rebuilds the queues. -/
  | rebuild (ok : Bool)

/-- The ids of the push that an answer ends, and those of them that it refuses. -/
def verdicts (box : SyncOutbox) (key : PartitionKey) (a : Answer) : List String × List String :=
  match box.draining key, a with
  | some (.pushing _ _ chunk), .refused _ => ([], chunk.map (·.mutationID))
  | some (.pushing _ _ chunk), .response results =>
    let refused := (chunk.filter fun m => (refusalOf results m).isSome).map (·.mutationID)
    ((chunk.map (·.mutationID)).filter (· ∉ refused), refused)
  | _, _ => ([], [])

def State.with (s : State) (r : List Event × SyncOutbox) : List Event × State := (r.1, { s with box := r.2 })

/-- A write of the storage ends. -/
def State.settle (s : State) (ok : Bool) : State :=
  match s.box.writes with
  | [] => s
  | w :: writes =>
    { s with
      box := { s.box with
        writes := writes
        durable := ok
        uncaptured := match w with
          | .append _ _ => s.box.uncaptured - 1
          | _ => s.box.uncaptured }
      device := if ok then s.device.write w else s.device }

/-- The loop of `restore`. -/
def rebuilt (queues : PartitionKey → List Mutation) (pending : List (PartitionKey × Mutation)) :
    PartitionKey → List Mutation :=
  fun key => queues key ++ (pending.filter (·.1 = key)).map (·.2)

/-- The end of `restore`. -/
def State.rebuild (s : State) (ok : Bool) : List Event × State :=
  match s.box.loaded with
  | none => ([], s)
  | some pending =>
    if ok then
      let fresh := ((pending.map (·.1)).filter (· ∉ s.box.keys)).eraseDups
      ([.restored fresh],
        { s with box := { s.box with
          queues := rebuilt s.box.queues pending
          keys := s.box.keys ++ fresh
          parked := s.device.parked.length
          lastReason := s.device.parked.getLast?.map (·.reason)
          loaded := none } })
    else ([.restored []], { s with box := { s.box with durable := false, loaded := none } })

variable (cap : Nat)

def State.step (s : State) : Step → List Event × State
  | .enqueue key m =>
    ([], { s with box := s.box.enqueue key m, history := { s.history with enqueued := s.history.enqueued ++ [(key, m)] } })
  | .drain key => s.with (s.box.drain cap key)
  | .follow key => s.with (s.box.follow cap key)
  | .whenSent key => s.with (s.box.whenSent cap key)
  | .answer key now a =>
    let r := s.box.answer cap key now a
    let v := verdicts s.box key a
    (r.1, { s with
      box := r.2
      history := { s.history with
        answered := s.history.answered ++ v.1
        refused := s.history.refused ++ v.2
        told := s.history.told ++ v.1 ++ v.2 } })
  | .page key p => s.with (s.box.page key p)
  | .pageFailed key =>
    match s.box.draining key with
    | some (.pulling _) => s.with ([], s.box.endDrain key)
    | _ => ([], s)
  | .settle ok => ([], s.settle ok)
  | .crash => ([], { s with box := .new, history := { s.history with told := [] } })
  | .load ok =>
    if ok then ([], { s with box := { s.box with loaded := some s.device.pending } })
    else ([.restored []], { s with box := { s.box with durable := false } })
  | .rebuild ok => s.rebuild ok

/-- A device and its outbox, over all interleavings. -/
def outbox : Machine State Step (List Event) where
  step := State.step cap

end Outbox

end JitPack
