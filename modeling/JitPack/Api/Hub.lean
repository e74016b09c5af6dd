import JitPack.Lib.Machine
import JitPack.Lib.Snapshots

/-!
# The hub

`internal/api/hub.go`: the connections, who follows which trip and who has which trip open, and the frames that
tell the others so. An operation takes the hub's mutex several times and lets go of it in between, so every
stretch under the mutex is a step of its own (`Task`), and the operations that are running take their steps in
any order.

What `mayReceive` answers is a parameter, and so is the account of a connection. `changes`, `moves` and every
`view` are in no code: they say which state of the hub a frame was built from.
-/

namespace JitPack

variable {κ υ τ : Type}

/-- `PresenceMember`. -/
structure PresenceMember (υ : Type) where
  userID : υ
  deviceCount : Nat
  inSync : Bool
  deriving DecidableEq

/-- `RosterMember`. -/
structure RosterMember (υ τ : Type) where
  userID : υ
  tripIDs : Finset τ
  deriving DecidableEq

/-- What a frame tells. -/
inductive Event (υ τ : Type) where
  | presence (trip : τ) (headSeq : Nat) (users : Finset (PresenceMember υ))
  | roster (users : Finset (RosterMember υ τ))
  /-- Any other event. -/
  | other
  deriving DecidableEq

/-- An event in the queue of a connection, its generation, and the view it was built from. -/
structure Queued (υ τ : Type) where
  event : Event υ τ
  gen : Nat
  view : Nat
  deriving DecidableEq

/-- `wsSendQueue`. -/
def wsSendQueue : Nat := 64

/-- `conn`. `sent` is what its socket has been written. -/
structure Conn (υ τ : Type) where
  trips : Finset τ
  viewing : Option τ
  rosterSent : Nat
  pullCursors : τ → Nat
  presenceSent : τ → Nat
  out : List (Queued υ τ)
  sent : List (Queued υ τ)
  /-- The pump has ended. -/
  done : Bool

/-- `newConn`. -/
def newConn : Conn υ τ := ⟨∅, none, 0, fun _ => 0, fun _ => 0, [], [], false⟩

/-- `enqueue`. -/
def Conn.enqueue (c : Conn υ τ) (frame : Queued υ τ) : Conn υ τ :=
  if c.out.length < wsSendQueue then { c with out := c.out ++ [frame] } else { c with done := true }

/-- Everything that was queued to the connection and is not lost. -/
def Conn.frames (c : Conn υ τ) : List (Queued υ τ) := c.sent ++ c.out

/-- What an operation still has to do under the mutex. -/
inductive Task (κ υ τ : Type) where
  /-- `broadcastPresence`, before `subscribersOf`. -/
  | presence (trip : τ)
  /-- Before it takes a generation. -/
  | numberPresence (trip : τ) (targets : Finset κ) (view : Nat)
  /-- Before it sends. -/
  | sendPresence (trip : τ) (targets : Finset κ) (view gen : Nat) (cursors : υ → Nat)
  /-- `broadcastRoster`, before it takes its snapshot. -/
  | roster (only : Option κ)
  /-- Before it sends to what is left of its targets. -/
  | sendRoster (only : Option κ) (view gen : Nat) (viewing : Finset (υ × τ)) (targets : Finset κ)

/-- `Hub`, with the operations that are running. -/
structure Hub (κ υ τ : Type) where
  conns : Finset κ
  conn : κ → Conn υ τ
  rosterGen : Numbering
  presenceGen : τ → Numbering
  running : List (List (Task κ υ τ))
  /-- The connections there have been. -/
  used : Finset κ
  /-- How often the subscribers of a trip have changed. -/
  changes : τ → Nat
  /-- How often somebody has opened or left a trip. -/
  moves : Nat

/-- `NewHub`. -/
def newHub : Hub κ υ τ :=
  ⟨∅, fun _ => newConn, ⟨0, fun _ => 0⟩, fun _ => ⟨0, fun _ => 0⟩, [], ∅, fun _ => 0, 0⟩

/-- What happens to the hub. -/
inductive HubCall (κ τ : Type) where
  | connect (c : κ)
  | subscribe (c : κ) (trip : τ)
  | unsubscribe (c : κ) (trip : τ)
  | setViewing (c : κ) (trip : Option τ)
  | updateCursor (c : κ) (trip : τ) (cursor : Nat)
  /-- `Unregister`; the trips come in the order in which the map gives them. -/
  | disconnect (c : κ) (trips : List τ)
  /-- The operation `i` takes its next step. The head it reads is `headSeq`, and a roster goes to `target`. -/
  | turn (i : Nat) (headSeq : Nat) (target : κ)
  /-- A frame is written to the socket. -/
  | pump (c : κ)
  /-- The peer is gone, or does not read. -/
  | fail (c : κ)
  /-- Another event is queued. -/
  | event (c : κ)

section
variable [DecidableEq κ] [DecidableEq υ] [DecidableEq τ] (user : κ → υ) (may : τ → υ → Bool)

/-- The members that a presence frame lists: `devices` and the best cursor of each user of the targets. -/
def presenceMembers (targets : Finset κ) (cursors : υ → Nat) (headSeq : Nat) : Finset (PresenceMember υ) :=
  (targets.image user).image fun u =>
    ⟨u, (targets.filter (user · = u)).card, headSeq = 0 ∨ headSeq ≤ cursors u⟩

/-- The members that a roster lists for a user: the trips that they may both receive. -/
def rosterMembers (viewing : Finset (υ × τ)) (receiver : υ) : Finset (RosterMember υ τ) :=
  ((viewing.image Prod.fst).erase receiver).image (fun other =>
      (⟨other, ((viewing.filter (·.1 = other)).image Prod.snd).filter fun trip =>
        may trip receiver = true ∧ may trip other = true⟩ : RosterMember υ τ))
    |>.filter (·.tripIDs ≠ ∅)

namespace Hub

variable {κ υ τ : Type} [DecidableEq κ] [DecidableEq υ] [DecidableEq τ] (user : κ → υ) (may : τ → υ → Bool)
variable (hub : Hub κ υ τ)

def setConn (c : κ) (conn : Conn υ τ) : Hub κ υ τ := { hub with conn := Function.update hub.conn c conn }

/-- An operation starts with what it has still to do. -/
def start (tasks : List (Task κ υ τ)) : Hub κ υ τ := { hub with running := hub.running ++ [tasks] }

/-- `subscribersOf`. -/
def subscribersOf (trip : τ) : Finset κ :=
  hub.conns.filter fun c => trip ∈ (hub.conn c).trips ∧ may trip (user c) = true

/-- Who has which trip open. -/
def viewing : Finset (υ × τ) :=
  hub.conns.biUnion fun c => ((hub.conn c).viewing.map fun trip => (user c, trip)).toFinset

/-- The subscribers of some trips have changed. -/
def changed (trips : Finset τ) : Hub κ υ τ :=
  { hub with changes := fun trip => if trip ∈ trips then hub.changes trip + 1 else hub.changes trip }

/-- Somebody has opened or left a trip. -/
def moved (yes : Bool) : Hub κ υ τ := { hub with moves := if yes then hub.moves + 1 else hub.moves }

/-- A step of an operation, and what it has to do afterwards. -/
def work (headSeq : Nat) (target : κ) : Task κ υ τ → Hub κ υ τ × List (Task κ υ τ)
  | .presence trip => (hub, [.numberPresence trip (hub.subscribersOf user may trip) (hub.changes trip)])
  | .numberPresence trip targets view =>
    let numbering := (hub.presenceGen trip).give view
    let cursors u := (targets.filter (user · = u)).sup fun c => (hub.conn c).pullCursors trip
    ({ hub with presenceGen := Function.update hub.presenceGen trip numbering },
      [.sendPresence trip targets view numbering.gen cursors])
  | .sendPresence trip targets view gen cursors =>
    let frame := ⟨.presence trip headSeq (presenceMembers user targets cursors headSeq), gen, view⟩
    ({ hub with conn := fun c =>
        if c ∈ targets ∧ (hub.conn c).presenceSent trip < gen then
          { hub.conn c with presenceSent := Function.update (hub.conn c).presenceSent trip gen }.enqueue frame
        else hub.conn c }, [])
  | .roster only =>
    let numbering := hub.rosterGen.give hub.moves
    let targets := match only with
      | none => hub.conns
      | some c => hub.conns.filter (· = c)
    ({ hub with rosterGen := numbering },
      [.sendRoster only hub.moves numbering.gen (hub.viewing user) targets])
  | .sendRoster only view gen viewing targets =>
    let members := rosterMembers may viewing (user target)
    let conn := hub.conn target
    let hub' :=
      if target ∈ targets ∧ ¬ (only.isSome ∧ members = ∅) ∧ conn.rosterSent < gen then
        hub.setConn target ({ conn with rosterSent := gen }.enqueue ⟨.roster members, gen, view⟩)
      else hub
    (hub', if targets.erase target = ∅ then [] else [.sendRoster only view gen viewing (targets.erase target)])

/-- What follows a call. A call that cannot be made leaves the hub as it is. -/
def next : HubCall κ τ → Hub κ υ τ
  | .connect c =>
    if c ∈ hub.used then hub
    else
      { hub.setConn c newConn with conns := insert c hub.conns, used := insert c hub.used }.start [.roster (some c)]
  | .subscribe c trip =>
    if c ∈ hub.conns then
      ((hub.setConn c { hub.conn c with trips := insert trip (hub.conn c).trips }).changed
        ({trip} \ (hub.conn c).trips)).start [.presence trip]
    else hub
  | .unsubscribe c trip =>
    if c ∈ hub.conns then
      ((hub.setConn c { hub.conn c with
          trips := (hub.conn c).trips.erase trip
          pullCursors := Function.update (hub.conn c).pullCursors trip 0 }).changed
        ({trip} ∩ (hub.conn c).trips)).start [.presence trip]
    else hub
  | .setViewing c trip =>
    if c ∈ hub.conns ∧ (hub.conn c).viewing ≠ trip then
      ((hub.setConn c { hub.conn c with viewing := trip }).moved true).start [.roster none]
    else hub
  | .updateCursor c trip cursor =>
    if c ∈ hub.conns then
      (hub.setConn c { hub.conn c with
        pullCursors := Function.update (hub.conn c).pullCursors trip cursor }).start [.presence trip]
    else hub
  | .disconnect c trips =>
    if c ∈ hub.conns ∧ trips.toFinset = (hub.conn c).trips then
      let left := { hub.setConn c { hub.conn c with done := true } with conns := hub.conns.erase c }
      ((left.changed (hub.conn c).trips).moved (hub.conn c).viewing.isSome).start
        (trips.map .presence ++ if (hub.conn c).viewing.isSome then [.roster none] else [])
    else hub
  | .turn i headSeq target =>
    match hub.running[i]? with
    | some (task :: rest) =>
      let (after, tasks) := hub.work user may headSeq target task
      { after with running := after.running.set i (tasks ++ rest) }
    | _ => hub
  | .pump c =>
    match (hub.conn c).out with
    | frame :: out => hub.setConn c { hub.conn c with out, sent := (hub.conn c).sent ++ [frame] }
    | [] => hub
  | .fail c => hub.setConn c { hub.conn c with done := true }
  | .event c => hub.setConn c ((hub.conn c).enqueue ⟨.other, 0, 0⟩)

end Hub

/-- The hub as a machine. -/
def hubMachine : Machine (Hub κ υ τ) (HubCall κ τ) Unit where
  step hub call := ((), hub.next user may call)

end

end JitPack
