import Mathlib

/-!
# Planned notifications

What the rules of `internal/notify` decide: who is told what. A plan is a list; nothing in it has been written or
sent yet.
-/

namespace JitPack

/-- `store.MemberName`. -/
structure MemberName where
  userID : String
  displayName : String
  deriving DecidableEq

/-- The members of a trip, as `TripMemberNames` lists them: nobody is a member twice. -/
structure Members where
  list : List MemberName
  unique : (list.map (·.userID)).Nodup

/-- Nobody, which is what a list is that could not be read. -/
def Members.none : Members := ⟨[], List.nodup_nil⟩

def Members.ids (members : Members) : List String := members.list.map (·.userID)

inductive NotifyKind where
  | delegation
  | mention
  | task
  | note
  | noteReply
  | taskDue
  | shoppingDue
  | excursionDue
  | idea
  | ideaComment
  | ideaShortlisted
  deriving DecidableEq

/-- The keys of a payload. -/
inductive PayloadKey where
  | tripID
  | itemID
  | itemName
  | actorID
  | actorName
  | commentID
  | preview
  | threadID
  | thread
  | ideaID
  | entryID
  | excursionID
  | due
  | time
  deriving DecidableEq

/-- The payload of a notification, every value of it a text. -/
abbrev Payload := List (PayloadKey × String)

/-- `plannedNotification`. -/
structure PlannedNotification where
  userID : String
  kind : NotifyKind
  payload : Payload
  deriving DecidableEq

def previewLen : Nat := 120

/-- `truncate`. A Go rune is a character. -/
def truncate (s : String) (max : Nat) : String := String.ofList (s.toList.take max)

/-- `displayNameOf`. -/
def displayNameOf (members : List MemberName) (userID : String) : String :=
  ((members.find? (·.userID = userID)).map (·.displayName)).getD ""

/-- Everybody in `users` is told the same. -/
def tell (users : List String) (kind : NotifyKind) (payload : Payload) : List PlannedNotification :=
  users.map fun userID => ⟨userID, kind, payload⟩

section
variable {members : List MemberName} {userID : String} {users : List String} {kind : NotifyKind} {payload : Payload}
variable {n : PlannedNotification}

/-- Somebody who has a name is a member. -/
theorem mem_of_displayNameOf (h : displayNameOf members userID ≠ "") : userID ∈ members.map (·.userID) := by
  unfold displayNameOf at h
  cases hfind : members.find? (·.userID = userID) with
  | none => exact absurd (by rw [hfind]; rfl) h
  | some m =>
    have hid : m.userID = userID := by simpa using List.find?_some hfind
    exact hid ▸ List.mem_map_of_mem (List.mem_of_find?_eq_some hfind)

@[simp] theorem mem_tell : n ∈ tell users kind payload ↔ n.userID ∈ users ∧ n.kind = kind ∧ n.payload = payload := by
  obtain ⟨userID, kind', payload'⟩ := n
  simp [tell, eq_comm]

@[simp] theorem tell_userID : (tell users kind payload).map (·.userID) = users := by simp [tell, Function.comp_def]

end

end JitPack
