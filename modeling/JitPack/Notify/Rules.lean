import JitPack.Notify.Plan
import JitPack.Store.Guard

/-!
# The rules of a push

`planNotifications` of `internal/notify/rules.go`: which notifications the mutations of one push earn. What the
rules read besides a mutation comes through `NotificationFacts`.

A rule tells somebody only where a predicate on the mutation says so: `PacksFor`, `PointsAt`, `Assigns` and
`TasksPacker` are the four that name one person, and every other rule goes by the list of members. `earned` is what
one mutation adds to the plan, and `planned_well_iff` says exactly which pushes are planned well.
-/

namespace JitPack

/-! ## What the rules read -/

/-- `itemFacts`. -/
structure ItemFacts where
  name : String
  packerUserID : String

/-- `noteThreadFacts`. -/
structure NoteThreadFacts where
  title : String
  body : String
  participants : List String

/-- `ideaFacts`. -/
structure IdeaFacts where
  title : String
  participants : List String

/-- `notificationFacts`: each answer is `none` where it cannot be read. -/
structure NotificationFacts where
  item : String → Option ItemFacts
  travelerAccount : String → Option String
  words : (table id : String) → Option String
  thread : String → Option NoteThreadFacts
  idea : String → Option IdeaFacts

/-- What `planNotifications` is given beside the mutations, and the lower case that Unicode gives a character. -/
structure PushRules where
  tripID : String
  actor : String
  members : Members
  facts : NotificationFacts
  toLower : Char → Char

def PushRules.actorName (r : PushRules) : String := displayNameOf r.members.list r.actor

/-- `m.Fields[field].(string)`, the empty text where it is none. -/
def Mutation.text (m : Mutation) (field : String) : String := (m.string field).getD ""

/-- What every payload starts with. -/
def PushRules.payload (r : PushRules) (key : PayloadKey) (id : String) : Payload :=
  [(.tripID, r.tripID), (key, id), (.actorID, r.actor), (.actorName, r.actorName)]

/-! ## Mentions -/

/-- The bytes of a text. -/
def utf8 (cs : List Char) : List UInt8 := cs.flatMap String.utf8EncodeChar

/-- `strings.Index`. -/
def indexOf (needle : List UInt8) : List UInt8 → Option Nat
  | [] => if needle = [] then some 0 else none
  | b :: bs => if needle.isPrefixOf (b :: bs) then some 0 else (indexOf needle bs).map (· + 1)

/-- `isNameRune` of one byte: a letter or a digit of Latin-1. -/
def isNameRune (b : UInt8) : Bool :=
  let c := b.toNat
  (48 ≤ c && c ≤ 57) || (65 ≤ c && c ≤ 90) || (97 ≤ c && c ≤ 122) || c = 0xAA || c = 0xB5 || c = 0xBA ||
    (0xC0 ≤ c && c ≠ 0xD7 && c ≠ 0xF7)

/-- The loop of `mentionTargets` for one name: whether `@name` stands in what is left of the body and ends there. -/
def mentions (name : List UInt8) (lower : List UInt8) : Bool :=
  match indexOf (64 :: name) lower with
  | none => false
  | some i =>
    match _hrest : lower.drop (i + 1 + name.length) with
    | [] => true
    | b :: rest => !isNameRune b || mentions name (b :: rest)
termination_by lower.length
decreasing_by
  have hlen := congrArg List.length _hrest
  simp only [List.length_drop, List.length_cons] at hlen ⊢
  omega

/-- `mentionTargets`. -/
def mentionTargets (toLower : Char → Char) (body : String) (members : List MemberName) : List String :=
  let lower := utf8 (body.toList.map toLower)
  (members.filter fun m => m.displayName ≠ "" && mentions (utf8 (m.displayName.toList.map toLower)) lower).map
    (·.userID)

/-! ## The rules -/

/-- The targets that the map `notified` lets through, each once. -/
def unnotified (notified : List String) : List String → List String
  | [] => []
  | target :: rest =>
    if target ∈ notified then unnotified notified rest else target :: unnotified (target :: notified) rest

/-- `containsRecipient`. -/
def containsRecipient (plan : List PlannedNotification) (userID : String) : Bool := plan.any (·.userID = userID)

/-- `withoutRecipients`. -/
def withoutRecipients (plan taken : List PlannedNotification) : List PlannedNotification :=
  plan.filter fun p => !containsRecipient taken p.userID

/-- `threadName`: the title, or the first line. -/
def threadName (thread : NoteThreadFacts) : String :=
  if thread.title ≠ "" then thread.title else String.ofList (thread.body.toList.takeWhile (· ≠ '\n'))

/-- `isNoteReply`. -/
def isNoteReply (m : Mutation) : Bool := m.text "parent_id" ≠ ""

namespace PushRules
variable (r : PushRules) (m : Mutation)

/-- Everybody on the trip but the actor. -/
def coTravellers : List String := r.members.ids.filter (· ≠ r.actor)

/-- The participants of a discussion that are on the trip, but for the actor, each once. -/
def onTrip (participants : List String) : List String :=
  unnotified [r.actor] (participants.filter (· ∈ r.members.ids))

def itemPayload (item : ItemFacts) : Payload := r.payload .itemID m.id ++ [(.itemName, item.name)]

/-- `planDelegation`. -/
def planDelegation : List PlannedNotification :=
  let target := m.text "packer_user_id"
  if target = "" ∨ target = r.actor then []
  else match r.facts.item m.id with
    | none => []
    | some item => [⟨target, .delegation, r.itemPayload m item⟩]

/-- `planRosterAssignment`. -/
def planRosterAssignment (already : List PlannedNotification) : List PlannedNotification :=
  let travelerID := m.text "assigned_traveler_id"
  if travelerID = "" then []
  else match r.facts.travelerAccount travelerID with
    | none => []
    | some linkedUserID =>
      if linkedUserID = "" ∨ linkedUserID = r.actor then []
      else if displayNameOf r.members.list linkedUserID = "" then []
      else if already.any (fun p => p.userID = linkedUserID && p.kind = .delegation) then []
      else match r.facts.item m.id with
        | none => []
        | some item => [⟨linkedUserID, .delegation, r.itemPayload m item⟩]

/-- The words that `planAssignment` names the row by: its own, or those on record. -/
def assignmentWords : Option String :=
  let words := m.text (if m.table = "shopping_entries" then "name" else "body")
  if words = "" then r.facts.words m.table m.id else some words

/-- `planAssignment`. -/
def planAssignment : List PlannedNotification :=
  let target := m.text "assignee_user_id"
  if target = "" ∨ target = r.actor ∨ displayNameOf r.members.list target = "" then []
  else match r.assignmentWords m with
    | none => []
    | some words =>
      let idKey := if m.table = "shopping_entries" then .entryID else .commentID
      [⟨target, .delegation, r.payload idKey m.id ++ [(.itemName, truncate words previewLen)]⟩]

/-- The payload of a comment or a note. -/
def commentPayload : Payload :=
  r.payload .commentID m.id ++ [(.preview, truncate (m.text "body") previewLen)]

/-- The packer that a task about an item goes to. -/
def taskPacker (item : ItemFacts) : List String :=
  if isTruthy (m.get "is_task") ∧ item.packerUserID ≠ "" ∧ item.packerUserID ≠ r.actor then [item.packerUserID]
  else []

/-- Who is mentioned, besides the actor and those that are `notified` already. -/
def mentioned (notified : List String) : List String :=
  unnotified (r.actor :: notified) (mentionTargets r.toLower (m.text "body") r.members.list)

/-- `planComment`. -/
def planComment : List PlannedNotification :=
  let itemID := m.text "trip_item_id"
  if itemID = "" then tell (r.mentioned m []) .mention (r.commentPayload m)
  else match r.facts.item itemID with
    | none => []
    | some item =>
      let payload := r.commentPayload m ++ [(.itemID, itemID), (.itemName, item.name)]
      tell (r.taskPacker m item) .task payload ++ tell (r.mentioned m (r.taskPacker m item)) .mention payload

/-- `planNote`. -/
def planNote : List PlannedNotification := tell r.coTravellers .note (r.commentPayload m)

/-- `planNoteReply`. -/
def planNoteReply : List PlannedNotification :=
  let root := m.text "parent_id"
  match r.facts.thread root with
  | none => []
  | some thread =>
    tell (r.onTrip thread.participants) .noteReply
      (r.commentPayload m ++ [(.threadID, root), (.thread, truncate (threadName thread) previewLen)])

/-- What `planIdea` tells, and the title it names the idea by. -/
def ideaNews : Option (NotifyKind × String) :=
  if m.op = .insert then some (.idea, m.text "title")
  else if m.op ≠ .delete ∧ m.get "state" = .str "shortlisted" then
    (r.facts.idea m.id).map fun idea => (.ideaShortlisted, idea.title)
  else none

/-- `planIdea`. -/
def planIdea : List PlannedNotification :=
  match r.ideaNews m with
  | none => []
  | some (kind, title) =>
    tell r.coTravellers kind (r.payload .ideaID m.id ++ [(.itemName, truncate title previewLen)])

/-- `planIdeaComment`. -/
def planIdeaComment : List PlannedNotification :=
  let ideaID := m.text "idea_id"
  match r.facts.idea ideaID with
  | none => []
  | some idea =>
    tell (r.onTrip idea.participants) .ideaComment (r.payload .ideaID ideaID ++
      [(.commentID, m.id), (.itemName, truncate idea.title previewLen),
        (.preview, truncate (m.text "body") previewLen)])

/-- What an insert into the comments earns beside the assignment. -/
def planInsertedComment : List PlannedNotification :=
  if isNote m.get ∧ isNoteReply m then r.planNoteReply m
  else if isNote m.get then r.planNote m
  else withoutRecipients (r.planComment m) (r.planAssignment m)

/-- The cases of the loop of `planNotifications`: what a mutation adds to the plan. -/
def planMutation (plan : List PlannedNotification) : List PlannedNotification :=
  match m.table with
  | "trip_items" => r.planDelegation m ++ r.planRosterAssignment m (plan ++ r.planDelegation m)
  | "comments" => r.planAssignment m ++ if m.op = .insert then r.planInsertedComment m else []
  | "shopping_entries" => r.planAssignment m
  | "ideas" => r.planIdea m
  | "idea_comments" => if m.op = .insert then r.planIdeaComment m else []
  | _ => []

/-- `planNotifications`. -/
def planNotifications (landed : List Mutation) : List PlannedNotification :=
  if r.members.list.length < 2 then [] else landed.foldl (fun plan m => plan ++ r.planMutation m plan) []

/-! ## Who a mutation names -/

/-- The mutation makes somebody else the packer of an item that can be read. -/
structure PacksFor (user : String) : Prop where
  table : m.table = "trip_items"
  packer : m.text "packer_user_id" = user
  named : user ≠ ""
  other : user ≠ r.actor
  item : (r.facts.item m.id).isSome

/-- The mutation points an item that can be read at a traveler whose account is somebody else on the trip. -/
structure PointsAt (user : String) : Prop where
  table : m.table = "trip_items"
  traveler : m.text "assigned_traveler_id" ≠ ""
  account : r.facts.travelerAccount (m.text "assigned_traveler_id") = some user
  named : user ≠ ""
  other : user ≠ r.actor
  member : displayNameOf r.members.list user ≠ ""
  item : (r.facts.item m.id).isSome

/-- The mutation hands a task or a shopping entry, whose words are known, to somebody else on the trip. -/
structure Assigns (user : String) : Prop where
  table : m.table = "comments" ∨ m.table = "shopping_entries"
  assignee : m.text "assignee_user_id" = user
  named : user ≠ ""
  other : user ≠ r.actor
  member : displayNameOf r.members.list user ≠ ""
  words : (r.assignmentWords m).isSome

/-- The mutation adds a task about an item that can be read, whose packer is somebody else. -/
structure TasksPacker (user : String) : Prop where
  table : m.table = "comments"
  insert : m.op = .insert
  task : isTruthy (m.get "is_task")
  about : m.text "trip_item_id" ≠ ""
  packer : (r.facts.item (m.text "trip_item_id")).map (·.packerUserID) = some user
  named : user ≠ ""
  other : user ≠ r.actor

/-- The mutation delegates something to somebody. -/
def Delegates (user : String) : Prop := r.PacksFor m user ∨ r.PointsAt m user ∨ r.Assigns m user

/-- The mutation adds a note that reaches somebody: a first note reaches everybody, a reply the participants of its
thread. -/
structure NoteReaches (user : String) : Prop where
  table : m.table = "comments"
  insert : m.op = .insert
  note : isNote m.get
  reply : isNoteReply m → ∃ thread, r.facts.thread (m.text "parent_id") = some thread ∧ user ∈ thread.participants

/-! ## What a mutation earns -/

/-- What the plan grows by with a mutation that comes after `before`. -/
def earned (before : List Mutation) (m : Mutation) : List PlannedNotification :=
  (r.planNotifications (before ++ [m])).drop (r.planNotifications before).length

/-- Two mutations are about one row. -/
def SameRow (m' m : Mutation) : Prop := m'.table = m.table ∧ m'.id = m.id

/-- A push is planned well: every notification goes to a member other than the actor, nobody gets two for one
mutation, and whoever a mutation alone notifies hears of it in the push, unless an earlier mutation of the same row
has notified them. -/
structure WellPlanned (landed : List Mutation) : Prop where
  recipients : ∀ n ∈ r.planNotifications landed, n.userID ∈ r.members.ids ∧ n.userID ≠ r.actor
  once : ∀ before m after, landed = before ++ m :: after → ((r.earned before m).map (·.userID)).Nodup
  given : ∀ before m after, landed = before ++ m :: after → ∀ n ∈ r.earned [] m, n ∈ r.earned before m ∨
    ∃ before' m' after', before = before' ++ m' :: after' ∧ SameRow m' m ∧
      n.userID ∈ (r.earned before' m').map (·.userID)

/-- What a mutation must keep to, coming after `before`. The last field is about the account of a traveler that an
item is pointed at. -/
structure Careful (before : List Mutation) (m : Mutation) : Prop where
  packer : ∀ user, r.PacksFor m user → user ∈ r.members.ids
  task : ∀ user, r.TasksPacker m user → user ∈ r.members.ids
  note : ∀ user, r.Assigns m user → ¬ r.NoteReaches m user
  roster : ∀ user, r.PointsAt m user → ¬ r.PacksFor m user → (∃ m' ∈ before, r.Delegates m' user) →
    ∃ m' ∈ before, SameRow m' m ∧ r.Delegates m' user

/-! ## The recipients of a rule -/

theorem mem_unnotified {notified targets : List String} {user : String} :
    user ∈ unnotified notified targets ↔ user ∈ targets ∧ user ∉ notified := by
  induction targets generalizing notified with
  | nil => simp [unnotified]
  | cons target rest ih =>
    unfold unnotified
    split <;> grind

theorem nodup_unnotified (notified targets : List String) : (unnotified notified targets).Nodup := by
  induction targets generalizing notified with
  | nil => exact List.nodup_nil
  | cons target rest ih =>
    unfold unnotified
    split
    · exact ih notified
    · exact List.nodup_cons.2 ⟨fun hmem => (mem_unnotified.1 hmem).2 List.mem_cons_self, ih _⟩

theorem mentionTargets_subset {toLower : Char → Char} {body : String} {members : List MemberName} :
    mentionTargets toLower body members ⊆ members.map (·.userID) :=
  List.map_subset _ (List.filter_subset_self _)

section
variable {r : PushRules} {m m' : Mutation} {user : String} {n : PlannedNotification} {plan : List PlannedNotification}

theorem mem_coTravellers : user ∈ r.coTravellers ↔ user ∈ r.members.ids ∧ user ≠ r.actor := by simp [coTravellers]

theorem nodup_coTravellers : r.coTravellers.Nodup := List.Nodup.filter _ r.members.unique

theorem mem_onTrip {participants : List String} :
    user ∈ r.onTrip participants ↔ user ∈ participants ∧ user ∈ r.members.ids ∧ user ≠ r.actor := by
  simp [onTrip, mem_unnotified, and_assoc]

theorem mem_mentioned {notified : List String} (h : user ∈ r.mentioned m notified) :
    user ∈ r.members.ids ∧ user ≠ r.actor ∧ user ∉ notified := by
  obtain ⟨htarget, hnot⟩ := mem_unnotified.1 h
  exact ⟨mentionTargets_subset htarget, fun he => hnot (he ▸ List.mem_cons_self),
    fun hmem => hnot (List.mem_cons_of_mem _ hmem)⟩

theorem nodup_onTrip (participants : List String) : (r.onTrip participants).Nodup := nodup_unnotified _ _

theorem nodup_mentioned (notified : List String) : (r.mentioned m notified).Nodup := nodup_unnotified _ _

theorem mem_planDelegation (ht : m.table = "trip_items") :
    user ∈ (r.planDelegation m).map (·.userID) ↔ r.PacksFor m user := by
  simp only [planDelegation]
  constructor
  · intro h
    split at h
    · simp at h
    next hnone =>
      cases hitem : r.facts.item m.id with
      | none => simp [hitem] at h
      | some item =>
        obtain rfl : user = m.text "packer_user_id" := by simpa [hitem] using h
        exact ⟨ht, rfl, fun he => hnone (.inl he), fun he => hnone (.inr he), by simp [hitem]⟩
  · rintro ⟨-, rfl, hnamed, hother, hitem⟩
    obtain ⟨item, hitem⟩ := Option.isSome_iff_exists.1 hitem
    simp [hnamed, hother, hitem]

theorem mem_planRosterAssignment (ht : m.table = "trip_items") :
    user ∈ (r.planRosterAssignment m plan).map (·.userID) ↔
      r.PointsAt m user ∧ ∀ p ∈ plan, p.userID = user → p.kind ≠ .delegation := by
  simp only [planRosterAssignment]
  constructor
  · intro h
    split at h
    · simp at h
    next htraveler =>
      cases haccount : r.facts.travelerAccount (m.text "assigned_traveler_id") with
      | none => simp [haccount] at h
      | some account =>
        simp only [haccount] at h
        split at h
        · simp at h
        next hnamed =>
          split at h
          · simp at h
          next hmember =>
            split at h
            · simp at h
            next hfree =>
              cases hitem : r.facts.item m.id with
              | none => simp [hitem] at h
              | some item =>
                obtain rfl : user = account := by simpa [hitem] using h
                refine ⟨⟨ht, htraveler, haccount, fun he => hnamed (.inl he), fun he => hnamed (.inr he), hmember,
                  by simp [hitem]⟩, fun p hp hu hk => hfree ?_⟩
                simpa using ⟨p, hp, hu, hk⟩
  · rintro ⟨⟨-, htraveler, haccount, hnamed, hother, hmember, hitem⟩, hfree⟩
    obtain ⟨item, hitem⟩ := Option.isSome_iff_exists.1 hitem
    have hany : (plan.any fun p => p.userID = user && p.kind = .delegation) = false := by
      simpa using hfree
    simp [htraveler, haccount, hnamed, hother, hmember, hany, hitem]

theorem mem_planAssignment (ht : m.table = "comments" ∨ m.table = "shopping_entries") :
    user ∈ (r.planAssignment m).map (·.userID) ↔ r.Assigns m user := by
  simp only [planAssignment]
  constructor
  · intro h
    split at h
    · simp at h
    next hnone =>
      cases hwords : r.assignmentWords m with
      | none => simp [hwords] at h
      | some words =>
        obtain rfl : user = m.text "assignee_user_id" := by simpa [hwords] using h
        simp only [not_or] at hnone
        exact ⟨ht, rfl, hnone.1, hnone.2.1, hnone.2.2, by simp [hwords]⟩
  · rintro ⟨-, rfl, hnamed, hother, hmember, hwords⟩
    obtain ⟨words, hwords⟩ := Option.isSome_iff_exists.1 hwords
    simp [hnamed, hother, hmember, hwords]

theorem planDelegation_single :
    r.planDelegation m = [] ∨ ∃ user payload, r.planDelegation m = [⟨user, .delegation, payload⟩] := by
  simp only [planDelegation]
  split
  · exact .inl rfl
  · split
    · exact .inl rfl
    · exact .inr ⟨_, _, rfl⟩

theorem planRosterAssignment_single :
    r.planRosterAssignment m plan = [] ∨
      ∃ user payload, r.planRosterAssignment m plan = [⟨user, .delegation, payload⟩] := by
  simp only [planRosterAssignment]
  repeat' split
  all_goals first | exact .inl rfl | exact .inr ⟨_, _, rfl⟩

/-- A roster assignment that is planned does not depend on the plan. -/
theorem planRosterAssignment_eq (h : r.planRosterAssignment m plan ≠ []) :
    r.planRosterAssignment m plan = r.planRosterAssignment m [] := by
  simp only [planRosterAssignment] at h ⊢
  split at h
  · exact absurd rfl h
  next htraveler =>
    cases haccount : r.facts.travelerAccount (m.text "assigned_traveler_id") with
    | none => simp
    | some account =>
      simp only [haccount] at h
      split at h
      · exact absurd rfl h
      · split at h
        · exact absurd rfl h
        · split at h
          · exact absurd rfl h
          next hfree => simp [hfree]

theorem planAssignment_single :
    r.planAssignment m = [] ∨ ∃ user payload, r.planAssignment m = [⟨user, .delegation, payload⟩] := by
  simp only [planAssignment]
  split
  · exact .inl rfl
  · split
    · exact .inl rfl
    · exact .inr ⟨_, _, rfl⟩

/-- The rules that name one person plan at most one notification, a delegation. -/
theorem delegation_of_single {l : List PlannedNotification}
    (h : l = [] ∨ ∃ user payload, l = [⟨user, .delegation, payload⟩]) :
    (l.map (·.userID)).Nodup ∧ ∀ n ∈ l, n.kind = .delegation := by
  obtain rfl | ⟨user, payload, rfl⟩ := h <;> simp

/-! ### Comments -/

theorem mem_withoutRecipients {taken : List PlannedNotification} :
    n ∈ withoutRecipients plan taken ↔ n ∈ plan ∧ n.userID ∉ taken.map (·.userID) := by
  simp only [withoutRecipients, containsRecipient, List.mem_filter, Bool.not_eq_true', List.any_eq_false,
    decide_eq_true_eq, List.mem_map, not_exists, not_and]

/-- A comment reaches members other than the actor, and the packer of its item. -/
theorem mem_planComment (ht : m.table = "comments") (hop : m.op = .insert) (hn : n ∈ r.planComment m) :
    (n.userID ∈ r.members.ids ∧ n.userID ≠ r.actor ∨ r.TasksPacker m n.userID) ∧ n.kind ≠ .delegation := by
  simp only [planComment] at hn
  split at hn
  · obtain ⟨hu, hk, -⟩ := mem_tell.1 hn
    exact ⟨.inl ⟨(mem_mentioned hu).1, (mem_mentioned hu).2.1⟩, by simp [hk]⟩
  next habout =>
    cases hitem : r.facts.item (m.text "trip_item_id") with
    | none => simp [hitem] at hn
    | some item =>
      simp only [hitem, List.mem_append, mem_tell] at hn
      obtain ⟨hu, hk, -⟩ | ⟨hu, hk, -⟩ := hn
      · simp only [taskPacker] at hu
        split at hu
        · next htask =>
          obtain hu : n.userID = item.packerUserID := by simpa using hu
          exact ⟨.inr ⟨ht, hop, htask.1, habout, by simp [hitem, hu], hu ▸ htask.2.1, hu ▸ htask.2.2⟩, by simp [hk]⟩
        · cases hu
      · exact ⟨.inl ⟨(mem_mentioned hu).1, (mem_mentioned hu).2.1⟩, by simp [hk]⟩

theorem TasksPacker.mem_planComment (h : r.TasksPacker m user) : user ∈ (r.planComment m).map (·.userID) := by
  obtain ⟨item, hitem, hpacker⟩ := Option.map_eq_some_iff.1 h.packer
  obtain rfl := hpacker
  simp [planComment, h.about, hitem, taskPacker, h.task, h.named, h.other]

theorem nodup_planComment : ((r.planComment m).map (·.userID)).Nodup := by
  simp only [planComment]
  split
  · simpa using nodup_mentioned _
  · split
    · exact List.nodup_nil
    next item hitem =>
      simp only [List.map_append, tell_userID]
      refine List.Nodup.append ?_ (nodup_mentioned _) fun u hu hu' => (mem_mentioned hu').2.2 hu
      simp only [taskPacker]
      split <;> simp

theorem TasksPacker.not_note (h : r.TasksPacker m user) : isNote m.get = false := by
  simp [isNote, h.task]

/-- Whom a note reaches, among the members other than the actor. -/
theorem mem_planInsertedComment_of_note (ht : m.table = "comments") (hop : m.op = .insert) (hnote : isNote m.get)
    (hmem : user ∈ r.members.ids) (hother : user ≠ r.actor) :
    user ∈ (r.planInsertedComment m).map (·.userID) ↔ r.NoteReaches m user := by
  simp only [planInsertedComment, hnote, true_and, if_true]
  split
  · next hreply =>
    simp only [planNoteReply]
    constructor
    · intro h
      cases hthread : r.facts.thread (m.text "parent_id") with
      | none => simp [hthread] at h
      | some thread =>
        simp only [hthread, tell_userID] at h
        exact ⟨ht, hop, hnote, fun _ => ⟨thread, hthread, (mem_onTrip.1 h).1⟩⟩
    · intro h
      obtain ⟨thread, hthread, hpart⟩ := h.reply hreply
      simpa only [hthread, tell_userID] using mem_onTrip.2 ⟨hpart, hmem, hother⟩
  · next hreply =>
    simp only [planNote, tell_userID]
    exact ⟨fun _ => ⟨ht, hop, hnote, fun h => absurd h hreply⟩, fun _ => mem_coTravellers.2 ⟨hmem, hother⟩⟩

theorem nodup_planInsertedComment : ((r.planInsertedComment m).map (·.userID)).Nodup := by
  unfold planInsertedComment
  split
  · simp only [planNoteReply]
    split
    · exact List.nodup_nil
    · simpa using nodup_onTrip _
  · split
    · simpa [planNote] using nodup_coTravellers
    · exact nodup_planComment.sublist (List.filter_sublist.map _)

/-- What an insert into the comments earns beside the assignment: no delegation, and nobody outside the trip but the
packer of its item. -/
theorem mem_planInsertedComment (ht : m.table = "comments") (hop : m.op = .insert)
    (hn : n ∈ r.planInsertedComment m) :
    (n.userID ∈ r.members.ids ∧ n.userID ≠ r.actor ∨ r.TasksPacker m n.userID) ∧ n.kind ≠ .delegation := by
  unfold planInsertedComment at hn
  split at hn
  · simp only [planNoteReply] at hn
    split at hn
    · cases hn
    · obtain ⟨hu, hk, -⟩ := mem_tell.1 hn
      exact ⟨.inl (mem_onTrip.1 hu).2, by simp [hk]⟩
  · split at hn
    · obtain ⟨hu, hk, -⟩ := mem_tell.1 hn
      exact ⟨.inl (mem_coTravellers.1 hu), by simp [hk]⟩
    · exact mem_planComment ht hop (mem_withoutRecipients.1 hn).1

/-! ### Ideas -/

theorem mem_planIdea (hn : n ∈ r.planIdea m) :
    (n.userID ∈ r.members.ids ∧ n.userID ≠ r.actor) ∧ n.kind ≠ .delegation := by
  simp only [planIdea] at hn
  cases hnews : r.ideaNews m with
  | none => simp [hnews] at hn
  | some news =>
    obtain ⟨kind, title⟩ := news
    simp only [hnews, mem_tell] at hn
    refine ⟨mem_coTravellers.1 hn.1, ?_⟩
    rw [hn.2.1]
    unfold ideaNews at hnews
    split at hnews
    · cases hnews; simp
    · split at hnews
      · obtain ⟨idea, -, hidea⟩ := Option.map_eq_some_iff.1 hnews
        cases hidea; simp
      · cases hnews

theorem nodup_planIdea : ((r.planIdea m).map (·.userID)).Nodup := by
  simp only [planIdea]
  split
  · exact List.nodup_nil
  · simpa using nodup_coTravellers

theorem mem_planIdeaComment (hn : n ∈ r.planIdeaComment m) :
    (n.userID ∈ r.members.ids ∧ n.userID ≠ r.actor) ∧ n.kind ≠ .delegation := by
  simp only [planIdeaComment] at hn
  split at hn
  · cases hn
  · obtain ⟨hu, hk, -⟩ := mem_tell.1 hn
    exact ⟨(mem_onTrip.1 hu).2, by simp [hk]⟩

theorem nodup_planIdeaComment : ((r.planIdeaComment m).map (·.userID)).Nodup := by
  simp only [planIdeaComment]
  split
  · exact List.nodup_nil
  · simpa using nodup_onTrip _

/-! ## One step of the plan -/

/-- The plan has a delegation for somebody. -/
def Delegated (plan : List PlannedNotification) (user : String) : Prop :=
  ∃ p ∈ plan, p.userID = user ∧ p.kind = .delegation

theorem delegated_append {plan' : List PlannedNotification} :
    Delegated (plan ++ plan') user ↔ Delegated plan user ∨ Delegated plan' user := by
  simp [Delegated, or_and_right, exists_or]

theorem delegated_of_single {l : List PlannedNotification}
    (h : l = [] ∨ ∃ user payload, l = [⟨user, .delegation, payload⟩]) :
    Delegated l user ↔ user ∈ l.map (·.userID) := by
  simp only [Delegated, List.mem_map]
  exact ⟨fun ⟨p, hp, hu, _⟩ => ⟨p, hp, hu⟩, fun ⟨p, hp, hu⟩ => ⟨p, hp, hu, (delegation_of_single h).2 p hp⟩⟩

theorem not_delegated (h : ∀ n ∈ plan, n.kind ≠ .delegation) : ¬ Delegated plan user :=
  fun ⟨p, hp, _, hk⟩ => h p hp hk

theorem planMutation_tripItems (ht : m.table = "trip_items") : r.planMutation m plan =
    r.planDelegation m ++ r.planRosterAssignment m (plan ++ r.planDelegation m) := by
  simp only [planMutation, ht]

theorem planMutation_comments (ht : m.table = "comments") : r.planMutation m plan =
    r.planAssignment m ++ if m.op = .insert then r.planInsertedComment m else [] := by
  simp only [planMutation, ht]

theorem planMutation_shoppingEntries (ht : m.table = "shopping_entries") :
    r.planMutation m plan = r.planAssignment m := by
  simp only [planMutation, ht]

/-- A mutation of any other table delegates nothing, and what it earns does not depend on the plan. -/
theorem planMutation_other (hi : m.table ≠ "trip_items") (hc : m.table ≠ "comments")
    (hs : m.table ≠ "shopping_entries") :
    ((r.planMutation m plan).map (·.userID)).Nodup ∧ r.planMutation m plan = r.planMutation m [] ∧
      ∀ n ∈ r.planMutation m plan, (n.userID ∈ r.members.ids ∧ n.userID ≠ r.actor) ∧ n.kind ≠ .delegation := by
  unfold planMutation
  split
  · contradiction
  · contradiction
  · contradiction
  · exact ⟨nodup_planIdea, rfl, fun n hn => mem_planIdea hn⟩
  · split
    · exact ⟨nodup_planIdeaComment, rfl, fun n hn => mem_planIdeaComment hn⟩
    · simp
  · simp

theorem not_delegates (hi : m.table ≠ "trip_items") (hc : m.table ≠ "comments") (hs : m.table ≠ "shopping_entries") :
    ¬ r.Delegates m user := by
  rintro (h | h | h)
  · exact hi h.table
  · exact hi h.table
  · exact h.table.elim hc hs

/-- Somebody has a delegation after a mutation if they had one or the mutation delegates something to them. -/
theorem delegated_planMutation :
    Delegated (plan ++ r.planMutation m plan) user ↔ Delegated plan user ∨ r.Delegates m user := by
  rw [delegated_append]
  by_cases hi : m.table = "trip_items"
  · have hassign : ¬ r.Assigns m user := fun h => by simpa [hi] using h.table
    rw [planMutation_tripItems hi, delegated_append, delegated_of_single planDelegation_single,
      delegated_of_single planRosterAssignment_single, mem_planDelegation hi, mem_planRosterAssignment hi]
    simp only [Delegates, hassign, or_false]
    constructor
    · rintro (h | h | h)
      · exact .inl h
      · exact .inr (.inl h)
      · exact .inr (.inr h.1)
    · rintro (h | h | h)
      · exact .inl h
      · exact .inr (.inl h)
      · by_cases hd : Delegated (plan ++ r.planDelegation m) user
        · rw [delegated_append, delegated_of_single planDelegation_single, mem_planDelegation hi] at hd
          exact hd.imp id .inl
        · exact .inr (.inr ⟨h, fun p hp hu hk => hd ⟨p, hp, hu, hk⟩⟩)
  · have hnone : ¬ r.PacksFor m user ∧ ¬ r.PointsAt m user := ⟨fun h => hi h.table, fun h => hi h.table⟩
    by_cases hc : m.table = "comments"
    · rw [planMutation_comments hc, delegated_append, delegated_of_single planAssignment_single,
        mem_planAssignment (.inl hc)]
      have hrest : ¬ Delegated (if m.op = .insert then r.planInsertedComment m else []) user := by
        split
        · next hop => exact not_delegated fun n hn => (mem_planInsertedComment hc hop hn).2
        · exact not_delegated (by simp)
      simp [Delegates, hnone.1, hnone.2, hrest]
    by_cases hs : m.table = "shopping_entries"
    · rw [planMutation_shoppingEntries hs, delegated_of_single planAssignment_single, mem_planAssignment (.inr hs)]
      simp [Delegates, hnone.1, hnone.2]
    · have hrest : ¬ Delegated (r.planMutation m plan) user :=
        not_delegated fun n hn => ((planMutation_other hi hc hs).2.2 n hn).2
      simp [not_delegates hi hc hs, hrest]

/-- Whoever a mutation notifies is somebody else on the trip, or the packer that it names. -/
theorem mem_planMutation (hn : n ∈ r.planMutation m plan) :
    n.userID ∈ r.members.ids ∧ n.userID ≠ r.actor ∨ r.PacksFor m n.userID ∨ r.TasksPacker m n.userID := by
  have hu : n.userID ∈ (r.planMutation m plan).map (·.userID) := List.mem_map_of_mem hn
  by_cases hi : m.table = "trip_items"
  · rw [planMutation_tripItems hi, List.map_append, List.mem_append, mem_planDelegation hi,
      mem_planRosterAssignment hi] at hu
    obtain h | h := hu
    · exact .inr (.inl h)
    · exact .inl ⟨mem_of_displayNameOf h.1.member, h.1.other⟩
  have assigned (ht : m.table = "comments" ∨ m.table = "shopping_entries") (h : n ∈ r.planAssignment m) :
      n.userID ∈ r.members.ids ∧ n.userID ≠ r.actor := by
    have h := (mem_planAssignment ht).1 (List.mem_map_of_mem h)
    exact ⟨mem_of_displayNameOf h.member, h.other⟩
  by_cases hc : m.table = "comments"
  · rw [planMutation_comments hc, List.mem_append] at hn
    obtain h | h := hn
    · exact .inl (assigned (.inl hc) h)
    · split at h
      · next hop => exact (mem_planInsertedComment hc hop h).1.imp id .inr
      · cases h
  by_cases hs : m.table = "shopping_entries"
  · rw [planMutation_shoppingEntries hs] at hn
    exact .inl (assigned (.inr hs) hn)
  · exact .inl ((planMutation_other hi hc hs).2.2 n hn).1

/-- The packer that a mutation names is notified. -/
theorem PacksFor.mem_planMutation (h : r.PacksFor m user) : user ∈ (r.planMutation m plan).map (·.userID) := by
  rw [planMutation_tripItems h.table, List.map_append, List.mem_append, mem_planDelegation h.table]
  exact .inl h

/-- The packer that a new task goes to is notified, of the task or of the assignment. -/
theorem TasksPacker.mem_planMutation (h : r.TasksPacker m user) : user ∈ (r.planMutation m plan).map (·.userID) := by
  rw [planMutation_comments h.table, if_pos h.insert, List.map_append, List.mem_append]
  refine or_iff_not_imp_left.2 fun hassigned => ?_
  obtain ⟨n, hn, rfl⟩ := List.mem_map.1 h.mem_planComment
  have hplan : r.planInsertedComment m = withoutRecipients (r.planComment m) (r.planAssignment m) := by
    simp [planInsertedComment, h.not_note]
  exact hplan ▸ List.mem_map_of_mem (mem_withoutRecipients.2 ⟨hn, hassigned⟩)

/-- Nobody gets two notifications for a mutation exactly if it assigns its row to nobody that it reaches as a note. -/
theorem nodup_planMutation :
    ((r.planMutation m plan).map (·.userID)).Nodup ↔ ∀ user, r.Assigns m user → ¬ r.NoteReaches m user := by
  by_cases hi : m.table = "trip_items"
  · have hassign (user) (h : r.Assigns m user) : False := by simpa [hi] using h.table
    refine iff_of_true ?_ fun user h => (hassign user h).elim
    rw [planMutation_tripItems hi, List.map_append]
    refine (delegation_of_single planDelegation_single).1.append
      (delegation_of_single planRosterAssignment_single).1 fun user hd hr => ?_
    obtain ⟨p, hp, hu⟩ := List.mem_map.1 hd
    exact ((mem_planRosterAssignment hi).1 hr).2 p (List.mem_append_right _ hp) hu
      ((delegation_of_single planDelegation_single).2 p hp)
  by_cases hc : m.table = "comments"
  · rw [planMutation_comments hc]
    by_cases hop : m.op = .insert
    · rw [if_pos hop, List.map_append, List.nodup_append']
      simp only [(delegation_of_single planAssignment_single).1, nodup_planInsertedComment, true_and,
        List.disjoint_left, mem_planAssignment (.inl hc)]
      refine forall₂_congr fun user hassign => not_congr ?_
      by_cases hnote : isNote m.get
      · exact mem_planInsertedComment_of_note hc hop hnote (mem_of_displayNameOf hassign.member) hassign.other
      · refine iff_of_false (fun h => ?_) fun h => hnote h.note
        obtain ⟨n, hn, rfl⟩ := List.mem_map.1 h
        simp only [planInsertedComment, hnote, false_and, if_false, Bool.false_eq_true] at hn
        exact (mem_withoutRecipients.1 hn).2 ((mem_planAssignment (.inl hc)).2 hassign)
    · rw [if_neg hop, List.append_nil]
      exact iff_of_true (delegation_of_single planAssignment_single).1 fun user _ h => hop h.insert
  refine iff_of_true ?_ fun user _ h => hc h.table
  by_cases hs : m.table = "shopping_entries"
  · rw [planMutation_shoppingEntries hs]
    exact (delegation_of_single planAssignment_single).1
  · exact (planMutation_other hi hc hs).1

/-- What a mutation earns on its own is planned after any plan, but for a roster assignment to somebody who has a
delegation. -/
theorem mem_planMutation_of_alone (hn : n ∈ r.planMutation m []) : n ∈ r.planMutation m plan ∨
    r.PointsAt m n.userID ∧ ¬ r.PacksFor m n.userID ∧ Delegated plan n.userID := by
  by_cases hi : m.table = "trip_items"
  · rw [planMutation_tripItems hi, List.nil_append, List.mem_append] at hn
    rw [planMutation_tripItems hi]
    obtain hn | hn := hn
    · exact .inl (List.mem_append_left _ hn)
    · obtain ⟨hpoints, hfree⟩ := (mem_planRosterAssignment hi).1 (List.mem_map_of_mem hn)
      have hpacks : ¬ r.PacksFor m n.userID := fun h => by
        obtain ⟨p, hp, hu⟩ := List.mem_map.1 ((mem_planDelegation hi).2 h)
        exact hfree p hp hu ((delegation_of_single planDelegation_single).2 p hp)
      by_cases hd : Delegated plan n.userID
      · exact .inr ⟨hpoints, hpacks, hd⟩
      · refine .inl (List.mem_append_right _ ?_)
        have hfree' : n.userID ∈ (r.planRosterAssignment m (plan ++ r.planDelegation m)).map (·.userID) := by
          refine (mem_planRosterAssignment hi).2 ⟨hpoints, fun p hp hu hk => ?_⟩
          obtain hp | hp := List.mem_append.1 hp
          · exact hd ⟨p, hp, hu, hk⟩
          · exact hfree p hp hu hk
        have hne : r.planRosterAssignment m (plan ++ r.planDelegation m) ≠ [] := fun he => by simp [he] at hfree'
        rw [planRosterAssignment_eq hne, ← planRosterAssignment_eq (List.ne_nil_of_mem hn)]
        exact hn
  · have hsame : r.planMutation m plan = r.planMutation m [] := by
      unfold planMutation
      split <;> first | rfl | contradiction
    exact .inl (hsame ▸ hn)

/-- A roster assignment to somebody who has a delegation is not planned. -/
theorem PointsAt.not_mem_planMutation (h : r.PointsAt m user) (hpacks : ¬ r.PacksFor m user)
    (hd : Delegated plan user) : user ∉ (r.planMutation m plan).map (·.userID) := by
  rw [planMutation_tripItems h.table, List.map_append, List.mem_append, mem_planDelegation h.table,
    mem_planRosterAssignment h.table]
  rintro (hp | ⟨-, hfree⟩)
  · exact hpacks hp
  · obtain ⟨p, hp, hu, hk⟩ := hd
    exact hfree p (List.mem_append_left _ hp) hu hk

/-- A mutation notifies whom it delegates something to, unless they have a delegation already. -/
theorem Delegates.mem_planMutation (h : r.Delegates m user) (hd : r.PointsAt m user → ¬ Delegated plan user) :
    user ∈ (r.planMutation m plan).map (·.userID) := by
  by_cases hpacks : r.PacksFor m user
  · exact hpacks.mem_planMutation
  have hnew : Delegated (plan ++ r.planMutation m plan) user := delegated_planMutation.2 (.inr h)
  obtain hold | ⟨p, hp, hu, -⟩ := delegated_append.1 hnew
  · obtain h | h | h := h
    · exact absurd h hpacks
    · exact absurd hold (hd h)
    · obtain hc | hs := h.table
      · rw [planMutation_comments hc, List.map_append, List.mem_append, mem_planAssignment (.inl hc)]
        exact .inl h
      · rw [planMutation_shoppingEntries hs, mem_planAssignment (.inr hs)]
        exact h
  · exact hu ▸ List.mem_map_of_mem hp

/-! ## The plan of a push -/

theorem planNotifications_snoc (hmany : 2 ≤ r.members.list.length) (before : List Mutation) :
    r.planNotifications (before ++ [m]) =
      r.planNotifications before ++ r.planMutation m (r.planNotifications before) := by
  simp [planNotifications, Nat.not_lt.2 hmany]

theorem earned_eq (hmany : 2 ≤ r.members.list.length) (before : List Mutation) :
    r.earned before m = r.planMutation m (r.planNotifications before) := by
  simp [earned, planNotifications_snoc hmany]

theorem planNotifications_nil : r.planNotifications [] = [] := by simp [planNotifications]

/-- What a push plans, one of its mutations earns. -/
theorem mem_planNotifications (hmany : 2 ≤ r.members.list.length) (landed : List Mutation) :
    n ∈ r.planNotifications landed ↔ ∃ before m after, landed = before ++ m :: after ∧ n ∈ r.earned before m := by
  induction landed using List.reverseRecOn with
  | nil => simp [planNotifications_nil]
  | append_singleton landed m ih =>
    rw [planNotifications_snoc hmany, List.mem_append, ih, ← earned_eq hmany]
    constructor
    · rintro (⟨before, m', after, rfl, hn⟩ | hn)
      · exact ⟨before, m', after ++ [m], by simp, hn⟩
      · exact ⟨landed, m, [], rfl, hn⟩
    · rintro ⟨before, m', after, heq, hn⟩
      obtain rfl | ⟨after, last, rfl⟩ := List.eq_nil_or_concat' after
      · obtain ⟨rfl, hlast⟩ := List.append_inj' heq rfl
        cases hlast
        exact .inr hn
      · rw [← List.cons_append, ← List.append_assoc] at heq
        obtain ⟨rfl, -⟩ := List.append_inj' heq rfl
        exact .inl ⟨before, m', after, rfl, hn⟩

/-- Somebody has a delegation in the plan if a mutation of the push delegates something to them. -/
theorem delegated_planNotifications (hmany : 2 ≤ r.members.list.length) (landed : List Mutation) :
    Delegated (r.planNotifications landed) user ↔ ∃ m ∈ landed, r.Delegates m user := by
  induction landed using List.reverseRecOn with
  | nil => simp [planNotifications_nil, Delegated]
  | append_singleton landed m ih =>
    rw [planNotifications_snoc hmany, delegated_planMutation, ih]
    simp [or_and_right, exists_or]

/-- The first mutation of a row that delegates something to somebody notifies them, if the pushes up to it are
careful. -/
theorem notified_of_careful (hmany : 2 ≤ r.members.list.length) {before : List Mutation}
    (hcareful : ∀ before' m' after', before = before' ++ m' :: after' → r.Careful before' m')
    (h : ∃ m' ∈ before, SameRow m' m ∧ r.Delegates m' user) :
    ∃ before' m' after', before = before' ++ m' :: after' ∧ SameRow m' m ∧
      user ∈ (r.earned before' m').map (·.userID) := by
  classical
  obtain ⟨m', hfind⟩ : ∃ m', before.find? (fun m' => SameRow m' m ∧ r.Delegates m' user) = some m' := by
    rw [← Option.isSome_iff_exists, List.find?_isSome]
    simpa using h
  obtain ⟨hm', before', after', heq, hfirst⟩ := List.find?_eq_some_iff_append.1 hfind
  obtain ⟨hrow, hdelegates⟩ := by simpa using hm'
  refine ⟨before', m', after', heq, hrow, ?_⟩
  rw [earned_eq hmany]
  by_cases hpacks : r.PacksFor m' user
  · exact hpacks.mem_planMutation
  refine hdelegates.mem_planMutation fun hpoints hd => ?_
  -- A delegation before the first one of the row would be of the row too.
  obtain ⟨m'', hmem, hrow', hd'⟩ :=
    (hcareful before' m' after' heq).roster user hpoints hpacks ((delegated_planNotifications hmany before').1 hd)
  have := hfirst m'' hmem
  simp [hd', hrow'.1.trans hrow.1, hrow'.2.trans hrow.2, SameRow] at this

/-- **A push is planned well exactly if there are not two people on the trip or each of its mutations is careful**:
the packers it names are on the trip, it assigns no note to somebody whom the note reaches, and whoever it points an
item at was delegated nothing by the mutations before it, or something about the same item. -/
theorem planned_well_iff (r : PushRules) (landed : List Mutation) :
    r.WellPlanned landed ↔ r.members.list.length < 2 ∨
      ∀ before m after, landed = before ++ m :: after → r.Careful before m := by
  obtain hfew | hmany := Nat.lt_or_ge r.members.list.length 2
  · have hnone (l) : r.planNotifications l = [] := by simp [planNotifications, hfew]
    have hearned (before m) : r.earned before m = [] := by simp [earned, hnone]
    refine iff_of_true ⟨?_, ?_, ?_⟩ (.inl hfew)
    · simp [hnone]
    · simp [hearned]
    · simp [hearned]
  rw [or_iff_right (Nat.not_lt.2 hmany)]
  constructor
  · intro h before m after hlanded
    have hmember (user) (hu : user ∈ (r.planMutation m (r.planNotifications before)).map (·.userID)) :
        user ∈ r.members.ids := by
      obtain ⟨n, hn, rfl⟩ := List.mem_map.1 hu
      refine (h.recipients n ((mem_planNotifications hmany landed).2 ⟨before, m, after, hlanded, ?_⟩)).1
      rwa [earned_eq hmany]
    refine ⟨fun user hp => hmember user hp.mem_planMutation, fun user ht => hmember user ht.mem_planMutation, ?_, ?_⟩
    · have honce := h.once before m after hlanded
      rwa [earned_eq hmany, nodup_planMutation] at honce
    · intro user hpoints hpacks hbefore
      have hd := (delegated_planNotifications hmany before).2 hbefore
      have halone : user ∈ (r.earned [] m).map (·.userID) := by
        rw [earned_eq hmany]
        refine Delegates.mem_planMutation (.inr (.inl hpoints)) fun _ => ?_
        simp [planNotifications_nil, Delegated]
      obtain ⟨n, hn, rfl⟩ := List.mem_map.1 halone
      obtain hn | ⟨before', m', after', heq, hrow, hu⟩ := h.given before m after hlanded n hn
      · rw [earned_eq hmany] at hn
        exact absurd (List.mem_map_of_mem hn) (hpoints.not_mem_planMutation hpacks hd)
      · refine ⟨m', heq ▸ List.mem_append_right _ List.mem_cons_self, hrow, ?_⟩
        have ht : m'.table = "trip_items" := hrow.1.trans hpoints.table
        rw [earned_eq hmany, planMutation_tripItems ht, List.map_append, List.mem_append, mem_planDelegation ht,
          mem_planRosterAssignment ht] at hu
        exact hu.imp id fun hu => .inl hu.1
  · intro h
    refine ⟨fun n hn => ?_, fun before m after hlanded => ?_, fun before m after hlanded n hn => ?_⟩
    · obtain ⟨before, m, after, hlanded, hn⟩ := (mem_planNotifications hmany landed).1 hn
      have hcareful := h before m after hlanded
      rw [earned_eq hmany] at hn
      obtain hn | hn | hn := mem_planMutation hn
      · exact hn
      · exact ⟨hcareful.packer _ hn, hn.other⟩
      · exact ⟨hcareful.task _ hn, hn.other⟩
    · rw [earned_eq hmany, nodup_planMutation]
      exact (h before m after hlanded).note
    · rw [earned_eq hmany, planNotifications_nil] at hn
      rw [earned_eq hmany]
      refine (mem_planMutation_of_alone hn).imp id fun ⟨hpoints, hpacks, hd⟩ => ?_
      have hsame := (h before m after hlanded).roster _ hpoints hpacks ((delegated_planNotifications hmany before).1 hd)
      refine notified_of_careful hmany (fun before' m' after' heq => ?_) hsame
      exact h before' m' (after' ++ m :: after) (by simp [hlanded, heq])

end

/-! ### Pushes that are planned badly -/

/-- Ada pushes to a trip that she and Bea are on. Every item can be read, and one traveler stands for Bea. -/
def adaPushes : PushRules where
  tripID := "trip"
  actor := "ada"
  members := ⟨[⟨"ada", "Ada"⟩, ⟨"bea", "Bea"⟩], by decide⟩
  facts :=
    { item := fun _ => some ⟨"Tent", ""⟩, travelerAccount := fun _ => some "bea", words := fun _ _ => none,
      thread := fun _ => none, idea := fun _ => none }
  toLower := Char.toLower

/-- A push sets one field of a row. -/
def setting (op : Op) (table id field value : String) : Mutation :=
  ⟨"m", op, table, id, Fields.decode [(field, .str value)], ascii "1759999999999-0000-00000000"⟩

/-- Two items are pointed at Bea's traveler: she hears of the first alone. An item is delegated to somebody who is not
on the trip: they hear of it. A note is written and assigned to Bea: she hears of it twice. -/
theorem pushes_planned_badly :
    ¬ adaPushes.WellPlanned [setting (.other "update") "trip_items" "tent" "assigned_traveler_id" "b",
        setting (.other "update") "trip_items" "stove" "assigned_traveler_id" "b"] ∧
      ¬ adaPushes.WellPlanned [setting (.other "update") "trip_items" "tent" "packer_user_id" "carl"] ∧
      ¬ { adaPushes with facts.words := fun _ _ => some "Hi" }.WellPlanned
        [setting .insert "comments" "note" "assignee_user_id" "bea"] := by
  refine ⟨fun h => ?_, fun h => ?_, fun h => ?_⟩
  · obtain hn | ⟨before, m, after, heq, hrow, -⟩ := h.given [_] _ [] rfl
      ⟨"bea", .delegation, [(.tripID, "trip"), (.itemID, "stove"), (.actorID, "ada"), (.actorName, "Ada"),
        (.itemName, "Tent")]⟩ (by decide)
    · exact absurd hn (by decide)
    · cases before with
      | nil =>
        cases heq
        exact absurd hrow.2 (by decide)
      | cons _ before => simp at heq
  · exact absurd (h.recipients ⟨"carl", .delegation, [(.tripID, "trip"), (.itemID, "tent"), (.actorID, "ada"),
      (.actorName, "Ada"), (.itemName, "Tent")]⟩ (by decide)).1 (by decide)
  · exact absurd (h.once [] _ [] rfl) (by decide)

end PushRules

end JitPack
