import JitPack.Store.Stamp

/-!
# The write gate

The rules that decide whether a mutation may be applied at all: the scope of a trip's partition
(`belongsToTrip`) and the guard that each table declares in the registry. A rule sees the mutation
after the stamp step, reads the database, may take fields out of the mutation, and answers with the
reason of a refusal or with none.
-/

namespace JitPack

/-- `RejectReason`, without `ReasonNone`: a rule that does not refuse answers `none`. -/
inductive RejectReason where
  | notAuthorized
  | outOfScope
  | stillReferenced
  | templateScope
  | constraintViolated
  | rowDeleted
  | notATripMember
  deriving DecidableEq

/-- `guardInput`. `tripID` is empty on the master partition. -/
structure GuardInput where
  tripID : String
  actorID : String
  m : Mutation
  row : Row

/-- `guardRule`: the mutation it leaves, and its answer. -/
abbrev GuardRule := Db → GuardInput → Mutation × Option RejectReason

/-- The answer that leaves the mutation alone. -/
def GuardInput.answer (i : GuardInput) (reason : Option RejectReason) :
    Mutation × Option RejectReason := (i.m, reason)

/-- `unguarded`. -/
def unguarded : GuardRule := fun _ i => i.answer none

/-- `allOf`: the rules in order, up to the first refusal. -/
def allOf (rules : List GuardRule) : GuardRule := fun db i =>
  match rules with
  | [] => i.answer none
  | rule :: rules =>
    match rule db i with
    | (m, some reason) => (m, some reason)
    | (m, none) => allOf rules db { i with m }

/-- `SELECT trip_id FROM t WHERE id = ?`. -/
def Db.tripOf (db : Db) (t : Table) (id : String) : Option Value :=
  (db.rows.lookup ⟨t, id⟩).map (·.fields columnTripID)

/-! ## References inside a trip -/

/-- A reference to a row of the table: one to a row that is gone is dropped, one to a row of another
trip is refused. -/
def ownOrDropped (column : String) (t : Table) : GuardRule := fun db i =>
  match i.m.string column with
  | none | some "" => i.answer none
  | some id =>
    match db.tripOf t id with
    | none => (i.m.drop column, none)
    | some trip => i.answer (if trip = .str i.tripID then none else some .constraintViolated)

/-- `noteExcursion`. -/
def noteExcursion : GuardRule := ownOrDropped "excursion_id" .excursions

/-- `validIdeaResult`. -/
def validIdeaResult : GuardRule := ownOrDropped "idea_id" .ideas

/-- `validEntryStep`. -/
def validEntryStep : GuardRule := ownOrDropped "day_entry_id" .dayEntries

/-- A reference to a row of the table that must be the trip's own. A mutation that does not name one
is judged by the row it changes. -/
def ownOrRefused (column : String) (t : Table) : GuardRule := fun db i =>
  match i.m.string column with
  | none => i.answer none
  | some id => i.answer (if db.tripOf t id = some (.str i.tripID) then none else some .constraintViolated)

/-- `validIdeaLink`. -/
def validIdeaLink : GuardRule := ownOrRefused "idea_id" .ideas

/-- `validIngredientMeal`. -/
def validIngredientMeal : GuardRule := ownOrRefused "meal_id" .meals

/-- `validDayEntryTraveler`. -/
def validDayEntryTraveler : GuardRule :=
  allOf [ownOrRefused "day_entry_id" .dayEntries, ownOrRefused "traveler_id" .travelers]

/-- `validTravelerLink`: a linked account is a member of the trip. -/
def validTravelerLink : GuardRule := fun db i =>
  let linked :=
    match i.m.fields.lookup "linked_user_id" with
    | some v => v.asString
    | none => (i.row.fields "linked_user_id").asString
  match linked with
  | none | some "" => i.answer none
  | some user =>
    let members := db.select .tripMembers fun r =>
      r.fields columnTripID = .str i.tripID && r.fields "user_id" = .str user
    i.answer (if members.isEmpty then some .notATripMember else none)

/-! ## Notes and votes -/

/-- `IsNote`: no packing row, and not a task. -/
def isNote (fields : String → Value) : Bool :=
  ((fields "trip_item_id").asString.getD "" = "") && !isTruthy (fields "is_task")

/-- `noteWords`: the fields only a note's author may send. -/
def noteWords : List String := ["body", "title", "edited_at", "excursion_id"]

/-- `touchesAny`. -/
def touchesAny (m : Mutation) (names : List String) : Bool :=
  names.any fun name => (m.fields.lookup name).isSome

/-- `firstNoteOf`: the row that a reply names is a first note of the trip. -/
def firstNoteOf (db : Db) (tripID id : String) : Option RejectReason :=
  match db.rows.lookup ⟨.comments, id⟩ with
  | none => some .constraintViolated
  | some parent =>
    if parent.fields columnTripID ≠ .str tripID ∨ parent.fields "trip_item_id" ≠ .null ∨
      parent.fields "is_task" ≠ .int 0 ∨ parent.fields "parent_id" ≠ .null then
      some .constraintViolated
    else none

/-- `validNoteThread`. -/
def validNoteThread : GuardRule := fun db i =>
  if i.m.op = .delete then i.answer none
  else if i.row.present then
    -- a reply stays in its thread, whatever a later mutation says
    let m := i.m.drop "parent_id"
    let isReply := (i.row.fields "parent_id").asString.getD "" ≠ ""
    let m := if isReply then (m.drop "title").drop "excursion_id" else m
    if isReply ∧ isTruthy (m.get "is_task") then (m, some .constraintViolated)
    else
      let note := isNote i.row.fields
      let m := if note then m else m.drop "excursion_id"
      if note ∧ touchesAny m noteWords ∧ (i.row.fields "author_id").asString.getD "" ≠ i.actorID then
        (m, some .notAuthorized)
      else noteExcursion db { i with m }
  else
    match (i.m.string "parent_id").getD "" with
    | "" =>
      let m := if isNote i.m.get then i.m else i.m.drop "excursion_id"
      noteExcursion db { i with m }
    | parent =>
      let m := (i.m.drop "title").drop "excursion_id"
      if !isNote m.get then (m, some .constraintViolated) else (m, firstNoteOf db i.tripID parent)

/-- `validIdeaVote`: only its voter may change a vote. -/
def validIdeaVote : GuardRule := fun _ i =>
  i.answer (if i.row.present ∧ (i.row.fields "user_id").asString.getD "" ≠ i.actorID then
    some .notAuthorized else none)

/-- `validIdeaComment`: only its author may change the words of an entry. -/
def validIdeaComment : GuardRule := fun _ i =>
  i.answer (if i.row.present ∧ i.m.op ≠ .delete ∧ touchesAny i.m ["body", "edited_at"] ∧
    (i.row.fields "author_id").asString.getD "" ≠ i.actorID then some .notAuthorized else none)

/-- The rows of an upload: a push may delete one or change the named fields of one that is there. -/
def settingsOnly (settings : List String) : GuardRule := fun _ i =>
  i.answer (if i.m.op = .delete then none
    else if !i.row.present then some .notAuthorized
    else if i.m.fields.keys.all (· ∈ settings) then none else some .notAuthorized)

/-- `validIdeaImage`. -/
def validIdeaImage : GuardRule := settingsOnly ["position"]

/-- `trackSettings`. -/
def trackSettings : List String := ["name", "kind", "with_kid", "pause_min", "position"]

/-- `validTrack`. -/
def validTrack : GuardRule := settingsOnly trackSettings

/-! ## The master partition -/

/-- `authorized`. -/
def authorized (ok : Bool) : Option RejectReason := if ok then none else some .notAuthorized

/-- `parentIDs`: the parent the row names, and the one the mutation names. -/
def parentIDs (i : GuardInput) (field : String) : List String :=
  (i.row.fields field).asString.toList ++ (i.m.string field).toList

/-- `owned`: the rows of all the ids are the actor's; an empty list and a missing row deny. -/
def owned (i : GuardInput) (owner : String → Option Value) (ids : List String) : Option RejectReason :=
  authorized (!ids.isEmpty && ids.all fun id => owner id = some (.str i.actorID))

/-- `SELECT owner_id FROM trip_series WHERE id = ?`. -/
def Db.seriesOwnerOf (db : Db) (id : String) : Option Value :=
  (db.rows.lookup ⟨.tripSeries, id⟩).map (·.fields "owner_id")

/-- The owner of the series of a destination profile. -/
def Db.profileOwnerOf (db : Db) (id : String) : Option Value := do
  let profile ← db.rows.lookup ⟨.destinationProfiles, id⟩
  db.seriesOwnerOf (← (profile.fields "series_id").asString)

/-- `seriesOwner`. -/
def seriesOwner : GuardRule := fun _ i =>
  i.answer (if i.row.present then authorized (i.row.fields "owner_id" = .str i.actorID) else none)

/-- `profileSeriesOwner`. -/
def profileSeriesOwner : GuardRule := fun db i =>
  i.answer (owned i db.seriesOwnerOf (parentIDs i "series_id"))

/-- `checklistSeriesOwner`. -/
def checklistSeriesOwner : GuardRule := fun db i =>
  i.answer (owned i db.profileOwnerOf (parentIDs i "profile_id"))

/-- `memberRole`: the role of the user on the trip, or `""`. -/
def Db.memberRole (db : Db) (tripID userID : String) : String :=
  match db.rows.entries.find? fun e => e.1.table = .tripMembers &&
    e.2.fields columnTripID = .str tripID && e.2.fields "user_id" = .str userID with
  | some e => (e.2.fields "role").asString.getD ""
  | none => ""

/-- `tripMembership`: any member edits a trip, its owner and its admins delete it. -/
def tripMembership : GuardRule := fun db i =>
  let role := db.memberRole i.m.id i.actorID
  i.answer (if !i.row.present then none
    else if role = "" then some .notAuthorized
    else if i.m.op = .delete then authorized (role = "owner" || role = "admin")
    else none)

/-- `tripEditor`. -/
def tripEditor : GuardRule := fun db i =>
  let trips := parentIDs i columnTripID
  i.answer (authorized (!trips.isEmpty && trips.all fun trip => db.memberRole trip i.actorID ≠ ""))

/-- `memberAdministration`: nobody is made an owner, the owner's row is kept, and only the owner and
the admins manage the others. -/
def memberAdministration : GuardRule := fun db i =>
  let trips := parentIDs i columnTripID
  i.answer (if i.m.string "role" = some "owner" then some .notAuthorized
    else if i.row.present ∧ i.row.fields "role" = .str "owner" then some .notAuthorized
    else authorized (!trips.isEmpty && trips.all fun trip =>
      db.memberRole trip i.actorID ∈ ["owner", "admin"]))

/-- `SELECT kind FROM templates WHERE id = ?`. -/
def Db.templateKind (db : Db) (id : String) : Option Value :=
  (db.rows.lookup ⟨.templates, id⟩).map (·.fields "kind")

/-- `validInclude`: a template includes groups, as both ends will read after the mutation. -/
def validInclude : GuardRule := fun db i =>
  let field name := ((i.m.string name).or (i.row.fields name).asString).getD ""
  let parent := field "template_id"
  let child := field "included_template_id"
  i.answer (if i.m.op = .delete then none
    else if parent = "" ∨ child = "" then some .templateScope
    else if db.templateKind parent = some (.str "template") ∧
      db.templateKind child = some (.str "group") then none
    else some .templateScope)

/-- `validKindSwitch`: a template that includes groups stays one, and so does an included group. -/
def validKindSwitch : GuardRule := fun db i =>
  match i.m.string "kind" with
  | none => i.answer none
  | some kind =>
    let column := if kind = "group" then "template_id" else "included_template_id"
    let edges := db.select .templateIncludes fun r => r.fields column = .str i.m.id
    i.answer (if !i.row.present ∨ i.m.op = .delete ∨ .str kind = i.row.fields "kind" then none
      else if edges.isEmpty then none else some .templateScope)

/-! ## Scopes -/

/-- `guardFor`: the guard that the table declares. -/
def guardFor : Table → GuardRule
  | .travelers => validTravelerLink
  | .comments => allOf [validNoteThread, validIdeaResult, validEntryStep]
  | .shoppingEntries | .excursions => validIdeaResult
  | .dayEntries | .meals => noteExcursion
  | .ideaTracks | .excursionTracks => validTrack
  | .ideaVotes => validIdeaVote
  | .ideaComments => validIdeaComment
  | .ideaImages => validIdeaImage
  | .ideaLinks => validIdeaLink
  | .dayEntryTravelers => validDayEntryTraveler
  | .mealIngredients => validIngredientMeal
  | .templates => validKindSwitch
  | .templateIncludes => validInclude
  | .tripSeries => seriesOwner
  | .destinationProfiles => profileSeriesOwner
  | .destinationChecklistItems | .destinationTasks => checklistSeriesOwner
  | .trips => tripMembership
  | .tripMembers => memberAdministration
  | .tripTemplateSources | .tripAppliedChanges => tripEditor
  | .tags | .taskTags | .itemTags | .items | .itemDependencies | .templateItems
  | .templateItemTasks | .templateTasks | .tripItems | .containers | .noteAcks
  | .excursionTravelers | .excursionItems | .ideas | .tripGeneratedPositions => unguarded

/-- `belongsToTrip`: the row that is there names this trip, and so does the mutation if it names
one; a row nobody has seen yet has to name its trip. -/
def belongsToTrip (tripID : String) (m : Mutation) (row : Row) : Bool :=
  (!row.present || row.fields columnTripID = .str tripID) &&
  (match m.string columnTripID with
    | some named => named = tripID
    | none => row.present || m.op = .delete)

/-- `itemInUse`: something blocks the item's delete, or another item brings it as a companion. -/
def Db.itemInUse (db : Db) (id : String) : Bool :=
  (Table.blockedBy .items).any (fun ref =>
    !(db.select ref.1 fun row => row.fields ref.2 = .str id).isEmpty) ||
  !(db.select .itemDependencies fun row =>
    row.fields "item_id" = .str id && row.fields "depends_on_item_id" ≠ .str id).isEmpty

end JitPack
