import JitPack.Sync.Merge

/-!
# The tables

The synced tables of `schema.sql`: their columns with what the database enforces on them, and how
SQLite stores a bound value in a column. Of each table the columns that a push may name are listed
(`syncableColumns` names exactly these); `id`, `updated_hlc` and `field_hlcs` are part of every row.
`templates.is_published` and the generated `trips.duration_days` are left out, since no statement of
the store reads them, and so are the tables that hold bytes, sessions and subscriptions.
-/

namespace JitPack

/-! ## SQLite -/

/-- What the database engine decides about texts: how it writes a real number, which texts it reads
as a number, which texts are JSON, and which integer `x + 1` is for an `x` that is none. -/
structure Sqlite where
  realText : ℚ → String
  numericText : String → Option Value
  jsonValid : String → Bool
  plusOne : Value → Option Int
  /-- The text of a number starts with a digit or with a minus sign. -/
  realText_start : ∀ x, ∃ c cs, (realText x).toList = c :: cs ∧ (c.isDigit ∨ c = '-')

inductive Affinity where
  | text
  | integer
  deriving DecidableEq

/-- The driver has no way to bind an array or an object. -/
def Value.bindable : Value → Bool
  | .composite _ => false
  | _ => true

/-- The value a column of the affinity holds after `v` was bound to it. The driver binds a boolean
as a number. An integer column keeps a real number without a fractional part as an integer. -/
def Sqlite.store (db : Sqlite) : Affinity → Value → Value
  | _, .null | _, .composite _ => .null
  | .text, .bool b => .str (if b then "1" else "0")
  | .text, .int n => .str (toString n)
  | .text, .float x => .str (db.realText x)
  | .text, .str s => .str s
  | .integer, .bool b => .int (if b then 1 else 0)
  | .integer, .int n => .int n
  | .integer, .float x => if x.den = 1 ∧ |x| < 2 ^ 63 then .int x.num else .float x
  | .integer, .str s => (db.numericText s).getD (.str s)

/-- `length` of a text counts the characters before the first NUL. -/
def sqlLength (s : String) : Nat := (s.toList.takeWhile (· ≠ '\x00')).length

/-- `a <= b`: numbers by size, and every number below every text. A comparison with NULL is NULL,
which violates no constraint. -/
def sqlLe : Value → Value → Bool
  | .int m, .int n => m ≤ n
  | .int m, .float y => m ≤ y
  | .float x, .int n => x ≤ n
  | .float x, .float y => x ≤ y
  | .str _, .int _ | .str _, .float _ => false
  | .str s, .str t => s ≤ t
  | _, _ => true

/-! ## Columns -/

/-- The tables that a push may name. -/
inductive Table where
  | taskTags | tags | itemTags | items | itemDependencies | templates | templateItems
  | templateIncludes | templateItemTasks | templateTasks | tripSeries | destinationProfiles
  | destinationChecklistItems | destinationTasks | trips | tripMembers | tripTemplateSources
  | tripAppliedChanges | tripItems | travelers | containers | comments | noteAcks
  | shoppingEntries | excursions | excursionTravelers | excursionItems | excursionTracks | ideas
  | ideaVotes | ideaComments | ideaImages | ideaLinks | dayEntries | dayEntryTravelers | meals
  | mealIngredients | ideaTracks | tripGeneratedPositions
  deriving DecidableEq

/-- The name of a table in SQL and in a mutation. -/
def Table.name : Table → String
  | .taskTags => "task_tags"
  | .tags => "tags"
  | .itemTags => "item_tags"
  | .items => "items"
  | .itemDependencies => "item_dependencies"
  | .templates => "templates"
  | .templateItems => "template_items"
  | .templateIncludes => "template_includes"
  | .templateItemTasks => "template_item_tasks"
  | .templateTasks => "template_tasks"
  | .tripSeries => "trip_series"
  | .destinationProfiles => "destination_profiles"
  | .destinationChecklistItems => "destination_checklist_items"
  | .destinationTasks => "destination_tasks"
  | .trips => "trips"
  | .tripMembers => "trip_members"
  | .tripTemplateSources => "trip_template_sources"
  | .tripAppliedChanges => "trip_applied_changes"
  | .tripItems => "trip_items"
  | .travelers => "travelers"
  | .containers => "containers"
  | .comments => "comments"
  | .noteAcks => "note_acks"
  | .shoppingEntries => "shopping_entries"
  | .excursions => "excursions"
  | .excursionTravelers => "excursion_travelers"
  | .excursionItems => "excursion_items"
  | .excursionTracks => "excursion_tracks"
  | .ideas => "ideas"
  | .ideaVotes => "idea_votes"
  | .ideaComments => "idea_comments"
  | .ideaImages => "idea_images"
  | .ideaLinks => "idea_links"
  | .dayEntries => "day_entries"
  | .dayEntryTravelers => "day_entry_travelers"
  | .meals => "meals"
  | .mealIngredients => "meal_ingredients"
  | .ideaTracks => "idea_tracks"
  | .tripGeneratedPositions => "trip_generated_positions"

def Table.all : List Table := [
  .taskTags, .tags, .itemTags, .items, .itemDependencies, .templates, .templateItems,
  .templateIncludes, .templateItemTasks, .templateTasks, .tripSeries, .destinationProfiles,
  .destinationChecklistItems, .destinationTasks, .trips, .tripMembers, .tripTemplateSources,
  .tripAppliedChanges, .tripItems, .travelers, .containers, .comments, .noteAcks,
  .shoppingEntries, .excursions, .excursionTravelers, .excursionItems, .excursionTracks,
  .ideas, .ideaVotes, .ideaComments, .ideaImages, .ideaLinks, .dayEntries, .dayEntryTravelers,
  .meals, .mealIngredients, .ideaTracks, .tripGeneratedPositions]

theorem Table.mem_all (t : Table) : t ∈ Table.all := by cases t <;> decide

instance instFintypeTable : Fintype Table := ⟨Table.all.toFinset, fun t => List.mem_toFinset.2 t.mem_all⟩

/-- The table of the name. -/
def Table.ofName (name : String) : Option Table := Table.all.find? fun t => t.name = name

/-- What a column of a new row holds when the insert does not name it. `now` is the time of the
statement. -/
inductive Default where
  | null
  | value (v : Value)
  | now
  deriving DecidableEq

inductive OnDelete where
  | noAction
  | cascade
  | setNull
  deriving DecidableEq

/-- What a foreign key points at: an account, or a row of a synced table. -/
inductive Parent where
  | users
  | table (t : Table)
  deriving DecidableEq

structure Reference where
  parent : Parent
  onDelete : OnDelete
  deriving DecidableEq

structure Column where
  name : String
  affinity : Affinity
  notNull : Bool
  default : Default
  references : Option Reference
  deriving DecidableEq

namespace Column

def required (c : Column) : Column := { c with notNull := true }
def or (c : Column) (v : Value) : Column := { c with default := .value v }
def defaultNow (c : Column) : Column := { c with default := .now }
def refs (c : Column) (t : Table) (onDelete : OnDelete) : Column :=
  { c with references := some ⟨.table t, onDelete⟩ }
def toUsers (c : Column) : Column := { c with references := some ⟨.users, .noAction⟩ }

end Column

def text (name : String) : Column := ⟨name, .text, false, .null, none⟩
def integer (name : String) : Column := ⟨name, .integer, false, .null, none⟩

def columnTripID : String := "trip_id"

/-- The column of the trip partition's tables that ties a row to its trip. -/
def tripID : Column := (text columnTripID).required.refs .trips .cascade

/-- `CREATE TABLE` of each table, without its table constraints. -/
def Table.columns : Table → List Column
  | .taskTags => [
      (text "name").required, (integer "sort_order").required.or (.int 0), text "icon"]
  | .tags => [
      (text "name").required, (integer "sort_order").required.or (.int 0), text "icon"]
  | .itemTags => [
      (text "item_id").required.refs .items .cascade, (text "tag_id").required.refs .tags .cascade,
      (integer "position").required.or (.int 0)]
  | .items => [
      (text "name").required, integer "weight_grams", integer "value_cents",
      (text "created_by").toUsers, text "image_hash", text "icon", text "retired_at",
      (text "default_assignee_id").toUsers, (text "merged_into_id").refs .items .setNull]
  | .itemDependencies => [
      (text "item_id").required.refs .items .cascade,
      (text "depends_on_item_id").required.refs .items .cascade,
      (text "mode").required.or (.str "required"), integer "quantity"]
  | .templates => [
      (text "owner_id").required.toUsers, (text "name").required,
      (text "kind").required.or (.str "template"), text "icon", text "retired_at"]
  | .templateItems => [
      (text "template_id").required.refs .templates .cascade,
      (text "item_id").required.refs .items .noAction,
      (integer "quantity").required.or (.int 1),
      (text "assignment").required.or (.str "per_person"),
      (text "dedup").required.or (.str "max"), text "conditions",
      (text "default_mode").required.or (.str "pack"),
      (integer "late_packer").required.or (.int 0)]
  | .templateIncludes => [
      (text "template_id").required.refs .templates .cascade,
      (text "included_template_id").required.refs .templates .cascade]
  | .templateItemTasks => [
      (text "template_item_id").required.refs .templateItems .cascade, (text "task").required]
  | .templateTasks => [
      (text "template_id").required.refs .templates .cascade, (text "task").required, text "phase"]
  | .tripSeries => [
      (text "owner_id").required.toUsers, (text "name").required, text "default_attributes"]
  | .destinationProfiles => [
      (text "series_id").required.refs .tripSeries .cascade, text "notes"]
  | .destinationChecklistItems => [
      (text "profile_id").required.refs .destinationProfiles .cascade, (text "label").required,
      (text "mode").required.or (.str "buy_local")]
  | .destinationTasks => [
      (text "profile_id").required.refs .destinationProfiles .cascade, (text "task").required,
      integer "lead_days", (text "assignee_user_id").toUsers]
  | .trips => [
      (text "series_id").refs .tripSeries .noAction, (text "name").required,
      (integer "year").required, text "start_date", text "end_date",
      (text "status").required.or (.str "planning"), text "attributes",
      text "packing_closed_at", (integer "imported").required.or (.int 0),
      (text "created_by").toUsers]
  | .tripMembers => [
      (text "trip_id").required.refs .trips .cascade, (text "user_id").required.toUsers,
      (text "role").required.or (.str "editor")]
  | .tripTemplateSources => [
      (text "trip_id").required.refs .trips .cascade,
      (text "template_id").required.refs .templates .cascade]
  | .tripAppliedChanges => [
      (text "trip_id").required.refs .trips .cascade, (text "source_template_id").required,
      (text "source_template_name").required, (text "kind").required,
      (text "item_name").required, text "detail", (text "created_at").required.defaultNow]
  | .tripItems => [
      tripID, (text "source_item_id").refs .items .noAction,
      (text "source_template_id").refs .templates .noAction, (text "name").required,
      integer "weight_grams", integer "value_cents", text "category_name",
      (integer "quantity").required.or (.int 1),
      (integer "packed_count").required.or (.int 0),
      (text "state").required.or (.str "open"),
      (text "mode").required.or (.str "pack"), text "bought_from", text "bought_at",
      (text "bought_by_user_id").toUsers, (integer "late_packer").required.or (.int 0),
      (text "assigned_traveler_id").refs .travelers .noAction, (text "packer_user_id").toUsers,
      (text "packed_by_user_id").toUsers, text "packed_at",
      (text "container_id").refs .containers .noAction, (text "packing_now_by").toUsers,
      text "packing_now_at", (integer "flag_unused").required.or (.int 0),
      (integer "flag_missing").required.or (.int 0), integer "outbound_packed",
      text "carried_over_at", integer "shopping_position", text "pack_note",
      integer "needed_quantity"]
  | .travelers => [
      tripID, (text "name").required, (text "linked_user_id").toUsers]
  | .containers => [
      tripID, (text "name").required, (text "carrier_traveler_id").refs .travelers .noAction,
      integer "max_weight_grams", (text "paired_container_id").refs .containers .noAction]
  | .comments => [
      tripID, (text "trip_item_id").refs .tripItems .cascade, (text "author_id").required.toUsers,
      (text "body").required, (integer "is_task").required.or (.int 0), text "task_state",
      (text "assignee_user_id").toUsers, (text "task_tag_id").refs .taskTags .setNull,
      text "phase", text "due_date", text "due_time", text "resolved_at",
      (text "resolved_by_user_id").toUsers, (text "parent_id").refs .comments .cascade,
      text "title", text "edited_at", (text "excursion_id").refs .excursions .setNull,
      integer "position", (text "idea_id").refs .ideas .setNull, text "anchor_kind",
      integer "anchor_lead_days", (text "day_entry_id").refs .dayEntries .setNull,
      (text "destination_task_id").refs .destinationTasks .setNull,
      (text "created_at").required.defaultNow]
  | .noteAcks => [
      tripID, (text "comment_id").required.refs .comments .cascade,
      (text "user_id").required.toUsers, (integer "acked").required.or (.int 1),
      text "seen_through"]
  | .shoppingEntries => [
      tripID, (text "name").required, (text "list").required.or (.str "buy_local"),
      (integer "bought").required.or (.int 0), text "tag", text "bought_at",
      (text "bought_by_user_id").toUsers, text "due_date", (text "assignee_user_id").toUsers,
      text "carried_over_at", integer "position", (text "idea_id").refs .ideas .setNull]
  | .excursions => [
      tripID, (text "name").required, text "starts_on", text "ends_on",
      text "source_template_id", (text "idea_id").refs .ideas .setNull]
  | .excursionTravelers => [
      tripID, (text "excursion_id").required.refs .excursions .cascade,
      (text "traveler_id").required.refs .travelers .cascade]
  | .excursionItems => [
      tripID, (text "excursion_id").required.refs .excursions .cascade,
      (text "trip_item_id").refs .tripItems .setNull, (text "source_item_id").refs .items .noAction,
      (text "name").required, text "category_name",
      (text "assigned_traveler_id").refs .travelers .cascade,
      (integer "quantity").required.or (.int 1),
      (integer "packed_count").required.or (.int 0),
      (text "state").required.or (.str "open"),
      (text "mode").required.or (.str "pack"), text "bought_at",
      (integer "not_in_luggage").required.or (.int 0),
      (integer "for_all_participants").required.or (.int 0), integer "shopping_position"]
  | .excursionTracks => [
      tripID, (text "excursion_id").required.refs .excursions .cascade, (text "name").required,
      (text "file_name").required, (text "kind").required.or (.str "hike"),
      (integer "with_kid").required.or (.int 0),
      (integer "pause_min").required.or (.int 0),
      (integer "position").required.or (.int 0), (text "gpx_hash").required,
      (integer "distance_m").required, integer "ascent_m", integer "descent_m",
      integer "max_ele_m", (integer "point_count").required, (text "line").required]
  | .ideas => [
      tripID, (text "author_id").required.toUsers, (text "title").required, text "note",
      text "link", text "tag", (integer "rain_proof").required.or (.int 0),
      (text "state").required.or (.str "idea"), (text "created_at").required.defaultNow,
      text "planned_on", text "planned_at", text "link_label"]
  | .ideaVotes => [
      tripID, (text "idea_id").required.refs .ideas .cascade, (text "user_id").required.toUsers,
      text "vote"]
  | .ideaComments => [
      tripID, (text "idea_id").required.refs .ideas .cascade, (text "author_id").required.toUsers,
      (text "body").required, text "edited_at", (text "created_at").required.defaultNow]
  | .ideaImages => [
      tripID, (text "idea_id").required.refs .ideas .cascade, (text "image_hash").required,
      (integer "position").required.or (.int 0)]
  | .ideaLinks => [
      tripID, (text "idea_id").required.refs .ideas .cascade, (text "url").required, text "label",
      (integer "position").required.or (.int 1)]
  | .dayEntries => [
      tripID, (text "author_id").required.toUsers, (text "kind").required.or (.str "note"),
      (text "on_date").required, text "at_time", (text "title").required, text "note",
      text "link", text "legs", (text "excursion_id").refs .excursions .setNull,
      text "excursion_role"]
  | .dayEntryTravelers => [
      tripID, (text "day_entry_id").required.refs .dayEntries .cascade,
      (text "traveler_id").required.refs .travelers .cascade]
  | .meals => [
      tripID, (text "on_date").required, (text "slot").required.or (.str "dinner"),
      (text "title").required, (text "kind").required.or (.str "cook"), text "at_time",
      text "note", text "place", (text "cook_user_id").toUsers,
      (text "excursion_id").refs .excursions .setNull, text "excursion_packed_at"]
  | .mealIngredients => [
      tripID, (text "meal_id").required.refs .meals .cascade, (text "name").required,
      text "amount", (text "list").required.or (.str "buy_local"), integer "position",
      (integer "bought").required.or (.int 0), text "bought_at",
      (text "bought_by_user_id").toUsers, integer "shopping_position", integer "fresh"]
  | .ideaTracks => [
      tripID, (text "idea_id").required.refs .ideas .cascade, (text "name").required,
      (text "file_name").required, (text "kind").required.or (.str "hike"),
      (integer "with_kid").required.or (.int 0),
      (integer "pause_min").required.or (.int 0),
      (integer "position").required.or (.int 0), (text "gpx_hash").required,
      (integer "distance_m").required, integer "ascent_m", integer "descent_m",
      integer "max_ele_m", (integer "point_count").required, (text "line").required]
  | .tripGeneratedPositions => [
      tripID, (text "trip_item_id").required, (text "source_template_id").required,
      (text "source_item_id").required, (text "traveler_id").required.or (.str ""),
      (text "name").required, (integer "quantity").required, (text "mode").required,
      (integer "late_packer").required.or (.int 0), integer "weight_grams",
      integer "value_cents", text "category_name", (text "tasks").required.or (.str "[]")]

/-- `columnList`. -/
def Table.columnList (t : Table) : List String := t.columns.map (·.name)

def Table.column (t : Table) (name : String) : Option Column := t.columns.find? (·.name = name)

/-! ## Table constraints -/

/-- A CHECK on the values of one row. It is violated by FALSE only, so NULL passes. -/
abbrev Check := Sqlite → (String → Value) → Bool

namespace Check

/-- `c IN (…)` over texts. -/
def oneOf (c : String) (words : List String) : Check := fun _ row =>
  match row c with
  | .null => true
  | .str s => s ∈ words
  | _ => false

/-- `c IN (0, 1)`. -/
def flag (c : String) : Check := fun _ row => row c ∈ [.null, .int 0, .int 1]

/-- `c >= n`. -/
def atLeast (n : Int) (c : String) : Check := fun _ row => sqlLe (.int n) (row c)

/-- `c > n`. -/
def above (n : Int) (c : String) : Check := fun _ row => row c = .null || !sqlLe (row c) (.int n)

/-- `c BETWEEN lo AND hi`. -/
def between (lo hi : Int) (c : String) : Check := fun _ row =>
  sqlLe (.int lo) (row c) && sqlLe (row c) (.int hi)

/-- `a <= b`. -/
def atMost (a b : String) : Check := fun _ row => sqlLe (row a) (row b)

/-- `length(c) BETWEEN lo AND hi`. -/
def lengthBetween (lo hi : Nat) (c : String) : Check := fun _ row =>
  match row c with
  | .str s => lo ≤ sqlLength s && sqlLength s ≤ hi
  | _ => true

/-- `c LIKE 'http://%' OR c LIKE 'https://%'`: LIKE folds the case of ASCII letters. -/
def webLink (c : String) : Check := fun _ row =>
  match row c with
  | .str s => ["http://", "https://"].any fun p =>
      (s.toList.map Char.toLower).take p.length = p.toList
  | _ => true

/-- `json_valid(c)`. -/
def json (c : String) : Check := fun db row =>
  match row c with
  | .str s => db.jsonValid s
  | _ => true

/-- `a <> b`. -/
def distinct (a b : String) : Check := fun _ row => row a = .null || row b = .null || row a ≠ row b

end Check

open Check in
/-- The CHECK constraints of each table. -/
def Table.checks : Table → List Check
  | .taskTags | .tags => [lengthBetween 0 32 "icon"]
  | .items => [atLeast 0 "weight_grams", atLeast 0 "value_cents", lengthBetween 0 32 "icon"]
  | .itemDependencies => [
      oneOf "mode" ["required", "suggested"], atLeast 0 "quantity",
      distinct "item_id" "depends_on_item_id"]
  | .templates => [oneOf "kind" ["group", "template"], lengthBetween 0 32 "icon"]
  | .templateItems => [
      atLeast 0 "quantity", oneOf "assignment" ["per_person", "trip_global"],
      oneOf "dedup" ["max", "sum"], json "conditions",
      oneOf "default_mode" ["pack", "buy_before", "buy_local"], flag "late_packer"]
  | .templateIncludes => [distinct "template_id" "included_template_id"]
  | .tripSeries => [json "default_attributes"]
  | .destinationChecklistItems => [oneOf "mode" ["pack", "buy_before", "buy_local"]]
  | .trips => [
      between 1900 2200 "year", oneOf "status" ["planning", "active", "repack", "archived"],
      json "attributes", flag "imported", atMost "start_date" "end_date"]
  | .tripMembers => [oneOf "role" ["owner", "admin", "editor"]]
  | .tripAppliedChanges => [oneOf "kind" ["added", "removed", "changed"], json "detail"]
  | .containers => [above 0 "max_weight_grams"]
  | .tripItems => [
      atLeast 0 "quantity", atLeast 0 "packed_count", atMost "packed_count" "quantity",
      oneOf "state" ["open", "packing_now", "partial", "packed", "skipped"],
      oneOf "mode" ["pack", "buy_before", "buy_local"],
      oneOf "bought_from" ["pack", "buy_before", "buy_local"],
      flag "late_packer", flag "flag_unused", flag "flag_missing", flag "outbound_packed",
      lengthBetween 1 60 "pack_note", atLeast 1 "needed_quantity"]
  | .comments => [
      flag "is_task", oneOf "task_state" ["open", "resolved"],
      fun _ row => row "is_task" = .int 0 || row "task_state" ≠ .null]
  | .noteAcks => [flag "acked"]
  | .tripGeneratedPositions => [flag "late_packer", json "tasks"]
  | .shoppingEntries => [
      oneOf "list" ["buy_before", "buy_local"], flag "bought", lengthBetween 1 40 "tag"]
  | .excursionItems => [
      atLeast 0 "quantity", atLeast 0 "packed_count", atMost "packed_count" "quantity",
      oneOf "state" ["open", "partial", "packed", "skipped"], oneOf "mode" ["pack", "buy_local"],
      flag "not_in_luggage", flag "for_all_participants"]
  | .ideas => [
      webLink "link", oneOf "tag" ["hiking", "swimming", "culture", "food", "outing"],
      flag "rain_proof", oneOf "state" ["idea", "shortlisted", "done", "dropped"]]
  | .ideaVotes => [oneOf "vote" ["up", "down"]]
  | .ideaLinks => [webLink "url"]
  | .dayEntries => [
      oneOf "kind" ["note", "connection"], webLink "link", json "legs",
      oneOf "excursion_role" ["out", "back"]]
  | .ideaImages => [atLeast 0 "position"]
  | .ideaTracks | .excursionTracks => [
      lengthBetween 1 200 "name", lengthBetween 1 255 "file_name", oneOf "kind" ["hike", "bike"],
      flag "with_kid", between 0 480 "pause_min", atLeast 0 "position", atLeast 0 "distance_m",
      atLeast 0 "ascent_m", atLeast 0 "descent_m", atLeast 2 "point_count",
      lengthBetween 1 16000 "line"]
  | .meals => [
      oneOf "slot" ["breakfast", "lunch", "snack", "dinner"], oneOf "kind" ["cook", "out"]]
  | .mealIngredients => [oneOf "list" ["buy_before", "buy_local"], flag "bought", flag "fresh"]
  | _ => []

/-- A unique index: over the rows for which `only` holds, no two agree on the columns. -/
structure Unique where
  columns : List String
  only : (String → Value) → Bool := fun _ => true

/-- The UNIQUE constraints and unique indexes of each table. -/
def Table.uniques : Table → List Unique
  | .taskTags | .tags | .tripSeries => [{ columns := ["name"] }]
  | .itemTags => [{ columns := ["item_id", "tag_id"] }]
  | .itemDependencies => [{ columns := ["item_id", "depends_on_item_id"] }]
  | .items | .templates => [{ columns := ["name"], only := fun row => row "retired_at" = .null }]
  | .templateItems => [{ columns := ["template_id", "item_id"] }]
  | .templateIncludes => [{ columns := ["template_id", "included_template_id"] }]
  | .destinationProfiles => [{ columns := ["series_id"] }]
  | .tripMembers => [
      { columns := ["trip_id", "user_id"] },
      { columns := ["trip_id"], only := fun row => row "role" = .str "owner" }]
  | .tripTemplateSources => [{ columns := ["trip_id", "template_id"] }]
  | .noteAcks => [{ columns := ["comment_id", "user_id"] }]
  | .tripGeneratedPositions => [{ columns := ["trip_id", "source_item_id", "traveler_id"] }]
  | .ideaVotes => [{ columns := ["idea_id", "user_id"] }]
  | _ => []

end JitPack
