import JitPack.Lib.Machine
import JitPack.Client.PackState

/-!
# Rows and their codecs

A row travels as the columns of its table. The device reads it into a row of its own (`parse`), and a write to it is
painted over the row as it is held, written back into columns (`encode`), and read again. Each table has its own
reader, and most have their own writer; a table without one is copied. What the paint leaves of a column is decided
by the way the column is read and the way it is written (`Fits`), and these are checked table by table (`spec_fits`).

The rows of `comments` are read in three ways. Each reading drops the columns that only the others carry, so a row that
changes its reading keeps what both of them carry (`paint_keeps`), and no more (`title_lost`). A row that stays as it is
read has the written columns replaced and the others as they were (`paint_replaces`). Both hold along every run
(`valid_after`), which is `paint_spec`.
-/

namespace JitPack

namespace Codecs

open PackState (Number)

/-! ## Values -/

/-- An array or an object, by the text that it stands for. -/
structure Json where
  text : String
  deriving DecidableEq

/-- What a column or a field can hold. -/
inductive Value where
  | undefined
  | null
  | bool (b : Bool)
  | number (n : Number)
  | text (s : String)
  | json (value : Json)
  deriving DecidableEq

/-- `Number`, `JSON.parse`, `JSON.stringify` and `.map(String)`. A text that is not JSON is refused. -/
structure Script where
  toNumber : Value → Number
  toNumber_number : ∀ n, toNumber (.number n) = n
  parseJson : String → Option Value
  stringify : Value → String
  texts : Value → Value

/-- A row as it travels: a column that it does not have is undefined. -/
abbrev Row := String → Value

/-- A row as a store holds it, by its fields. They have the names of the columns. -/
abbrev Held := String → Value

/-- The columns of a mutation. -/
abbrev Fields := String → Option Value

/-- `== null`. -/
def Value.nullish : Value → Bool
  | .undefined | .null => true
  | _ => false

/-- `??`. -/
def Value.orElse (v d : Value) : Value := if v.nullish then d else v

/-- `Boolean`. -/
def Value.truthy : Value → Bool
  | .undefined | .null => false
  | .bool b => b
  | .number .nan => false
  | .number (.finite q) => q ≠ 0
  | .number _ => true
  | .text s => s ≠ ""
  | .json _ => true

/-! ## Columns -/

/-- How a parser reads a column. -/
inductive Reading where
  | plain
  | orElse (d : Value)
  | bool
  | number (d : Number)
  | nullableNumber
  | json
  | texts
  | trackKind
  deriving DecidableEq

/-- How an encoder writes a column. -/
inductive Writing where
  | plain
  | orNull
  | dbBool
  | jsonColumn
  | const (v : Value)
  deriving DecidableEq

section
variable (S : Script)

/-- `parseJsonColumn`. -/
def parseJsonColumn (raw fallback : Value) : Value :=
  match raw with
  | .text s => if s = "" then fallback else (S.parseJson s).getD fallback
  | _ => fallback

/-- `jsonColumn`. -/
def jsonColumn (v : Value) : Value := if v.truthy then .text (S.stringify v) else .null

/-- `dbBool`. -/
def dbBool (v : Value) : Value := .number (.finite (if v.truthy then 1 else 0))

def Reading.read : Reading → Value → Value
  | .plain, v => v
  | .orElse d, v => v.orElse d
  | .bool, v => .bool v.truthy
  | .number d, v => .number (S.toNumber (v.orElse (.number d)))
  | .nullableNumber, v => if v.nullish then .null else .number (S.toNumber v)
  | .json, v => parseJsonColumn S v .null
  | .texts, v => S.texts (parseJsonColumn S v (.json ⟨"[]"⟩))
  | .trackKind, .text "bike" => .text "bike"
  | .trackKind, _ => .text "hike"

def Writing.write : Writing → Value → Value
  | .plain, v => v
  | .orNull, v => v.orElse .null
  | .dbBool, v => Codecs.dbBool v
  | .jsonColumn, v => Codecs.jsonColumn S v
  | .const w, _ => w

end

abbrev Parser := List (String × Reading)

abbrev Encoder := List (String × Writing)

/-- `?? null`. -/
def nullable : Reading := .orElse .null

/-- A column with a text for a default. -/
def orText (d : String) : Reading := .orElse (.text d)

/-- A column with a number for a default. -/
def orNumber (d : ℚ) : Reading := .orElse (.number (.finite d))

/-! ## The parsers -/

def rowToTag : Parser := [("name", .plain), ("sort_order", orNumber 0), ("icon", nullable)]

def rowToTaskTag : Parser := [("name", .plain), ("sort_order", orNumber 0), ("icon", nullable)]

def rowToItemTag : Parser := [("item_id", .plain), ("tag_id", .plain), ("position", orNumber 0)]

def rowToItem : Parser :=
  [("name", .plain), ("weight_grams", nullable), ("value_cents", nullable), ("image_hash", nullable),
    ("icon", nullable), ("default_assignee_id", nullable), ("retired_at", nullable), ("merged_into_id", nullable)]

def rowToTemplate : Parser :=
  [("owner_id", .plain), ("name", .plain), ("kind", orText "template"), ("icon", nullable), ("retired_at", nullable)]

def rowToInclude : Parser := [("template_id", .plain), ("included_template_id", .plain)]

def rowToTask : Parser := [("template_item_id", .plain), ("task", .plain)]

def rowToTemplateTask : Parser := [("template_id", .plain), ("task", .plain), ("phase", nullable)]

def rowToSeries : Parser := [("owner_id", .plain), ("name", .plain), ("default_attributes", .json)]

def rowToProfile : Parser := [("series_id", .plain), ("notes", nullable)]

def rowToChecklistItem : Parser := [("profile_id", .plain), ("label", .plain), ("mode", orText "buy_local")]

def rowToDestinationTask : Parser :=
  [("profile_id", .plain), ("task", .plain), ("lead_days", nullable), ("assignee_user_id", nullable)]

def rowToDependency : Parser :=
  [("item_id", .plain), ("depends_on_item_id", .plain), ("mode", orText "required"), ("quantity", nullable)]

def rowToTemplateItem : Parser :=
  [("template_id", .plain), ("item_id", .plain), ("quantity", orNumber 1), ("assignment", orText "per_person"),
    ("dedup", orText "max"), ("conditions", .json), ("default_mode", orText "pack"), ("late_packer", .bool)]

def rowToTemplateSource : Parser := [("trip_id", .plain), ("template_id", .plain)]

def rowToGeneratedPosition : Parser :=
  [("trip_id", .plain), ("trip_item_id", .plain), ("source_template_id", .plain), ("source_item_id", .plain),
    ("traveler_id", orText ""), ("name", .plain), ("quantity", .number (.finite 0)), ("mode", .plain),
    ("late_packer", .bool), ("weight_grams", nullable), ("value_cents", nullable), ("category_name", nullable),
    ("tasks", .texts)]

def rowToAppliedChange : Parser :=
  [("trip_id", .plain), ("source_template_id", .plain), ("source_template_name", .plain), ("kind", .plain),
    ("item_name", .plain), ("detail", .json), ("created_at", orText "")]

/-- `rowToTrip`, less `duration_days`, which is no column: it is read off the two dates. -/
def rowToTrip (year : Number) : Parser :=
  [("name", .plain), ("status", .plain), ("year", .number year), ("start_date", nullable), ("end_date", nullable),
    ("series_id", nullable), ("attributes", .json), ("packing_closed_at", nullable), ("imported", .bool)]

def rowToTripItem : Parser :=
  [("trip_id", .plain), ("source_item_id", nullable), ("source_template_id", nullable), ("name", .plain),
    ("weight_grams", nullable), ("value_cents", nullable), ("category_name", nullable), ("quantity", orNumber 1),
    ("packed_count", orNumber 0), ("state", orText "open"), ("mode", orText "pack"), ("late_packer", .bool),
    ("assigned_traveler_id", nullable), ("packer_user_id", nullable), ("packed_by_user_id", nullable),
    ("packed_at", nullable), ("container_id", nullable), ("packing_now_by", nullable), ("packing_now_at", nullable),
    ("bought_from", nullable), ("bought_at", nullable), ("bought_by_user_id", nullable), ("flag_unused", .bool),
    ("flag_missing", .bool), ("carried_over_at", nullable), ("shopping_position", nullable), ("pack_note", nullable),
    ("needed_quantity", nullable), ("updated_hlc", orText "")]

def rowToTraveler : Parser := [("trip_id", .plain), ("name", .plain), ("linked_user_id", nullable)]

def rowToMember : Parser := [("trip_id", .plain), ("user_id", .plain), ("role", orText "editor")]

def rowToContainer : Parser :=
  [("trip_id", .plain), ("name", .plain), ("carrier_traveler_id", nullable), ("max_weight_grams", nullable),
    ("paired_container_id", nullable)]

def rowToTrackFields : Parser :=
  [("name", .plain), ("file_name", .plain), ("kind", .trackKind), ("with_kid", .bool),
    ("pause_min", .number (.finite 0)), ("position", .number (.finite 0)), ("gpx_hash", .plain),
    ("distance_m", .number (.finite 0)), ("ascent_m", .nullableNumber), ("descent_m", .nullableNumber),
    ("max_ele_m", .nullableNumber), ("point_count", .number (.finite 0)), ("line", orText "")]

def rowToExcursionTrack : Parser := rowToTrackFields ++ [("trip_id", .plain), ("excursion_id", .plain)]

def rowToComment : Parser :=
  [("trip_id", .plain), ("trip_item_id", nullable), ("author_id", .plain), ("body", .plain), ("created_at", nullable),
    ("parent_id", nullable), ("title", nullable), ("edited_at", nullable), ("excursion_id", nullable)]

def rowToNoteAck : Parser :=
  [("trip_id", .plain), ("comment_id", .plain), ("user_id", .plain), ("acked", .bool), ("seen_through", nullable)]

def rowToExcursion : Parser :=
  [("trip_id", .plain), ("name", .plain), ("starts_on", nullable), ("ends_on", nullable),
    ("source_template_id", nullable), ("idea_id", nullable)]

def rowToExcursionTraveler : Parser := [("trip_id", .plain), ("excursion_id", .plain), ("traveler_id", .plain)]

def rowToExcursionLine : Parser :=
  [("trip_id", .plain), ("excursion_id", .plain), ("trip_item_id", nullable), ("source_item_id", nullable),
    ("name", .plain), ("category_name", nullable), ("assigned_traveler_id", nullable),
    ("quantity", .number (.finite 1)), ("packed_count", .number (.finite 0)), ("state", orText "open"),
    ("mode", orText "pack"), ("bought_at", nullable), ("not_in_luggage", .bool), ("for_all_participants", .bool),
    ("shopping_position", nullable)]

def taskFacts : Parser :=
  [("task_tag_id", nullable), ("phase", nullable), ("due_date", nullable), ("due_time", nullable),
    ("created_at", nullable), ("assignee_user_id", nullable), ("resolved_at", nullable),
    ("resolved_by_user_id", nullable), ("position", nullable)]

def rowToPrepTask : Parser :=
  [("trip_id", .plain), ("trip_item_id", .plain), ("author_id", .plain), ("body", .plain),
    ("task_state", orText "open")] ++ taskFacts

/-- `rowToOwnTask`, less the anchor. -/
def ownTaskColumns : Parser :=
  [("trip_id", .plain), ("author_id", .plain), ("body", .plain), ("task_state", orText "open")] ++ taskFacts ++
    [("idea_id", nullable), ("day_entry_id", nullable), ("destination_task_id", nullable)]

/-! ## The encoders -/

def tripRow : Encoder :=
  [("name", .plain), ("year", .plain), ("status", .plain), ("start_date", .plain), ("end_date", .plain),
    ("series_id", .plain), ("attributes", .jsonColumn), ("packing_closed_at", .plain), ("imported", .dbBool)]

def travelerRow : Encoder := [("trip_id", .plain), ("name", .plain), ("linked_user_id", .plain)]

def seriesRow : Encoder := [("owner_id", .plain), ("name", .plain), ("default_attributes", .jsonColumn)]

def memberRow : Encoder := [("trip_id", .plain), ("user_id", .plain), ("role", .plain)]

/-- Off and on, as `dbBool` has them. -/
def off : Writing := .const (dbBool (.bool false))
def on : Writing := .const (dbBool (.bool true))

def commentRow : Encoder :=
  [("trip_id", .plain), ("trip_item_id", .plain), ("author_id", .plain), ("body", .plain), ("created_at", .plain),
    ("parent_id", .plain), ("title", .plain), ("edited_at", .plain), ("excursion_id", .plain), ("is_task", off)]

def noteAckRow : Encoder :=
  [("trip_id", .plain), ("comment_id", .plain), ("user_id", .plain), ("acked", .dbBool), ("seen_through", .plain)]

def excursionRow : Encoder :=
  [("trip_id", .plain), ("name", .plain), ("starts_on", .plain), ("ends_on", .plain), ("source_template_id", .plain),
    ("idea_id", .orNull)]

def excursionTravelerRow : Encoder := [("trip_id", .plain), ("excursion_id", .plain), ("traveler_id", .plain)]

def excursionItemRow : Encoder :=
  [("trip_id", .plain), ("excursion_id", .plain), ("trip_item_id", .plain), ("source_item_id", .plain),
    ("name", .plain), ("category_name", .plain), ("assigned_traveler_id", .plain), ("quantity", .plain),
    ("packed_count", .plain), ("state", .plain), ("mode", .plain), ("bought_at", .plain), ("not_in_luggage", .dbBool),
    ("for_all_participants", .dbBool), ("shopping_position", .orNull)]

def taskFactRow : Encoder :=
  [("task_tag_id", .plain), ("phase", .plain), ("due_date", .plain), ("due_time", .orNull), ("created_at", .plain),
    ("assignee_user_id", .plain), ("resolved_at", .plain), ("resolved_by_user_id", .plain), ("position", .orNull)]

def prepTaskRow : Encoder :=
  [("trip_id", .plain), ("trip_item_id", .plain), ("author_id", .plain), ("body", .plain), ("is_task", on),
    ("task_state", .plain)] ++ taskFactRow

def ownTaskRow : Encoder :=
  [("trip_id", .plain), ("trip_item_id", .const .null), ("author_id", .plain), ("body", .plain), ("is_task", on),
    ("task_state", .plain)] ++ taskFactRow ++
    [("idea_id", .orNull), ("day_entry_id", .orNull), ("anchor_kind", .orNull), ("anchor_lead_days", .orNull),
      ("destination_task_id", .orNull)]

def profileRow : Encoder := [("series_id", .plain), ("notes", .plain)]

def checklistItemRow : Encoder := [("profile_id", .plain), ("label", .plain), ("mode", .plain)]

def destinationTaskRow : Encoder :=
  [("profile_id", .plain), ("task", .plain), ("lead_days", .plain), ("assignee_user_id", .plain)]

def containerRow : Encoder :=
  [("trip_id", .plain), ("name", .plain), ("carrier_traveler_id", .plain), ("max_weight_grams", .plain),
    ("paired_container_id", .plain)]

def trackFieldsRow : Encoder :=
  [("name", .plain), ("file_name", .plain), ("kind", .plain), ("with_kid", .dbBool), ("pause_min", .plain),
    ("position", .plain), ("gpx_hash", .plain), ("distance_m", .plain), ("ascent_m", .plain), ("descent_m", .plain),
    ("max_ele_m", .plain), ("point_count", .plain), ("line", .plain)]

def excursionTrackRow : Encoder := [("trip_id", .plain), ("excursion_id", .plain)] ++ trackFieldsRow

def masterItemRow : Encoder :=
  [("name", .plain), ("weight_grams", .plain), ("value_cents", .plain), ("image_hash", .orNull), ("icon", .orNull),
    ("default_assignee_id", .orNull), ("retired_at", .orNull), ("merged_into_id", .orNull)]

def templateRow : Encoder :=
  [("owner_id", .plain), ("name", .plain), ("kind", .plain), ("icon", .orNull), ("retired_at", .orNull)]

def templateItemRow : Encoder :=
  [("template_id", .plain), ("item_id", .plain), ("quantity", .plain), ("assignment", .plain), ("dedup", .plain),
    ("conditions", .jsonColumn), ("default_mode", .plain), ("late_packer", .dbBool)]

def dependencyRow : Encoder :=
  [("item_id", .plain), ("depends_on_item_id", .plain), ("mode", .plain), ("quantity", .plain)]

def itemRow : Encoder :=
  [("trip_id", .plain), ("name", .plain), ("source_item_id", .plain), ("source_template_id", .plain),
    ("weight_grams", .plain), ("value_cents", .plain), ("category_name", .plain), ("quantity", .plain),
    ("packed_count", .plain), ("state", .plain), ("mode", .plain), ("late_packer", .dbBool),
    ("assigned_traveler_id", .plain), ("packer_user_id", .plain), ("packed_by_user_id", .plain), ("packed_at", .plain),
    ("container_id", .plain), ("packing_now_by", .plain), ("packing_now_at", .plain), ("bought_from", .plain),
    ("bought_at", .plain), ("bought_by_user_id", .plain), ("flag_unused", .dbBool), ("flag_missing", .dbBool),
    ("carried_over_at", .orNull), ("shopping_position", .orNull), ("pack_note", .orNull), ("needed_quantity", .orNull),
    ("updated_hlc", .plain)]

/-! ## The registry -/

/-- The tables of `KERNEL_TABLE_SPECS`. -/
inductive SyncTable where
  | tags
  | taskTags
  | itemTags
  | items
  | itemDependencies
  | templates
  | templateItems
  | templateIncludes
  | templateItemTasks
  | templateTasks
  | tripSeries
  | destinationProfiles
  | destinationChecklistItems
  | destinationTasks
  | trips
  | tripMembers
  | tripTemplateSources
  | tripAppliedChanges
  | tripItems
  | travelers
  | containers
  | tripGeneratedPositions
  | excursionTracks
  | comments
  | noteAcks
  | excursions
  | excursionTravelers
  | excursionItems
  deriving DecidableEq

/-- The rows that the stores hold: those of the tables, and the two kinds of task among the comments. -/
inductive RowKind where
  | of (table : SyncTable)
  | prepTask
  | ownTask
  deriving DecidableEq

/-- `TableCodec`. -/
structure Codec where
  parse : Parser
  encode : Option Encoder

/-- `KERNEL_TABLE_SPECS`, `prepTaskCodec` and `ownTaskCodec`, in a year. -/
def spec (year : Number) : RowKind → Codec
  | .of .tags => ⟨rowToTag, none⟩
  | .of .taskTags => ⟨rowToTaskTag, none⟩
  | .of .itemTags => ⟨rowToItemTag, none⟩
  | .of .items => ⟨rowToItem, some masterItemRow⟩
  | .of .itemDependencies => ⟨rowToDependency, some dependencyRow⟩
  | .of .templates => ⟨rowToTemplate, some templateRow⟩
  | .of .templateItems => ⟨rowToTemplateItem, some templateItemRow⟩
  | .of .templateIncludes => ⟨rowToInclude, none⟩
  | .of .templateItemTasks => ⟨rowToTask, none⟩
  | .of .templateTasks => ⟨rowToTemplateTask, none⟩
  | .of .tripSeries => ⟨rowToSeries, some seriesRow⟩
  | .of .destinationProfiles => ⟨rowToProfile, some profileRow⟩
  | .of .destinationChecklistItems => ⟨rowToChecklistItem, some checklistItemRow⟩
  | .of .destinationTasks => ⟨rowToDestinationTask, some destinationTaskRow⟩
  | .of .trips => ⟨rowToTrip year, some tripRow⟩
  | .of .tripMembers => ⟨rowToMember, some memberRow⟩
  | .of .tripTemplateSources => ⟨rowToTemplateSource, none⟩
  | .of .tripAppliedChanges => ⟨rowToAppliedChange, none⟩
  | .of .tripItems => ⟨rowToTripItem, some itemRow⟩
  | .of .travelers => ⟨rowToTraveler, some travelerRow⟩
  | .of .containers => ⟨rowToContainer, some containerRow⟩
  | .of .tripGeneratedPositions => ⟨rowToGeneratedPosition, none⟩
  | .of .excursionTracks => ⟨rowToExcursionTrack, some excursionTrackRow⟩
  | .of .comments => ⟨rowToComment, some commentRow⟩
  | .of .noteAcks => ⟨rowToNoteAck, some noteAckRow⟩
  | .of .excursions => ⟨rowToExcursion, some excursionRow⟩
  | .of .excursionTravelers => ⟨rowToExcursionTraveler, some excursionTravelerRow⟩
  | .of .excursionItems => ⟨rowToExcursionLine, some excursionItemRow⟩
  | .prepTask => ⟨rowToPrepTask, some prepTaskRow⟩
  | .ownTask => ⟨ownTaskColumns, some ownTaskRow⟩

/-- How a kind of row is written: one without an encoder is copied. -/
def writings (year : Number) (kind : RowKind) : Encoder :=
  match (spec year kind).encode with
  | some encoder => encoder
  | none => (spec year kind).parse.map fun c => (c.1, .plain)

section
variable (S : Script) (year : Number)

/-- `legacyAnchorOfRow`. -/
def legacyAnchorOfRow (row : Row) : Value × Value :=
  let start := row "start_lead_days"
  if ! start.nullish then (.text "trip_start", start)
  else
    let idea := row "lead_days"
    if ! idea.nullish && ! (row "idea_id").nullish then (.text "idea", idea) else (.null, .null)

/-- `rowToAnchor`. -/
def rowToAnchor (row : Row) : Value × Value :=
  let kind := row "anchor_kind"
  if kind.nullish then legacyAnchorOfRow row else (kind, (row "anchor_lead_days").orElse .null)

/-- The fields that some columns are read into. -/
def parseColumns (parser : Parser) (row : Row) : Held := fun c =>
  match parser.lookup c with
  | some reading => reading.read S (row c)
  | none => .undefined

/-- `parse`, of a kind of row. -/
def parse (kind : RowKind) (row : Row) : Held := fun c =>
  if kind = .ownTask ∧ c = "anchor_kind" then (rowToAnchor row).1
  else if kind = .ownTask ∧ c = "anchor_lead_days" then (rowToAnchor row).2
  else parseColumns S (spec year kind).parse row c

/-- `encodedRow`. -/
def encode (kind : RowKind) (held : Held) : Row := fun c =>
  match (writings year kind).lookup c with
  | some writing => writing.write S (held c)
  | none => .undefined

/-- Columns laid over a row. -/
def overlay (fields : Fields) (row : Row) : Row := fun c => (fields c).getD (row c)

/-! ## The stores -/

/-- The kind of row that a row of a table is read as. -/
def route (table : SyncTable) (row : Row) : RowKind :=
  if table ≠ .comments then .of table
  else if ! (row "is_task").truthy then .of .comments
  else if (row "trip_item_id").nullish then .ownTask
  else .prepTask

/-- The kinds of row of a table, in the order in which `currentRow` looks for one. -/
def kindsOf (table : SyncTable) : List RowKind :=
  if table = .comments then [.of .comments, .prepTask, .ownTask] else [.of table]

/-- The rows that the stores hold, by their ids. -/
structure Stores where
  rows : RowKind → String → Option Held

/-- `applyChange`, of a row that is there: the other readings let go of it. -/
def Stores.apply (s : Stores) (table : SyncTable) (id : String) (row : Row) : Stores where
  rows kind i :=
    if i = id ∧ kind ∈ kindsOf table then
      if kind = route table row then some (parse S year kind row) else none
    else s.rows kind i

/-- The kind that a row of a table is held as. -/
def Stores.kindOf (s : Stores) (table : SyncTable) (id : String) : Option RowKind :=
  (kindsOf table).find? fun kind => (s.rows kind id).isSome

/-- `currentRow`. -/
def Stores.currentRow (s : Stores) (table : SyncTable) (id : String) : Option Row :=
  (s.kindOf table id).bind fun kind => (s.rows kind id).map (encode S year kind)

/-- What happens to the stores. The rows of a tombstone are gone with what they take along. -/
inductive Input where
  | change (table : SyncTable) (id : String) (row : Row)
  | gone (removed : RowKind → String → Bool)
  | upsert (table : SyncTable) (id : String) (fields : Fields)

/-- A pull, a painted insert and a row that a caller paints are changes. An upsert is painted over the row as it is
held, if it is held. -/
def step (s : Stores) : Input → Stores
  | .change table id row => s.apply S year table id row
  | .gone removed => ⟨fun kind id => if removed kind id then none else s.rows kind id⟩
  | .upsert table id fields =>
    match s.currentRow S year table id with
    | some row => s.apply S year table id (overlay fields row)
    | none => s

/-- The device, in whatever year it is at each step. -/
def machine : Machine Stores (Number × Input) Unit where
  step s i := ((), step S i.1 s i.2)

end

/-! ## What a paint keeps of a column -/

/-- What is read, written and read again in another way is what it was. -/
def Fits : Reading → Writing → Reading → Bool
  | .plain, .plain, .plain => true
  | .orElse _, .plain, .plain => true
  | .orElse d, .plain, .orElse d' => d = d'
  | .orElse d, .orNull, .orElse d' => d = d'
  | .bool, .plain, .bool => true
  | .bool, .dbBool, .bool => true
  | .number _, .plain, .number _ => true
  | .nullableNumber, .plain, .nullableNumber => true
  | .trackKind, .plain, .trackKind => true
  | .json, .jsonColumn, .json => true
  | _, _, _ => false

/-- The text of a JSON column is not JSON, or that of `null`, or that of a value which its own text gives back. -/
def Carried (S : Script) (v : Value) : Prop :=
  ∀ s x, v = .text s → S.parseJson s = some x →
    x = .null ∨ x.truthy ∧ S.stringify x ≠ "" ∧ S.parseJson (S.stringify x) = some x

section
variable {S : Script} {v d : Value} {r r' : Reading} {w : Writing}

theorem orElse_orElse : (v.orElse d).orElse d = v.orElse d := by
  unfold Value.orElse
  split
  · split <;> rfl
  · rfl

theorem orElse_null_orElse : ((v.orElse d).orElse .null).orElse d = v.orElse d := by
  by_cases hv : v.nullish
  · have h : v.orElse d = d := if_pos hv
    rw [h]
    by_cases hd : d.nullish
    · have hnull : d.orElse .null = .null := if_pos hd
      rw [hnull]
      rfl
    · have hsame : d.orElse .null = d := if_neg hd
      rw [hsame]
      exact if_neg hd
  · have h : v.orElse d = v := if_neg hv
    have hsame : v.orElse .null = v := if_neg hv
    rw [h, hsame, h]

theorem truthy_dbBool : (dbBool v).truthy = v.truthy := by
  unfold dbBool
  cases v.truthy <;> rfl

/-- A JSON column is read as `null` or as a value that its own text gives back. -/
theorem parseJsonColumn_carried (h : Carried S v) : parseJsonColumn S v .null = .null ∨
    (parseJsonColumn S v .null).truthy ∧ S.stringify (parseJsonColumn S v .null) ≠ "" ∧
      S.parseJson (S.stringify (parseJsonColumn S v .null)) = some (parseJsonColumn S v .null) := by
  unfold parseJsonColumn
  split
  · next s =>
    split
    · exact .inl rfl
    · cases hs : S.parseJson s with
      | none => exact .inl rfl
      | some x => exact h s x rfl hs
  · exact .inl rfl

theorem parseJsonColumn_jsonColumn (h : Carried S v) :
    parseJsonColumn S (jsonColumn S (parseJsonColumn S v .null)) .null = parseJsonColumn S v .null := by
  rcases parseJsonColumn_carried h with hnull | ⟨htruthy, hne, hparse⟩
  · rw [hnull]
    rfl
  · rw [jsonColumn, if_pos htruthy]
    show (if S.stringify _ = "" then _ else _) = _
    rw [if_neg hne, hparse, Option.getD_some]

/-- What a JSON column is written back as can be read again. -/
theorem carried_jsonColumn (h : Carried S v) : Carried S (jsonColumn S (parseJsonColumn S v .null)) := by
  rcases parseJsonColumn_carried h with hnull | ⟨htruthy, hne, hparse⟩
  · rw [hnull]
    intro s x hs
    cases hs
  · rw [jsonColumn, if_pos htruthy]
    rintro s x hs hx
    cases hs
    rw [hparse] at hx
    cases hx
    exact .inr ⟨htruthy, hne, hparse⟩

theorem trackKind_trackKind :
    Reading.read S .trackKind (Reading.read S .trackKind v) = Reading.read S .trackKind v := by
  by_cases hv : v = .text "bike"
  · rw [hv]
    rfl
  · have hhike : Reading.read S .trackKind v = .text "hike" := by
      unfold Reading.read
      split <;> simp_all
    rw [hhike]
    rfl

theorem nullableNumber_nullableNumber :
    Reading.read S .nullableNumber (Reading.read S .nullableNumber v) = Reading.read S .nullableNumber v := by
  by_cases hv : v.nullish
  · have hnull : Reading.read S .nullableNumber v = .null := if_pos hv
    rw [hnull]
    rfl
  · have hnumber : Reading.read S .nullableNumber v = .number (S.toNumber v) := if_neg hv
    rw [hnumber]
    exact congrArg Value.number (S.toNumber_number _)

/-- **A column whose ways fit is read as it was.** -/
theorem read_write_read (h : Fits r w r') (hjson : r = .json → Carried S v) :
    r'.read S (w.write S (r.read S v)) = r.read S v := by
  unfold Fits at h
  split at h
  case h_1 => rfl
  case h_2 => rfl
  case h_3 =>
    cases of_decide_eq_true h
    exact orElse_orElse
  case h_4 =>
    cases of_decide_eq_true h
    exact orElse_null_orElse
  case h_5 => rfl
  case h_6 => exact congrArg Value.bool truthy_dbBool
  case h_7 => exact congrArg Value.number (S.toNumber_number _)
  case h_8 => exact nullableNumber_nullableNumber
  case h_9 => exact trackKind_trackKind
  case h_10 => exact parseJsonColumn_jsonColumn (hjson rfl)
  case h_11 => cases h

/-- What is read, is not missing and is read again with a default. -/
theorem orElse_of_not_nullish (h : v.nullish = false) : v.orElse d = v := if_neg (by rw [h]; nofun)

end

/-! ## The registry, checked -/

/-- A JSON column of a row without an encoder. The copy of what it is read as is not read again. -/
def copiedJson : RowKind → String → Bool
  | .of .tripGeneratedPositions, c => c = "tasks"
  | .of .tripAppliedChanges, c => c = "detail"
  | _, _ => false

/-- What is written of a kind of row is read as it was read, by every way of reading that a row of the table has. The
row of a preparation has an item, and so it is none that a default is for. -/
def kindFits (year year' : Number) (kind kind' : RowKind) : Bool :=
  (spec year kind).parse.all fun c =>
    match (spec year' kind').parse.lookup c.1, (writings year' kind).lookup c.1 with
    | some r', some w => Fits c.2 w r' || copiedJson kind c.1 ||
        (kind, c, w, r') = (.prepTask, ("trip_item_id", .plain), .plain, nullable)
    | some _, none => false
    | none, _ => kind ≠ kind'

theorem mem_kindsOf_comments {kind : RowKind} :
    kind ∈ kindsOf .comments ↔ kind = .of .comments ∨ kind = .prepTask ∨ kind = .ownTask := by
  simp [kindsOf]

theorem eq_of_mem_kindsOf {table : SyncTable} {kind : RowKind} (htable : table ≠ .comments)
    (hkind : kind ∈ kindsOf table) : kind = .of table := by
  rw [kindsOf, if_neg htable] at hkind
  exact List.mem_singleton.1 hkind

theorem specFits (year year' : Number) (kind : RowKind) : kindFits year year' kind kind := by
  cases kind with
  | of t => cases t <;> rfl
  | prepTask => rfl
  | ownTask => rfl

/-- **The registry, checked.** -/
theorem spec_fits (year year' : Number) {table : SyncTable} {kind kind' : RowKind} (hkind : kind ∈ kindsOf table)
    (hkind' : kind' ∈ kindsOf table) : kindFits year year' kind kind' := by
  by_cases htable : table = .comments
  · subst htable
    rcases mem_kindsOf_comments.1 hkind with rfl | rfl | rfl <;>
      rcases mem_kindsOf_comments.1 hkind' with rfl | rfl | rfl <;> rfl
  · rw [eq_of_mem_kindsOf htable hkind, eq_of_mem_kindsOf htable hkind']
    exact specFits _ _ _

section
variable {year year' : Number} {table : SyncTable} {kind kind' : RowKind} {c : String} {r r' : Reading}

theorem kindFits_column (hfits : kindFits year year' kind kind') (hr : (spec year kind).parse.lookup c = some r) :
    (match (spec year' kind').parse.lookup c, (writings year' kind).lookup c with
    | some r', some w => Fits r w r' || copiedJson kind c ||
        (kind, (c, r), w, r') = (.prepTask, ("trip_item_id", .plain), .plain, nullable)
    | some _, none => false
    | none, _ => kind ≠ kind' : Bool) = true := by
  obtain ⟨before, after, hsplit, -⟩ := List.lookup_eq_some_iff.1 hr
  refine List.all_eq_true.1 hfits (c, r) ?_
  rw [hsplit]
  simp

/-- A column is read in any year. -/
theorem exists_lookup (year' : Number) (hr : (spec year kind).parse.lookup c = some r) :
    ∃ r', (spec year' kind).parse.lookup c = some r' := by
  have h := kindFits_column (specFits year year' kind) hr
  split at h
  · next r' _ hr' _ => exact ⟨r', hr'⟩
  · cases h
  · simp at h

theorem fits_of_lookup (hkind : kind ∈ kindsOf table) (hkind' : kind' ∈ kindsOf table)
    (hr : (spec year kind).parse.lookup c = some r) (hr' : (spec year' kind').parse.lookup c = some r')
    (hc : copiedJson kind c = false) :
    ∃ w, (writings year' kind).lookup c = some w ∧
      (Fits r w r' ∨ kind = .prepTask ∧ c = "trip_item_id" ∧ r = .plain ∧ w = .plain ∧ r' = nullable) := by
  have h := kindFits_column (spec_fits year year' hkind hkind') hr
  rw [hr'] at h
  cases hw : (writings year' kind).lookup c with
  | none =>
    rw [hw] at h
    cases h
  | some w =>
    rw [hw] at h
    simp only [hc, Bool.or_false, Bool.or_eq_true, decide_eq_true_eq, Prod.mk.injEq] at h
    obtain h | ⟨rfl, ⟨rfl, rfl⟩, rfl, rfl⟩ := h
    · exact ⟨w, rfl, .inl h⟩
    · exact ⟨.plain, rfl, .inr ⟨rfl, rfl, rfl, rfl, rfl⟩⟩

/-- Of the comments, no column is read as JSON. -/
theorem eq_of_json (hkind : kind ∈ kindsOf table) (hkind' : kind' ∈ kindsOf table)
    (hjson : (spec year kind').parse.lookup c = some .json) : kind = kind' := by
  by_cases htable : table = .comments
  · exfalso
    have hnone : (spec year kind').parse.all fun c => c.2 ≠ .json := by
      subst htable
      rcases mem_kindsOf_comments.1 hkind' with rfl | rfl | rfl <;> rfl
    obtain ⟨before, after, hsplit, -⟩ := List.lookup_eq_some_iff.1 hjson
    have := List.all_eq_true.1 hnone (c, .json) (by rw [hsplit]; simp)
    simp at this
  · rw [eq_of_mem_kindsOf htable hkind, eq_of_mem_kindsOf htable hkind']

theorem json_of_fits {w : Writing} (h : Fits .json w r') : w = .jsonColumn ∧ r' = .json := by
  cases w <;> cases r' <;> first | exact ⟨rfl, rfl⟩ | cases h

theorem json_of_jsonColumn (h : Fits r .jsonColumn r') : r = .json := by
  cases r <;> cases r' <;> first | rfl | cases h

end

/-! ## What a row is read as -/

section
variable {S : Script} {year : Number} {table : SyncTable} {kind kind' : RowKind} {c : String} {r : Reading}
  {row : Row} {held : Held} {fields : Fields}

theorem parse_of_lookup (hr : (spec year kind).parse.lookup c = some r) :
    parse S year kind row c = r.read S (row c) := by
  have hkind : ¬ (kind = .ownTask ∧ c = "anchor_kind") := by
    rintro ⟨rfl, rfl⟩
    have hnone : (spec year .ownTask).parse.lookup "anchor_kind" = none := rfl
    rw [hnone] at hr
    cases hr
  have hlead : ¬ (kind = .ownTask ∧ c = "anchor_lead_days") := by
    rintro ⟨rfl, rfl⟩
    have hnone : (spec year .ownTask).parse.lookup "anchor_lead_days" = none := rfl
    rw [hnone] at hr
    cases hr
  rw [parse, if_neg hkind, if_neg hlead, parseColumns, hr]

theorem encode_of_lookup {w : Writing} (hw : (writings year kind).lookup c = some w) :
    encode S year kind held c = w.write S (held c) := by
  rw [encode, hw]

theorem route_mem : route table row ∈ kindsOf table := by
  unfold route
  split
  · next htable => exact (by rw [kindsOf, if_neg htable]; exact List.mem_singleton_self _)
  · next htable =>
    obtain rfl : table = .comments := not_ne_iff.1 htable
    split
    · exact mem_kindsOf_comments.2 (.inl rfl)
    · split
      · exact mem_kindsOf_comments.2 (.inr (.inr rfl))
      · exact mem_kindsOf_comments.2 (.inr (.inl rfl))

variable (S) in
/-- The JSON columns of a row can be read again. -/
def Typed (kind : RowKind) (row : Row) : Prop :=
  ∀ year c, (spec year kind).parse.lookup c = some .json → copiedJson kind c = false → Carried S (row c)

variable (S) in
/-- A row of a table as a store holds it. -/
def ReadAs (table : SyncTable) (kind : RowKind) (held : Held) : Prop :=
  ∃ year row, Typed S kind row ∧ route table row = kind ∧ held = parse S year kind row

/-- The item of a preparation is there. -/
theorem ReadAs.trip_item_id (h : ReadAs S table .prepTask held) : (held "trip_item_id").nullish = false := by
  obtain ⟨year, row, -, hroute, rfl⟩ := h
  have hitem : (row "trip_item_id").nullish = false := by
    unfold route at hroute
    split at hroute
    · cases hroute
    · split at hroute
      · cases hroute
      · split at hroute
        · cases hroute
        · next hitem => exact Bool.eq_false_iff.2 hitem
  exact hitem

/-- **What both readings carry of a column that is not written.** -/
theorem ReadAs.read_encode {r r' : Reading} (h : ReadAs S table kind held) (hkind : kind ∈ kindsOf table)
    (hkind' : kind' ∈ kindsOf table) (hr : (spec year kind).parse.lookup c = some r)
    (hr' : (spec year kind').parse.lookup c = some r') (hc : copiedJson kind c = false) :
    r'.read S (encode S year kind held c) = held c := by
  have hread := h
  obtain ⟨year₀, row, htyped, -, rfl⟩ := h
  obtain ⟨r₀, hr₀⟩ := exists_lookup year₀ hr
  obtain ⟨w, hw, hfits | ⟨rfl, rfl, rfl, rfl, rfl⟩⟩ := fits_of_lookup hkind hkind' hr₀ hr' hc
  · rw [encode_of_lookup hw, parse_of_lookup hr₀]
    refine read_write_read hfits ?_
    rintro rfl
    exact htyped year₀ c hr₀ hc
  · rw [encode_of_lookup hw]
    exact orElse_of_not_nullish hread.trip_item_id

/-! ## An own task's anchor -/

/-- The columns of a kind of row, with those that an own task's anchor is read of. -/
def columnsOf (year : Number) : RowKind → Parser
  | .ownTask => ownTaskColumns ++ [("anchor_kind", nullable), ("anchor_lead_days", nullable)]
  | kind => (spec year kind).parse

variable (S year kind) in
/-- A held row with the columns of a mutation replaced, as they are read. -/
def replaced (fields : Fields) (held : Held) : Held := fun c =>
  match fields c, (columnsOf year kind).lookup c with
  | some v, some r => r.read S v
  | _, _ => held c

/-- An own task has no lead without a kind of anchor. -/
def leadless (kind : RowKind) (held : Held) : Held := fun c =>
  if kind = .ownTask ∧ c = "anchor_lead_days" ∧ held "anchor_kind" = .null then .null else held c

theorem orElse_null_eq_null {v : Value} : v.orElse .null = .null ↔ v.nullish := by
  cases v <;> simp [Value.orElse, Value.nullish]

theorem legacyAnchorOfRow_cases (row : Row) : legacyAnchorOfRow row = (.null, .null) ∨
    (legacyAnchorOfRow row).1.nullish = false ∧
      (legacyAnchorOfRow row).2.orElse .null = (legacyAnchorOfRow row).2 := by
  by_cases hstart : (row "start_lead_days").nullish
  · by_cases hidea : ! (row "lead_days").nullish && ! (row "idea_id").nullish
    · have hanchor : legacyAnchorOfRow row = (.text "idea", row "lead_days") := by
        simp [legacyAnchorOfRow, hstart, hidea]
      rw [hanchor]
      simp only [Bool.and_eq_true, Bool.not_eq_true'] at hidea
      exact .inr ⟨rfl, orElse_of_not_nullish hidea.1⟩
    · exact .inl (by simp [legacyAnchorOfRow, hstart, hidea])
  · have hanchor : legacyAnchorOfRow row = (.text "trip_start", row "start_lead_days") := by
      simp [legacyAnchorOfRow, hstart]
    rw [hanchor]
    exact .inr ⟨rfl, orElse_of_not_nullish (Bool.eq_false_iff.2 hstart)⟩

/-- An anchor has a kind, or it is none. -/
theorem rowToAnchor_cases (row : Row) : rowToAnchor row = (.null, .null) ∨
    (rowToAnchor row).1.nullish = false ∧ (rowToAnchor row).2.orElse .null = (rowToAnchor row).2 := by
  by_cases hkind : (row "anchor_kind").nullish
  · have hanchor : rowToAnchor row = legacyAnchorOfRow row := if_pos hkind
    rw [hanchor]
    exact legacyAnchorOfRow_cases row
  · have hanchor : rowToAnchor row = (row "anchor_kind", (row "anchor_lead_days").orElse .null) := if_neg hkind
    rw [hanchor]
    exact .inr ⟨Bool.eq_false_iff.2 hkind, orElse_orElse⟩

/-- The anchor of an own task as it is held. -/
theorem ReadAs.anchor (h : ReadAs S table .ownTask held) :
    held "anchor_kind" = .null ∧ held "anchor_lead_days" = .null ∨
      (held "anchor_kind").nullish = false ∧ (held "anchor_lead_days").orElse .null = held "anchor_lead_days" := by
  obtain ⟨year, row, -, -, rfl⟩ := h
  have hkind : parse S year .ownTask row "anchor_kind" = (rowToAnchor row).1 := rfl
  have hlead : parse S year .ownTask row "anchor_lead_days" = (rowToAnchor row).2 := rfl
  rw [hkind, hlead]
  rcases rowToAnchor_cases row with hnone | hsome
  · rw [hnone]
    exact .inl ⟨rfl, rfl⟩
  · exact .inr hsome

/-- The legacy columns of an anchor are none that a mutation of the table has. -/
def Fields.OfTable (fields : Fields) (table : SyncTable) : Prop :=
  table = .comments → fields "start_lead_days" = none ∧ fields "lead_days" = none

/-- The anchor of an own task that is painted. -/
theorem rowToAnchor_overlay (hstart : fields "start_lead_days" = none) (hidea : fields "lead_days" = none) :
    rowToAnchor (overlay fields (encode S year .ownTask held)) =
      if (overlay fields (encode S year .ownTask held) "anchor_kind").nullish then (.null, .null)
      else (overlay fields (encode S year .ownTask held) "anchor_kind",
        (overlay fields (encode S year .ownTask held) "anchor_lead_days").orElse .null) := by
  have hlegacy : legacyAnchorOfRow (overlay fields (encode S year .ownTask held)) = (.null, .null) := by
    unfold legacyAnchorOfRow overlay
    rw [hstart, hidea]
    rfl
  unfold rowToAnchor
  rw [hlegacy]

/-- A column of an anchor, written back and read as a column, is what it was. -/
theorem replaced_anchor {c : String} (hc : c = "anchor_kind" ∨ c = "anchor_lead_days")
    (hheld : (held c).orElse .null = held c) :
    (overlay fields (encode S year .ownTask held) c).orElse .null = replaced S year .ownTask fields held c := by
  have hcolumn : (columnsOf year .ownTask).lookup c = some nullable ∧
      (writings year .ownTask).lookup c = some .orNull := by
    rcases hc with rfl | rfl <;> exact ⟨rfl, rfl⟩
  rw [overlay, replaced, hcolumn.1, encode_of_lookup hcolumn.2]
  cases fields c with
  | some v => rfl
  | none => exact (congrArg (Value.orElse · .null) hheld).trans hheld

theorem anchor_overlay (h : ReadAs S table .ownTask held) (hstart : fields "start_lead_days" = none)
    (hidea : fields "lead_days" = none) :
    rowToAnchor (overlay fields (encode S year .ownTask held)) =
      (leadless .ownTask (replaced S year .ownTask fields held) "anchor_kind",
        leadless .ownTask (replaced S year .ownTask fields held) "anchor_lead_days") := by
  have hheld : (held "anchor_kind").orElse .null = held "anchor_kind" ∧
      (held "anchor_lead_days").orElse .null = held "anchor_lead_days" := by
    rcases h.anchor with ⟨hkind, hlead⟩ | ⟨hkind, hlead⟩
    · rw [hkind, hlead]
      exact ⟨rfl, rfl⟩
    · exact ⟨orElse_of_not_nullish hkind, hlead⟩
  rw [rowToAnchor_overlay hstart hidea, replaced_anchor (.inr rfl) hheld.2]
  have hkind : (overlay fields (encode S year .ownTask held) "anchor_kind").orElse .null =
      replaced S year .ownTask fields held "anchor_kind" := replaced_anchor (.inl rfl) hheld.1
  have hkindless : leadless .ownTask (replaced S year .ownTask fields held) "anchor_kind" =
      replaced S year .ownTask fields held "anchor_kind" := if_neg (by simp)
  by_cases hnone : (overlay fields (encode S year .ownTask held) "anchor_kind").nullish
  · have hnull : replaced S year .ownTask fields held "anchor_kind" = .null :=
      hkind.symm.trans (orElse_null_eq_null.2 hnone)
    rw [if_pos hnone, hkindless, hnull, leadless, if_pos ⟨rfl, rfl, hnull⟩]
  · have hsome : replaced S year .ownTask fields held "anchor_kind" ≠ .null := by
      rw [← hkind]
      exact fun hnull => hnone (orElse_null_eq_null.1 hnull)
    rw [if_neg hnone, hkindless, ← hkind, orElse_of_not_nullish (Bool.eq_false_iff.2 hnone), leadless,
      if_neg fun hlead => hsome hlead.2.2]

/-! ## What a paint leaves -/

theorem columnsOf_of_lookup (hr : (spec year kind).parse.lookup c = some r) :
    (columnsOf year kind).lookup c = some r := by
  cases kind with
  | ownTask =>
    have happend : (columnsOf year .ownTask).lookup c = _ := List.lookup_append
    rw [happend, show ownTaskColumns.lookup c = some r from hr]
    rfl
  | _ => exact hr

theorem columnsOf_of_lookup_none (hr : (spec year kind).parse.lookup c = none)
    (hanchor : ¬ (kind = .ownTask ∧ (c = "anchor_kind" ∨ c = "anchor_lead_days"))) :
    (columnsOf year kind).lookup c = none := by
  cases kind with
  | ownTask =>
    have hnot : c ≠ "anchor_kind" ∧ c ≠ "anchor_lead_days" := not_or.1 fun hc => hanchor ⟨rfl, hc⟩
    have happend : (columnsOf year .ownTask).lookup c = _ := List.lookup_append
    rw [happend, show ownTaskColumns.lookup c = none from hr, Option.none_or, List.lookup_eq_none_iff]
    simp [hnot]
  | _ => exact hr

/-- What is no column of its kind is nothing of a held row. -/
theorem ReadAs.undefined (h : ReadAs S table kind held) (hr : (spec year kind).parse.lookup c = none)
    (hanchor : ¬ (kind = .ownTask ∧ (c = "anchor_kind" ∨ c = "anchor_lead_days"))) : held c = .undefined := by
  obtain ⟨year₀, row, -, -, rfl⟩ := h
  have hr₀ : (spec year₀ kind).parse.lookup c = none := by
    by_contra hsome
    obtain ⟨r₀, hr₀⟩ := Option.ne_none_iff_exists'.1 hsome
    obtain ⟨r, hr'⟩ := exists_lookup year hr₀
    rw [hr] at hr'
    cases hr'
  rw [parse, if_neg fun h => hanchor ⟨h.1, .inl h.2⟩, if_neg fun h => hanchor ⟨h.1, .inr h.2⟩, parseColumns, hr₀]

/-- **A paint keeps what both readings carry, and replaces what is written of it.** -/
theorem paint_keeps (h : ReadAs S table kind held) (hkind : kind ∈ kindsOf table) (hkind' : kind' ∈ kindsOf table)
    (hcarried : ((spec year kind).parse.lookup c).isSome) (hcarried' : ((spec year kind').parse.lookup c).isSome)
    (hc : copiedJson kind c = false) :
    parse S year kind' (overlay fields (encode S year kind held)) c = replaced S year kind' fields held c := by
  obtain ⟨r, hr⟩ := Option.isSome_iff_exists.1 hcarried
  obtain ⟨r', hr'⟩ := Option.isSome_iff_exists.1 hcarried'
  rw [parse_of_lookup hr', replaced, columnsOf_of_lookup hr', overlay]
  cases fields c with
  | some v => rfl
  | none => exact h.read_encode hkind hkind' hr hr' hc

/-- **A paint that does not change the reading replaces what is written, and that alone.** -/
theorem paint_replaces (h : ReadAs S table kind held) (hkind : kind ∈ kindsOf table) (hfields : fields.OfTable table)
    (hc : copiedJson kind c = false) :
    parse S year kind (overlay fields (encode S year kind held)) c =
      leadless kind (replaced S year kind fields held) c := by
  by_cases hanchor : kind = .ownTask ∧ (c = "anchor_kind" ∨ c = "anchor_lead_days")
  · obtain ⟨rfl, hanchor⟩ := hanchor
    have htable : table = .comments := by
      by_contra htable
      cases eq_of_mem_kindsOf htable hkind
    have hpair : rowToAnchor (overlay fields (encode S year .ownTask held)) = _ :=
      anchor_overlay h (hfields htable).1 (hfields htable).2
    rcases hanchor with rfl | rfl
    · exact congrArg Prod.fst hpair
    · exact congrArg Prod.snd hpair
  · have hlead : leadless kind (replaced S year kind fields held) c = replaced S year kind fields held c :=
      if_neg fun h => hanchor ⟨h.1, .inr h.2.1⟩
    rw [hlead]
    cases hr : (spec year kind).parse.lookup c with
    | some r =>
      have hcarried : ((spec year kind).parse.lookup c).isSome := by rw [hr]; rfl
      exact paint_keeps h hkind hkind hcarried hcarried hc
    | none =>
      have hcolumns := columnsOf_of_lookup_none hr hanchor
      have hreplaced : replaced S year kind fields held c = held c := by
        rw [replaced, hcolumns]
        cases fields c <;> rfl
      rw [hreplaced, h.undefined hr hanchor, parse, if_neg fun h => hanchor ⟨h.1, .inl h.2⟩,
        if_neg fun h => hanchor ⟨h.1, .inr h.2⟩, parseColumns, hr]

/-- A row held is written back and read as it is. -/
theorem parse_encode (h : ReadAs S table kind held) (hkind : kind ∈ kindsOf table) (hc : copiedJson kind c = false) :
    parse S year kind (encode S year kind held) c = held c := by
  have hlead : leadless kind held = held := by
    funext c
    unfold leadless
    split
    · next hnone =>
      obtain ⟨rfl, rfl, hnull⟩ := hnone
      rcases h.anchor with ⟨-, hlead⟩ | ⟨hsome, -⟩
      · exact hlead.symm
      · rw [hnull] at hsome
        cases hsome
    · rfl
  have hpaint : parse S year kind (overlay (fun _ => none) (encode S year kind held)) c = _ :=
    paint_replaces h hkind (fun _ => ⟨rfl, rfl⟩) hc
  exact hpaint.trans (congrFun hlead c)

/-- A mutation that says nothing of what the reading is decided by leaves it. -/
theorem route_overlay (h : ReadAs S table kind held) (hkind : kind ∈ kindsOf table)
    (hfields : table ≠ .comments ∨ fields "is_task" = none ∧ fields "trip_item_id" = none) :
    route table (overlay fields (encode S year kind held)) = kind := by
  by_cases htable : table = .comments
  · subst htable
    obtain ⟨htask, hitem⟩ := hfields.resolve_left (· rfl)
    unfold route overlay
    rw [htask, hitem, if_neg (not_not_intro rfl)]
    rcases mem_kindsOf_comments.1 hkind with rfl | rfl | rfl
    · rfl
    · have hpresent : (encode S year .prepTask held "trip_item_id").nullish = false := h.trip_item_id
      show (if (encode S year .prepTask held "trip_item_id").nullish then RowKind.ownTask else .prepTask) = _
      rw [hpresent]
      rfl
    · rfl
  · rw [eq_of_mem_kindsOf htable hkind]
    exact if_pos htable

/-! ## The stores along a run -/

variable (S) in
/-- The JSON columns that a mutation writes can be read again. -/
def TypedFields (table : SyncTable) (fields : Fields) : Prop :=
  ∀ kind ∈ kindsOf table, ∀ year c v, (spec year kind).parse.lookup c = some .json → copiedJson kind c = false →
    fields c = some v → Carried S v

variable (S) in
/-- What comes to the stores has JSON in its JSON columns. -/
def Input.Typed : Input → Prop
  | .change table _ row => Codecs.Typed S (route table row) row
  | .gone _ => True
  | .upsert table _ fields => TypedFields S table fields

theorem typed_overlay (h : ReadAs S table kind held) (hkind : kind ∈ kindsOf table) (hkind' : kind' ∈ kindsOf table)
    (hfields : TypedFields S table fields) : Typed S kind' (overlay fields (encode S year kind held)) := by
  intro year' c hjson hc
  cases eq_of_json hkind hkind' hjson
  rw [overlay]
  cases hwritten : fields c with
  | some v => exact hfields kind hkind year' c v hjson hc hwritten
  | none =>
    obtain ⟨r, hr⟩ := exists_lookup year hjson
    obtain ⟨w, hw, hfits | ⟨-, -, hplain, -⟩⟩ := fits_of_lookup hkind hkind hjson hr hc
    · obtain ⟨rfl, rfl⟩ := json_of_fits hfits
      obtain ⟨year₀, row, htyped, -, rfl⟩ := h
      obtain ⟨r₀, hr₀⟩ := exists_lookup year₀ hr
      obtain ⟨w₀, hw₀, hfits₀ | ⟨-, -, -, -, hplain⟩⟩ := fits_of_lookup hkind hkind hr₀ hr hc
      · rw [hw] at hw₀
        cases hw₀
        cases json_of_jsonColumn hfits₀
        rw [Option.getD_none, encode_of_lookup hw, parse_of_lookup hr₀]
        exact carried_jsonColumn (htyped year₀ c hr₀ hc)
      · cases hplain
    · cases hplain

variable (S) in
/-- Every row is held as one of the readings of its table. -/
structure Stores.Valid (s : Stores) : Prop where
  read : ∀ table kind id held, kind ∈ kindsOf table → s.rows kind id = some held → ReadAs S table kind held
  one : ∀ table kind kind' id, kind ∈ kindsOf table → kind' ∈ kindsOf table →
    (s.rows kind id).isSome → (s.rows kind' id).isSome → kind = kind'

/-- Stores that hold nothing. -/
def Stores.empty : Stores := ⟨fun _ _ => none⟩

theorem kindsOf_disjoint {table' : SyncTable} (h : kind ∈ kindsOf table) (h' : kind ∈ kindsOf table') :
    table = table' := by
  by_cases htable : table = .comments <;> by_cases htable' : table' = .comments
  · rw [htable, htable']
  · rw [eq_of_mem_kindsOf htable' h', htable, mem_kindsOf_comments] at h
    simp_all
  · rw [eq_of_mem_kindsOf htable h, htable', mem_kindsOf_comments] at h'
    simp_all
  · cases eq_of_mem_kindsOf htable h
    cases eq_of_mem_kindsOf htable' h'
    rfl

section
variable {s : Stores} {id : String}

theorem apply_route : (s.apply S year table id row).rows (route table row) id =
    some (parse S year (route table row) row) := by
  show (if id = id ∧ route table row ∈ kindsOf table then _ else _) = _
  rw [if_pos ⟨rfl, route_mem⟩, if_pos rfl]

theorem apply_other (hkind : kind ∈ kindsOf table) (hother : kind ≠ route table row) :
    (s.apply S year table id row).rows kind id = none := by
  show (if id = id ∧ kind ∈ kindsOf table then _ else _) = _
  rw [if_pos ⟨rfl, hkind⟩, if_neg hother]

theorem apply_frame {i : String} (h : ¬ (i = id ∧ kind ∈ kindsOf table)) :
    (s.apply S year table id row).rows kind i = s.rows kind i := if_neg h

theorem Stores.Valid.apply (hs : s.Valid S) (hrow : Typed S (route table row) row) :
    (s.apply S year table id row).Valid S where
  read table' kind i held hkind hheld := by
    by_cases hsame : i = id ∧ kind ∈ kindsOf table
    · obtain ⟨rfl, hkind'⟩ := hsame
      cases kindsOf_disjoint hkind' hkind
      by_cases hroute : kind = route table row
      · subst hroute
        rw [apply_route] at hheld
        exact ⟨year, row, hrow, rfl, (Option.some.inj hheld).symm⟩
      · rw [apply_other hkind hroute] at hheld
        cases hheld
    · rw [apply_frame hsame] at hheld
      exact hs.read table' kind i held hkind hheld
  one table' kind kind' i hkind hkind' hheld hheld' := by
    by_cases hsame : i = id ∧ table' = table
    · obtain ⟨rfl, rfl⟩ := hsame
      have hroute : ∀ kind ∈ kindsOf table', ((s.apply S year table' i row).rows kind i).isSome →
          kind = route table' row := by
        intro kind hkind hheld
        by_contra hother
        rw [apply_other hkind hother] at hheld
        cases hheld
      rw [hroute kind hkind hheld, hroute kind' hkind' hheld']
    · have hframe : ∀ kind ∈ kindsOf table', (s.apply S year table id row).rows kind i = s.rows kind i :=
        fun kind hkind => apply_frame fun h => hsame ⟨h.1, kindsOf_disjoint hkind h.2⟩
      rw [hframe kind hkind] at hheld
      rw [hframe kind' hkind'] at hheld'
      exact hs.one table' kind kind' i hkind hkind' hheld hheld'

/-- The row as it is held is the one that a write is painted over. -/
theorem Stores.Valid.currentRow (hs : s.Valid S) (hkind : kind ∈ kindsOf table) (hheld : s.rows kind id = some held) :
    s.currentRow S year table id = some (encode S year kind held) := by
  have hsome : (s.rows kind id).isSome := by rw [hheld]; rfl
  have hfound : s.kindOf table id = some kind := by
    cases hfind : s.kindOf table id with
    | none => exact absurd hsome (List.find?_eq_none.1 hfind kind hkind)
    | some kind' =>
      have hmem := List.mem_of_find?_eq_some hfind
      have hheld' := List.find?_some (show (kindsOf table).find? (fun kind => (s.rows kind id).isSome) = _ from hfind)
      rw [hs.one table kind' kind id hmem hkind hheld' hsome]
  rw [Stores.currentRow, hfound, Option.bind_some, hheld, Option.map_some]

theorem Stores.currentRow_eq_some (h : s.currentRow S year table id = some row) :
    ∃ kind ∈ kindsOf table, ∃ held, s.rows kind id = some held ∧ row = encode S year kind held := by
  obtain ⟨kind, hfound, hrow⟩ := Option.bind_eq_some_iff.1 h
  obtain ⟨held, hheld, rfl⟩ := Option.map_eq_some_iff.1 hrow
  exact ⟨kind, List.mem_of_find?_eq_some hfound, held, hheld, rfl⟩

/-- **One step.** -/
theorem Stores.Valid.step {i : Input} (hs : s.Valid S) (hi : i.Typed S) : (step S year s i).Valid S := by
  cases i with
  | change table id row => exact hs.apply hi
  | gone removed =>
    have hkept : ∀ kind id held, (Codecs.step S year s (.gone removed)).rows kind id = some held →
        s.rows kind id = some held := by
      intro kind id held hheld
      by_cases hremoved : removed kind id
      · cases (if_pos hremoved).symm.trans hheld
      · exact (if_neg hremoved).symm.trans hheld
    refine ⟨fun table kind id held hkind hheld => hs.read table kind id held hkind (hkept kind id held hheld),
      fun table kind kind' id hkind hkind' hheld hheld' => ?_⟩
    obtain ⟨held, hheld⟩ := Option.isSome_iff_exists.1 hheld
    obtain ⟨held', hheld'⟩ := Option.isSome_iff_exists.1 hheld'
    refine hs.one table kind kind' id hkind hkind' ?_ ?_
    · rw [hkept kind id held hheld]
      rfl
    · rw [hkept kind' id held' hheld']
      rfl
  | upsert table id fields =>
    show (match s.currentRow S year table id with
      | some row => s.apply S year table id (overlay fields row)
      | none => s).Valid S
    cases hrow : s.currentRow S year table id with
    | none => exact hs
    | some row =>
      obtain ⟨kind, hkind, held, hheld, rfl⟩ := Stores.currentRow_eq_some hrow
      exact hs.apply (typed_overlay (hs.read table kind id held hkind hheld) hkind route_mem hi)

theorem Stores.Valid.empty : Stores.empty.Valid S where
  read _ _ _ _ _ hheld := by cases hheld
  one _ _ _ _ _ _ hheld := by cases hheld

end

/-- **Any run from stores that hold nothing.** -/
theorem valid_after {inputs : List (Number × Input)} (hinputs : ∀ i ∈ inputs, i.2.Typed S) :
    ((machine S).after Stores.empty inputs).Valid S :=
  Machine.after_invariant (fun _ _ hi hs => hs.step hi) Stores.Valid.empty (Machine.Legal.of_forall_mem hinputs)

variable (year) in
/-- **A row that the stores hold after any run is written back and read as it is. What an upsert paints takes its place
and no other's: each column that is written is replaced, and each other column is what it was, as far as the readings
before and after both carry it. Where the reading stays, that is every column; an own task's lead goes with its kind.**
-/
theorem paint_spec {inputs : List (Number × Input)} (hinputs : ∀ i ∈ inputs, i.2.Typed S) {id : String}
    (hkind : kind ∈ kindsOf table) (hheld : ((machine S).after Stores.empty inputs).rows kind id = some held) :
    (∀ c, copiedJson kind c = false → parse S year kind (encode S year kind held) c = held c) ∧
    ∀ fields : Fields, fields.OfTable table → ∃ kind' ∈ kindsOf table, ∃ held',
      (∀ k i, (step S year ((machine S).after Stores.empty inputs) (.upsert table id fields)).rows k i =
        if i = id ∧ k ∈ kindsOf table then if k = kind' then some held' else none
        else ((machine S).after Stores.empty inputs).rows k i) ∧
      (table ≠ .comments ∨ fields "is_task" = none ∧ fields "trip_item_id" = none → kind' = kind) ∧
      (kind' = kind → ∀ c, copiedJson kind c = false →
        held' c = leadless kind (replaced S year kind fields held) c) ∧
      ∀ c, ((spec year kind).parse.lookup c).isSome → ((spec year kind').parse.lookup c).isSome →
        copiedJson kind c = false → held' c = replaced S year kind' fields held c := by
  have hvalid := valid_after hinputs
  have hread := hvalid.read table kind id held hkind hheld
  refine ⟨fun c hc => parse_encode hread hkind hc, fun fields hfields => ?_⟩
  have hroute : _ → route table (overlay fields (encode S year kind held)) = kind := route_overlay hread hkind
  generalize hpainted : overlay fields (encode S year kind held) = painted at hroute
  refine ⟨route table painted, route_mem, parse S year (route table painted) painted, fun k i => ?_, hroute,
    fun hsame c hc => ?_, fun c hcarried hcarried' hc => ?_⟩
  · have hstep : step S year ((machine S).after Stores.empty inputs) (.upsert table id fields) =
        ((machine S).after Stores.empty inputs).apply S year table id painted := by
      rw [step, hvalid.currentRow hkind hheld, ← hpainted]
    rw [hstep]
    split
    · next hid =>
      obtain ⟨rfl, hk⟩ := hid
      split
      · next hroute =>
        rw [hroute, apply_route]
      · next hother => exact apply_other hk hother
    · next hid => exact apply_frame hid
  · rw [hsame, ← hpainted]
    exact paint_replaces hread hkind hfields hc
  · rw [← hpainted] at hcarried' ⊢
    exact paint_keeps hread hkind route_mem hcarried hcarried' hc

end

/-! ## A trip, and two comments -/

/-- A device whose only JSON is an empty object. -/
def bareScript : Script where
  toNumber
    | .number n => n
    | _ => .nan
  toNumber_number _ := rfl
  parseJson s := if s = "\x7b\x7d" then some (.json ⟨s⟩) else none
  stringify
    | .json x => x.text
    | _ => ""
  texts v := v

theorem carried_bareScript (v : Value) : Carried bareScript v := by
  rintro s x rfl hx
  by_cases hs : s = "\x7b\x7d"
  · subst hs
    cases hx
    exact .inr ⟨rfl, by decide, rfl⟩
  · cases (if_neg hs).symm.trans hx

/-- A trip that is pulled. -/
def tripRow₁ : Row
  | "name" => .text "Engadin"
  | "status" => .text "planning"
  | "year" => .number (.finite 2026)
  | "attributes" => .text "\x7b\x7d"
  | _ => .null

def pulledTrip : List (Number × Input) := [(.finite 2026, .change .trips "t1" tripRow₁)]

def renamed : Fields := fun c => if c = "name" then some (.text "Unterengadin") else none

/-- A trip is renamed, and keeps its attributes. -/
theorem paint_trip : ∃ held,
    (step bareScript (.finite 2027) ((machine bareScript).after Stores.empty pulledTrip)
      (.upsert .trips "t1" renamed)).rows (.of .trips) "t1" = some held ∧
    held "name" = .text "Unterengadin" ∧ held "attributes" = .json ⟨"\x7b\x7d"⟩ := by
  have hinputs : ∀ i ∈ pulledTrip, i.2.Typed bareScript := by
    intro i hi
    cases List.mem_singleton.1 hi
    exact fun year c _ _ => carried_bareScript _
  have hheld : ((machine bareScript).after Stores.empty pulledTrip).rows (.of .trips) "t1" =
      some (parse bareScript (.finite 2026) (.of .trips) tripRow₁) := rfl
  have hkind : RowKind.of .trips ∈ kindsOf .trips := List.mem_singleton_self _
  have hspec := paint_spec (.finite 2027) hinputs hkind hheld
  obtain ⟨kind, -, held, hrows, hsame, hreplaced, -⟩ := hspec.2 renamed nofun
  cases hsame (.inl nofun)
  refine ⟨held, ?_, ?_, ?_⟩
  · rw [hrows, if_pos ⟨rfl, List.mem_singleton_self _⟩, if_pos rfl]
  · rw [hreplaced rfl "name" rfl]
    rfl
  · rw [hreplaced rfl "attributes" rfl]
    rfl

/-- A note with a title. -/
def noteRow : Row
  | "trip_id" => .text "t1"
  | "author_id" => .text "u1"
  | "body" => .text "The stove is in the cellar."
  | "title" => .text "Stove"
  | _ => .null

/-- A task that is due three days before the trip. -/
def taskRow : Row
  | "trip_id" => .text "t1"
  | "author_id" => .text "u1"
  | "body" => .text "Fetch the stove."
  | "is_task" => .number (.finite 1)
  | "anchor_kind" => .text "trip_start"
  | "anchor_lead_days" => .number (.finite 3)
  | _ => .null

/-- A mutation of one column. -/
def setting (column : String) (v : Value) : Fields := fun c => if c = column then some v else none

/-- The note is made a task, and a note again. -/
def flagged : List (Number × Input) :=
  [(.finite 2026, .change .comments "c1" noteRow),
    (.finite 2026, .upsert .comments "c1" (setting "is_task" (.number (.finite 1)))),
    (.finite 2026, .upsert .comments "c1" (setting "is_task" (.number (.finite 0))))]

/-- The task is taken off its anchor. -/
def unanchored : List (Number × Input) :=
  [(.finite 2026, .change .comments "c2" taskRow),
    (.finite 2026, .upsert .comments "c2" (setting "anchor_kind" .null))]

/-- A note that was a task has no title, though the row that the server has still carries it. A task without a kind of
anchor has no lead, though its lead was not written. -/
theorem title_lost :
    ((((machine bareScript).after Stores.empty flagged).rows (.of .comments) "c1").map (· "title") = some .null ∧
      overlay (setting "is_task" (.number (.finite 0))) (overlay (setting "is_task" (.number (.finite 1))) noteRow)
        "title" = .text "Stove") ∧
    (((machine bareScript).after Stores.empty [(.finite 2026, .change .comments "c2" taskRow)]).rows .ownTask "c2").map
      (· "anchor_lead_days") = some (.number (.finite 3)) ∧
    (((machine bareScript).after Stores.empty unanchored).rows .ownTask "c2").map (· "anchor_lead_days") =
      some .null := by
  refine ⟨⟨?_, ?_⟩, ?_, ?_⟩ <;> rfl

end Codecs

end JitPack
