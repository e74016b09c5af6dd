import JitPack.Store.Db

/-!
# The registry

The `tableSpecs` of `tables_registry.go`: for each table the partition it belongs to, which rows a
delete of one of its rows takes along (`cascades`) or is blocked by (`blockedBy`), and whether a
blocked delete retires the row. The cascades are written by hand beside the foreign keys of the
schema, as queries (`Where`).
-/

namespace JitPack

inductive PartitionKind where
  | trip
  | master
  deriving DecidableEq

/-- The feed the changes of a table travel on. -/
def Table.partition : Table → PartitionKind
  | .taskTags | .tags | .itemTags | .items | .itemDependencies | .templates | .templateItems
  | .templateIncludes | .templateItemTasks | .templateTasks | .tripSeries | .destinationProfiles
  | .destinationChecklistItems | .destinationTasks | .trips | .tripMembers
  | .tripTemplateSources | .tripAppliedChanges => .master
  | _ => .trip

/-- The condition of a query for the children of a row. -/
inductive Where where
  /-- `column = ?`. -/
  | eq (column : String)
  /-- `column IN (SELECT id FROM table WHERE parentColumn = ?)`, also written as a join. -/
  | within (column : String) (table : Table) (parentColumn : String)
  | or (a b : Where)
  deriving DecidableEq

def Where.holds (db : Db) (id : String) (row : StoredRow) : Where → Bool
  | .eq column => row.fields column = .str id
  | .within column table parentColumn =>
    match row.fields column with
    | .str x =>
      match db.rows.lookup ⟨table, x⟩ with
      | some parent => parent.fields parentColumn = .str id
      | none => false
    | _ => false
  | .or a b => a.holds db id row || b.holds db id row

theorem Where.holds_congr {db db' : Db} (h : db.rows = db'.rows) (id : String) (row : StoredRow)
    (q : Where) : q.holds db id row = q.holds db' id row := by
  induction q with
  | eq => rfl
  | within => simp only [holds, h]
  | or _ _ iha ihb => rw [holds, holds, iha, ihb]

/-- A child table with the query that finds its rows for a parent id. -/
structure ChildQuery where
  table : Table
  cond : Where
  deriving DecidableEq

/-- The child rows that a delete of a row of the table will delete, in the order in which their
tombstones are emitted. -/
def Table.cascades : Table → List ChildQuery
  | .tags => [⟨.itemTags, .eq "tag_id"⟩]
  | .items => [
      ⟨.itemTags, .eq "item_id"⟩,
      ⟨.itemDependencies, .or (.eq "item_id") (.eq "depends_on_item_id")⟩]
  | .templates => [
      ⟨.templateItemTasks, .within "template_item_id" .templateItems "template_id"⟩,
      ⟨.templateItems, .eq "template_id"⟩,
      ⟨.templateTasks, .eq "template_id"⟩,
      ⟨.templateIncludes, .or (.eq "template_id") (.eq "included_template_id")⟩,
      ⟨.tripTemplateSources, .eq "template_id"⟩]
  | .templateItems => [⟨.templateItemTasks, .eq "template_item_id"⟩]
  | .tripSeries => [
      ⟨.destinationChecklistItems, .within "profile_id" .destinationProfiles "series_id"⟩,
      ⟨.destinationTasks, .within "profile_id" .destinationProfiles "series_id"⟩,
      ⟨.destinationProfiles, .eq "series_id"⟩]
  | .destinationProfiles => [
      ⟨.destinationChecklistItems, .eq "profile_id"⟩,
      ⟨.destinationTasks, .eq "profile_id"⟩]
  | .trips => [
      ⟨.tripMembers, .eq "trip_id"⟩,
      ⟨.tripTemplateSources, .eq "trip_id"⟩,
      ⟨.tripAppliedChanges, .eq "trip_id"⟩]
  | .tripItems => [
      ⟨.comments, .eq "trip_item_id"⟩,
      ⟨.noteAcks, .within "comment_id" .comments "trip_item_id"⟩]
  | .travelers => [
      ⟨.excursionTravelers, .eq "traveler_id"⟩,
      ⟨.excursionItems, .eq "assigned_traveler_id"⟩,
      ⟨.dayEntryTravelers, .eq "traveler_id"⟩]
  | .comments => [
      ⟨.comments, .eq "parent_id"⟩,
      ⟨.noteAcks, .or (.eq "comment_id") (.within "comment_id" .comments "parent_id")⟩]
  | .excursions => [
      ⟨.excursionTravelers, .eq "excursion_id"⟩,
      ⟨.excursionItems, .eq "excursion_id"⟩,
      ⟨.excursionTracks, .eq "excursion_id"⟩]
  | .ideas => [
      ⟨.ideaLinks, .eq "idea_id"⟩,
      ⟨.ideaVotes, .eq "idea_id"⟩,
      ⟨.ideaComments, .eq "idea_id"⟩,
      ⟨.ideaImages, .eq "idea_id"⟩,
      ⟨.ideaTracks, .eq "idea_id"⟩]
  | .dayEntries => [⟨.dayEntryTravelers, .eq "day_entry_id"⟩]
  | .meals => [⟨.mealIngredients, .eq "meal_id"⟩]
  | _ => []

/-- The child columns that refuse a delete of a row of the table. -/
def Table.blockedBy : Table → List (Table × String)
  | .items => [
      (.templateItems, "item_id"), (.tripItems, "source_item_id"),
      (.excursionItems, "source_item_id")]
  | .templates => [(.tripItems, "source_template_id")]
  | .tripSeries => [(.trips, "series_id")]
  | .travelers => [(.tripItems, "assigned_traveler_id"), (.containers, "carrier_traveler_id")]
  | .containers => [(.tripItems, "container_id"), (.containers, "paired_container_id")]
  | _ => []

/-- The tables where a blocked delete keeps the row and stamps `retired_at`. -/
def lifecycleTables : List Table := [.items, .templates]

/-- The columns that an activity entry leaves out. -/
def Table.unlogged : Table → List String
  | .excursionTracks | .ideaTracks => ["line"]
  | .dayEntries => ["legs"]
  | _ => []

/-- `childIDs`. -/
def Db.childIDs (db : Db) (q : ChildQuery) (id : String) : List String :=
  db.select q.table (q.cond.holds db id)

/-- `cascadeChildren` of a delete of an existing row. -/
def Db.cascadeChildren (db : Db) (key : Key) : List Key :=
  key.table.cascades.flatMap fun q => (db.childIDs q key.id).map (⟨q.table, ·⟩)

theorem Db.cascadeChildren_congr {db db' : Db} (h : db.rows = db'.rows) (key : Key) :
    db.cascadeChildren key = db'.cascadeChildren key := by
  have hc : ∀ q : ChildQuery, db.childIDs q key.id = db'.childIDs q key.id := by
    intro q
    simp only [childIDs, select, q.cond.holds_congr h, h]
  simp only [cascadeChildren, hc]

/-- `stillReferenced` of a delete of an existing row. A reference of the row to itself does not
count. -/
def Db.stillReferenced (db : Db) (key : Key) : Bool :=
  key.table.blockedBy.any fun ref =>
    !(db.select ref.1 fun row => row.fields ref.2 = .str key.id).all fun id =>
      ref.1 = key.table && id = key.id

end JitPack
