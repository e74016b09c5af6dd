import JitPack.Lib.Assoc
import JitPack.Lib.Closure
import JitPack.Store.Schema

/-!
# The database

The rows of the synced tables and the logs beside them, with the statements the store runs on them.
An `INSERT` or an `UPDATE` is refused if the new row violates a constraint of `schema.sql`
(`Db.allows`). A `DELETE` takes every row with it that hangs on the deleted one by a chain of
`ON DELETE CASCADE` references (`Db.removed`), clears the `SET NULL` references to what is gone, and
is refused if a plain reference to it would be left. A deleted trip takes its part of the logs along.
-/

namespace JitPack

/-- Which row of which table. -/
structure Key where
  table : Table
  id : String
  deriving DecidableEq

/-- A stored row, with its two clock columns `updated_hlc` and `field_hlcs`. -/
structure StoredRow where
  fields : String → Value
  hlc : HLC
  clocks : FieldClocks

abbrev Rows := AList fun _ : Key => StoredRow

/-! ## The logs -/

/-- An entry of `change_log`. -/
structure Change where
  seq : Nat
  tripID : Option String
  key : Key
  deleted : Bool
  hlc : HLC
  deriving DecidableEq

/-- An entry of `conflict_log`. -/
structure ConflictEntry where
  id : String
  tripID : Option String
  key : Key
  field : String
  losingValue : Value
  winningValue : Value
  mutationID : String
  actorID : String
  reverted : Bool
  deriving DecidableEq

inductive ActivityOp where
  | insert
  | update
  | delete
  deriving DecidableEq

/-- An entry of `activity_log`, without the readable names it keeps for its readers. -/
structure ActivityEntry where
  tripID : Option String
  key : Key
  op : ActivityOp
  changes : List (String × Value × Value)
  actorID : String
  createdAt : String
  deriving DecidableEq

/-- An entry of `lock_events`. -/
structure LockEvent where
  id : String
  tripID : String
  tripItemID : String
  itemName : Value
  fromUserID : String
  toUserID : String
  deriving DecidableEq

/-- An entry of `mutations`, the idempotency memo. -/
structure Memo where
  mutationID : String
  outcome : Outcome
  conflicts : List Conflict
  seq : Nat
  deriving DecidableEq

structure Db where
  users : List String
  rows : Rows
  changeLog : List Change
  /-- The last sequence number that `change_log` gave out: AUTOINCREMENT reuses none. -/
  lastSeq : Nat
  conflictLog : List ConflictEntry
  activityLog : List ActivityEntry
  lockEvents : List LockEvent
  mutations : List Memo

/-- A fresh store. -/
def Db.empty : Db := ⟨[], ∅, [], 0, [], [], [], []⟩

/-- Why a call of the store fails. The first two are answers to a malformed mutation, `constraint`
is SQLite's primary result code for a violated constraint, `binding` the driver's refusal of a
value, and `fault` any failure of a statement for reasons of its own. -/
inductive Error where
  | unknownTable
  | unknownColumn
  | constraint
  | binding
  | fault
  | malformedClock (e : ParseError)
  | conflictNotFound
  | conflictAlreadyReverted
  | conflictRowGone
  | revertForbidden
  | revertRefused
  | tripItemNotFound
  | claimNotHeld
  | claimIsOwn
  | holderNotFound (t : Table)
  | trackTooLarge
  | trackInvalid
  | trackLimit
  | imageTooLarge
  | imageLimit
  | itemNotFound
  | masterRowNotFound
  | masterTableNotDeletable
  deriving DecidableEq

namespace Db

/-! ## Constraints -/

/-- The row holds a reference by a column of the table to the row `parent`. -/
def refersTo (t : Table) (row : String → Value) (a : OnDelete) (parent : Key) : Bool :=
  t.columns.any fun c =>
    c.references = some ⟨.table parent.table, a⟩ && row c.name = .str parent.id

/-- What the column refers to is there; a row may refer to itself. -/
def resolves (db : Db) (key : Key) (c : Column) (v : Value) : Bool :=
  match c.references, v with
  | none, _ => true
  | some _, .null => true
  | some ⟨.users, _⟩, .str id => id ∈ db.users
  | some ⟨.table t, _⟩, .str id => ⟨t, id⟩ = key || (db.rows.lookup ⟨t, id⟩).isSome
  | some _, _ => false

/-- No other row of the table collides with the row on the unique index. -/
def isUnique (db : Db) (key : Key) (row : String → Value) (u : Unique) : Bool :=
  !u.only row || u.columns.any (fun c => row c = .null) ||
    db.rows.entries.all fun e =>
      e.1.table ≠ key.table || e.1 = key || !u.only e.2.fields ||
        u.columns.any fun c => e.2.fields c ≠ row c

/-- The row violates no constraint of its table. -/
def allows (db : Db) (sqlite : Sqlite) (key : Key) (row : String → Value) : Bool :=
  key.table.columns.all (fun c => (!c.notNull || row c.name ≠ .null) &&
    db.resolves key c (row c.name)) &&
  key.table.checks.all (fun check => check sqlite row) && key.table.uniques.all (db.isUnique key row)

/-! ## Statements on rows -/

/-- The value of the column `f` of table `t` after `v` was written to it. -/
def readBack (sqlite : Sqlite) (t : Table) (f : String) (v : Value) : Value :=
  match t.column f with
  | some c => sqlite.store c.affinity v
  | none => v

def bindable (applied : Fields) : Bool := applied.entries.all fun e => e.2.bindable

/-- The value of a column that an insert does not name. -/
def defaultOf (now : String) (t : Table) (f : String) : Value :=
  match (t.column f).map Column.default with
  | some (.value v) => v
  | some .now => .str now
  | _ => .null

/-- `INSERT INTO`: the columns of `applied`, and the defaults of the others. -/
def insertRow (sqlite : Sqlite) (now : String) (key : Key) (applied : Fields) (hlc : HLC)
    (clocks : FieldClocks) (db : Db) : Except Error Db :=
  let fields := fun f =>
    match applied.lookup f with
    | some v => readBack sqlite key.table f v
    | none => defaultOf now key.table f
  if !bindable applied then .error .binding
  else if (db.rows.lookup key).isSome || !db.allows sqlite key fields then .error .constraint
  else .ok { db with rows := db.rows.insert key ⟨fields, hlc, clocks⟩ }

/-- `UPDATE … WHERE id = ?`, which does nothing if there is no such row. -/
def updateRow (sqlite : Sqlite) (key : Key) (applied : Fields) (hlc : HLC) (clocks : FieldClocks)
    (db : Db) : Except Error Db :=
  if !bindable applied then .error .binding
  else
    match db.rows.lookup key with
    | none => .ok db
    | some row =>
      let fields := fun f => ((applied.lookup f).map (readBack sqlite key.table f)).getD (row.fields f)
      if !db.allows sqlite key fields then .error .constraint
      else .ok { db with rows := db.rows.insert key ⟨fields, hlc, clocks⟩ }

/-- The row `child` hangs on the row `parent`: a delete of the parent deletes it. -/
def hangsOn (db : Db) (parent child : Key) : Bool :=
  match db.rows.lookup child with
  | some row => refersTo child.table row.fields .cascade parent
  | none => false

/-- The rows that a delete of `key` removes: the row, and what hangs on it by any chain of
cascading references. -/
def removed (db : Db) (key : Key) : List Key := Closure.closure db.hangsOn db.rows.keys [key]

/-- What the delete of the rows `gone` leaves of the values of a row: references that are set to
NULL forget them. -/
def forget (gone : List Key) (t : Table) (row : String → Value) (f : String) : Value :=
  match (t.column f).bind Column.references, row f with
  | some ⟨.table parent, .setNull⟩, .str id => if ⟨parent, id⟩ ∈ gone then .null else .str id
  | _, v => v

/-- What is left of a row when the rows `gone` are deleted. -/
def leftOf (gone : List Key) (key : Key) (row : StoredRow) : Option StoredRow :=
  if key ∈ gone then none else some { row with fields := forget gone key.table row.fields }

/-- An entry of a log about a trip goes with its trip. -/
def keepsTrip (gone : List Key) (tripID : Option String) : Bool :=
  match tripID with
  | none => true
  | some id => ⟨.trips, id⟩ ∉ gone

/-- `DELETE … WHERE id = ?`. -/
def deleteRow (key : Key) (db : Db) : Except Error Db :=
  if (db.rows.lookup key).isNone then .ok db
  else
    let gone := db.removed key
    if db.rows.entries.any fun e =>
        e.1 ∉ gone && gone.any fun parent => refersTo e.1.table e.2.fields .noAction parent then
      .error .constraint
    else .ok { db with
      rows := Assoc.filterMap (leftOf gone) db.rows
      changeLog := db.changeLog.filter fun e => keepsTrip gone e.tripID
      conflictLog := db.conflictLog.filter fun e => keepsTrip gone e.tripID
      activityLog := db.activityLog.filter fun e => keepsTrip gone e.tripID
      lockEvents := db.lockEvents.filter fun e => keepsTrip gone (some e.tripID) }

/-- The ids of the rows of a table for which `p` holds. -/
def select (db : Db) (t : Table) (p : StoredRow → Bool) : List String :=
  (db.rows.entries.filter fun e => e.1.table = t && p e.2).map (·.1.id)

/-- The trip that a log entry names is there. -/
def hasTrip (db : Db) (tripID : Option String) : Bool :=
  match tripID with
  | none => true
  | some id => (db.rows.lookup ⟨.trips, id⟩).isSome

end Db

end JitPack
