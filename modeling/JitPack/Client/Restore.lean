import JitPack.Lib.Keyed
import JitPack.Client.PackState

/-!
# Undoing a removal

A row that was removed is put back under its own id by an insert that spells its columns out, and an insert's fields are
the whole row: a column that the insert leaves out is read back as null. So the row comes back as it was, the server's
stamps aside, exactly if the columns left out were null (`undo_iff`). The ones left out are four of a row of the packing
list and one of an entry of the shopping list.
-/

namespace JitPack

namespace Restore

open PackState

/-! ## Rows of the packing list -/

/-- `TripItem`, with all its columns. -/
@[ext]
structure HeldTripItem extends TripItem where
  packerUserId : Option String
  packedByUserId : Option String
  packedAt : Option String
  containerId : Option String
  packingNowBy : Option String
  packingNowAt : Option String
  flagUnused : Bool
  flagMissing : Bool
  neededQuantity : Option ℕ
  carriedOverAt : Option String
  shoppingPosition : Option ℤ
  packNote : Option String
  boughtFrom : Option ShoppingMode
  boughtAt : Option String
  boughtByUserId : Option String
  updatedHlc : String
  deriving DecidableEq

/-- The fields of a mutation on `trip_items`: a column it does not name is `none`, and a null is `some none`. -/
structure TripItemFields where
  tripId : Option String := none
  sourceItemId : Option (Option ItemId) := none
  sourceTemplateId : Option (Option String) := none
  name : Option String := none
  weightGrams : Option (Option ℚ) := none
  valueCents : Option (Option ℚ) := none
  categoryName : Option (Option String) := none
  quantity : Option ℕ := none
  packedCount : Option ℕ := none
  state : Option ItemState := none
  mode : Option ItemMode := none
  latePacker : Option ℕ := none
  assignedTravelerId : Option (Option String) := none
  packerUserId : Option (Option String) := none
  packedByUserId : Option (Option String) := none
  packedAt : Option (Option String) := none
  containerId : Option (Option String) := none
  packingNowBy : Option (Option String) := none
  packingNowAt : Option (Option String) := none
  boughtFrom : Option (Option ShoppingMode) := none
  boughtAt : Option (Option String) := none
  boughtByUserId : Option (Option String) := none
  flagUnused : Option ℕ := none
  flagMissing : Option ℕ := none
  carriedOverAt : Option (Option String) := none
  shoppingPosition : Option (Option ℤ) := none
  packNote : Option (Option String) := none
  neededQuantity : Option (Option ℕ) := none
  updatedHlc : Option String := none

/-- `dbBool`. -/
def dbBool (value : Bool) : ℕ := if value then 1 else 0

/-- `Boolean` of a column. -/
def boolean (column : Option ℕ) : Bool := column.getD 0 ≠ 0

@[simp] theorem boolean_dbBool (value : Bool) : boolean (some (dbBool value)) = value := by cases value <;> rfl

/-- `rowToTripItem`. An insert that names no trip or no name does not occur. -/
def rowToTripItem (id : String) (row : TripItemFields) : HeldTripItem where
  id := id
  tripId := row.tripId.getD ""
  sourceItemId := row.sourceItemId.join
  sourceTemplateId := row.sourceTemplateId.join
  name := row.name.getD ""
  weightGrams := row.weightGrams.join
  valueCents := row.valueCents.join
  categoryName := row.categoryName.join
  quantity := row.quantity.getD 1
  packedCount := row.packedCount.getD 0
  state := row.state.getD .opened
  mode := row.mode.getD .pack
  latePacker := boolean row.latePacker
  assignedTravelerId := row.assignedTravelerId.join
  packerUserId := row.packerUserId.join
  packedByUserId := row.packedByUserId.join
  packedAt := row.packedAt.join
  containerId := row.containerId.join
  packingNowBy := row.packingNowBy.join
  packingNowAt := row.packingNowAt.join
  boughtFrom := row.boughtFrom.join
  boughtAt := row.boughtAt.join
  boughtByUserId := row.boughtByUserId.join
  flagUnused := boolean row.flagUnused
  flagMissing := boolean row.flagMissing
  carriedOverAt := row.carriedOverAt.join
  shoppingPosition := row.shoppingPosition.join
  packNote := row.packNote.join
  neededQuantity := row.neededQuantity.join
  updatedHlc := row.updatedHlc.getD ""

/-- `restoreTripItem`. -/
def restoreTripItem (row : HeldTripItem) : TripItemFields where
  tripId := some row.tripId
  name := some row.name
  sourceItemId := some row.sourceItemId
  sourceTemplateId := some row.sourceTemplateId
  categoryName := some row.categoryName
  weightGrams := some row.weightGrams
  valueCents := some row.valueCents
  quantity := some row.quantity
  packedCount := some row.packedCount
  state := some row.state
  mode := some row.mode
  latePacker := some (dbBool row.latePacker)
  assignedTravelerId := some row.assignedTravelerId
  packerUserId := some row.packerUserId
  containerId := some row.containerId
  flagUnused := some (dbBool row.flagUnused)
  flagMissing := some (dbBool row.flagMissing)
  neededQuantity := some row.neededQuantity
  boughtFrom := some row.boughtFrom

/-- The columns that the client writes: all but who packed, bought and holds the row, when it was packed and since when
it is held, and the clock of the last write. -/
def HeldTripItem.clientColumns (row : HeldTripItem) : HeldTripItem :=
  { row with
    packedByUserId := none, packedAt := none, packingNowBy := none, packingNowAt := none, boughtByUserId := none
    updatedHlc := "" }

/-- The rows that a device holds after `deleteTripItem` and the undo's insert (`optimisticInsert`). -/
def undoTripItem (rows : List HeldTripItem) (row : HeldTripItem) : List HeldTripItem :=
  Keyed.put (·.id) (Keyed.drop (·.id) rows row.id) (rowToTripItem row.id (restoreTripItem row))

/-! ## Entries of the shopping list -/

/-- `ShoppingEntry`. -/
@[ext]
structure ShoppingEntry where
  id : String
  tripId : String
  name : String
  list : ShoppingMode
  bought : Bool
  tag : Option String
  boughtAt : Option String
  boughtByUserId : Option String
  dueDate : Option String
  assigneeUserId : Option String
  carriedOverAt : Option String
  position : Option ℤ
  ideaId : Option String
  deriving DecidableEq

/-- The fields of a mutation on `shopping_entries`. -/
structure ShoppingEntryFields where
  tripId : Option String := none
  name : Option String := none
  list : Option ShoppingMode := none
  bought : Option ℕ := none
  tag : Option (Option String) := none
  boughtAt : Option (Option String) := none
  boughtByUserId : Option (Option String) := none
  dueDate : Option (Option String) := none
  assigneeUserId : Option (Option String) := none
  carriedOverAt : Option (Option String) := none
  position : Option (Option ℤ) := none
  ideaId : Option (Option String) := none

/-- `rowToShoppingEntry`. -/
def rowToShoppingEntry (id : String) (row : ShoppingEntryFields) : ShoppingEntry where
  id := id
  tripId := row.tripId.getD ""
  name := row.name.getD ""
  list := row.list.getD .buyLocal
  bought := boolean row.bought
  tag := row.tag.join
  boughtAt := row.boughtAt.join
  boughtByUserId := row.boughtByUserId.join
  dueDate := row.dueDate.join
  assigneeUserId := row.assigneeUserId.join
  carriedOverAt := row.carriedOverAt.join
  position := row.position.join
  ideaId := row.ideaId.join

/-- `restoreEntry`. -/
def restoreEntry (entry : ShoppingEntry) : ShoppingEntryFields where
  tripId := some entry.tripId
  name := some entry.name
  list := some entry.list
  bought := some (dbBool entry.bought)
  tag := some entry.tag
  boughtAt := some entry.boughtAt
  dueDate := some entry.dueDate
  assigneeUserId := some entry.assigneeUserId
  carriedOverAt := some entry.carriedOverAt
  position := some entry.position

/-- The columns that the client writes: all but who bought it. -/
def ShoppingEntry.clientColumns (entry : ShoppingEntry) : ShoppingEntry := { entry with boughtByUserId := none }

/-- The entries that a device holds after `removeEntry` and `restoreEntry`. -/
def undoEntry (entries : List ShoppingEntry) (entry : ShoppingEntry) : List ShoppingEntry :=
  Keyed.put (·.id) (Keyed.drop (·.id) entries entry.id) (rowToShoppingEntry entry.id (restoreEntry entry))

/-! ## What comes back -/

/-- The columns that `restoreTripItem` leaves out, as far as they are the client's, are null. -/
def HeldTripItem.Restorable (row : HeldTripItem) : Prop :=
  row.packNote = none ∧ row.carriedOverAt = none ∧ row.shoppingPosition = none ∧ row.boughtAt = none

/-- A restored row is the row removed without the columns that the insert leaves out. -/
theorem rowToTripItem_restore (row : HeldTripItem) : (rowToTripItem row.id (restoreTripItem row)).clientColumns =
    { row.clientColumns with packNote := none, carriedOverAt := none, shoppingPosition := none, boughtAt := none } := by
  ext <;> simp [rowToTripItem, restoreTripItem, HeldTripItem.clientColumns]

theorem restoreTripItem_iff (row : HeldTripItem) :
    (rowToTripItem row.id (restoreTripItem row)).clientColumns = row.clientColumns ↔ row.Restorable := by
  rw [rowToTripItem_restore]
  constructor
  · intro h
    exact ⟨(congrArg (·.packNote) h).symm, (congrArg (·.carriedOverAt) h).symm,
      (congrArg (·.shoppingPosition) h).symm, (congrArg (·.boughtAt) h).symm⟩
  · rintro ⟨hnote, hcarried, hposition, hbought⟩
    ext <;> simp [HeldTripItem.clientColumns, hnote, hcarried, hposition, hbought]

theorem rowToShoppingEntry_restore (entry : ShoppingEntry) :
    (rowToShoppingEntry entry.id (restoreEntry entry)).clientColumns = { entry.clientColumns with ideaId := none } := by
  ext <;> simp [rowToShoppingEntry, restoreEntry, ShoppingEntry.clientColumns]

theorem restoreEntry_iff (entry : ShoppingEntry) :
    (rowToShoppingEntry entry.id (restoreEntry entry)).clientColumns = entry.clientColumns ↔ entry.ideaId = none := by
  rw [rowToShoppingEntry_restore]
  constructor
  · exact fun h => (congrArg (·.ideaId) h).symm
  · intro hidea
    ext <;> simp [ShoppingEntry.clientColumns, hidea]

/-- What is put back under a key is what the key holds, and the other rows are held as before. -/
theorem mem_put_drop {α κ : Type*} [DecidableEq κ] {key : α → κ} {rows : List α} {a b : α} {k : κ} (hb : key b = k) :
    a ∈ Keyed.put key (Keyed.drop key rows k) b ↔ a = b ∨ a ∈ rows ∧ key a ≠ k := by
  rw [Keyed.mem_put, Keyed.mem_drop, hb]
  tauto

/-- **Undoing a removal puts the row back as it was exactly if the columns that the insert leaves out were null**, and
leaves the other rows alone. -/
theorem undo_iff (rows : List HeldTripItem) (row : HeldTripItem) (entries : List ShoppingEntry) (entry : ShoppingEntry) :
    ((∀ x, x ∈ undoTripItem rows row ∧ x.id ≠ row.id ↔ x ∈ rows ∧ x.id ≠ row.id) ∧
      ((∀ x ∈ undoTripItem rows row, x.id = row.id → x.clientColumns = row.clientColumns) ↔ row.Restorable)) ∧
    (∀ x, x ∈ undoEntry entries entry ∧ x.id ≠ entry.id ↔ x ∈ entries ∧ x.id ≠ entry.id) ∧
      ((∀ x ∈ undoEntry entries entry, x.id = entry.id → x.clientColumns = entry.clientColumns) ↔
        entry.ideaId = none) := by
  have hrow : ∀ x, x ∈ undoTripItem rows row ↔
      x = rowToTripItem row.id (restoreTripItem row) ∨ x ∈ rows ∧ x.id ≠ row.id := fun x => mem_put_drop rfl
  have hentry : ∀ x, x ∈ undoEntry entries entry ↔
      x = rowToShoppingEntry entry.id (restoreEntry entry) ∨ x ∈ entries ∧ x.id ≠ entry.id := fun x => mem_put_drop rfl
  refine ⟨⟨fun x => ?_, ?_⟩, fun x => ?_, ?_⟩
  · rw [hrow]
    constructor
    · rintro ⟨rfl | hx, hne⟩
      exacts [absurd rfl hne, hx]
    · exact fun hx => ⟨.inr hx, hx.2⟩
  · rw [← restoreTripItem_iff]
    constructor
    · exact fun h => h _ ((hrow _).2 (.inl rfl)) rfl
    · intro h x hx hid
      rcases (hrow x).1 hx with rfl | hx
      exacts [h, absurd hid hx.2]
  · rw [hentry]
    constructor
    · rintro ⟨rfl | hx, hne⟩
      exacts [absurd rfl hne, hx]
    · exact fun hx => ⟨.inr hx, hx.2⟩
  · rw [← restoreEntry_iff]
    constructor
    · exact fun h => h _ ((hentry _).2 (.inl rfl)) rfl
    · intro h x hx hid
      rcases (hentry x).1 hx with rfl | hx
      exacts [h, absurd hid hx.2]

/-- A note on the row is lost: a pair of trousers, packed as jeans. -/
def trousers : HeldTripItem :=
  { rowToTripItem "row" { tripId := some "trip", name := some "trousers" } with packNote := some "jeans" }

theorem trousers_lose_their_note : ¬ ∀ (rows : List HeldTripItem) (row : HeldTripItem), row ∈ rows →
    ∀ x ∈ undoTripItem rows row, x.id = row.id → x.clientColumns = row.clientColumns := by
  intro h
  have hnote := h [trousers] trousers (by simp) (rowToTripItem "row" (restoreTripItem trousers))
    ((mem_put_drop rfl).2 (.inl rfl)) rfl
  exact absurd (congrArg (·.packNote) hnote) (by decide)

end Restore

end JitPack
