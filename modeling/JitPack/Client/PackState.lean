import JitPack.Lib.Machine
import JitPack.Client.Refresh

/-!
# The pack state of a row

A row of the packing list carries an amount, a packed count and a state, and the state is a reading of the two numbers
(`stateFor`), except where somebody holds the row and where the row is skipped (`Consistent`). Each writer sets its own
part of the three: some derive the state from the numbers, some name it.

A writer that names the state leaves a consistent row consistent exactly if the numbers it assumes are those of the row
(`consistent_write_iff`). So the rows of a run are consistent throughout exactly if the row was added with such numbers
and each write met them (`consistent_run_iff`).
-/

namespace JitPack

namespace PackState

/-! ## Rows and what is written to them -/

/-- `ShoppingMode`. -/
inductive ShoppingMode where
  | buyBefore
  | buyLocal
  deriving DecidableEq

def ShoppingMode.mode : ShoppingMode → ItemMode
  | .buyBefore => .buyBefore
  | .buyLocal => .buyLocal

/-- `TripItem`, as far as packing, skipping and buying read and write it. -/
@[ext]
structure PackRow where
  quantity : ℤ
  packedCount : ℤ
  state : ItemState
  mode : ItemMode
  packedAt : Option String
  packingNowBy : Option String
  packingNowAt : Option String
  boughtFrom : Option ShoppingMode
  boughtAt : Option String
  boughtByUserId : Option String
  deriving DecidableEq

/-- The fields of an upsert: a column it does not name is `none`. -/
structure PackFields where
  quantity : Option ℤ := none
  packedCount : Option ℤ := none
  state : Option ItemState := none
  mode : Option ItemMode := none
  packedAt : Option (Option String) := none
  packingNowBy : Option (Option String) := none
  packingNowAt : Option (Option String) := none
  boughtFrom : Option (Option ShoppingMode) := none
  boughtAt : Option (Option String) := none
  boughtByUserId : Option (Option String) := none

/-- `optimisticUpdate`: the fields are laid over the row as it is held. -/
def PackRow.paint (row : PackRow) (fields : PackFields) : PackRow where
  quantity := fields.quantity.getD row.quantity
  packedCount := fields.packedCount.getD row.packedCount
  state := fields.state.getD row.state
  mode := fields.mode.getD row.mode
  packedAt := fields.packedAt.getD row.packedAt
  packingNowBy := fields.packingNowBy.getD row.packingNowBy
  packingNowAt := fields.packingNowAt.getD row.packingNowAt
  boughtFrom := fields.boughtFrom.getD row.boughtFrom
  boughtAt := fields.boughtAt.getD row.boughtAt
  boughtByUserId := fields.boughtByUserId.getD row.boughtByUserId

/-- `stateFor`. -/
def stateFor (packedCount quantity : ℤ) : ItemState :=
  if quantity ≤ 0 then .skipped
  else
    let packed := min (max packedCount 0) quantity
    if packed = 0 then .opened else if packed ≥ quantity then .packed else .partlyPacked

/-- A number as the client has it. -/
inductive Number where
  | nan
  | negInfinity
  | finite (value : ℚ)
  | infinity
  deriving DecidableEq

/-- `QUANTITY_MIN`. -/
def quantityMin : ℤ := 1

/-- `QUANTITY_MAX`. -/
def quantityMax : ℤ := 99

/-- `clampQuantity`. -/
def clampQuantity : Number → ℤ
  | .nan => quantityMin
  | .negInfinity => quantityMin
  | .finite value => min quantityMax (max quantityMin ⌊value⌋)
  | .infinity => quantityMax

/-! ## The writers -/

/-- `CLIENT_ACTOR_PLACEHOLDER`. -/
def clientActorPlaceholder : String := "current-user"

section
variable (now : String)

/-- `packItem`: a claim on the row ends. -/
def packItem (packedCount : ℤ) (state : ItemState) : PackFields where
  packedCount := some packedCount
  state := some state
  packingNowBy := some none
  packingNowAt := some none
  packedAt := some (if state = .packed then some now else none)

/-- `startPackingNow`. -/
def startPackingNow : PackFields where
  state := some .packingNow
  packingNowBy := some (some clientActorPlaceholder)
  packingNowAt := some (some now)

/-- `releasePackingNow`. -/
def releasePackingNow (packedCount quantity : ℤ) : PackFields where
  state := some (stateFor packedCount quantity)
  packingNowBy := some none
  packingNowAt := some none

/-- `incrementPacked`. -/
def incrementPacked (currentPacked quantity : ℤ) : PackFields :=
  let newPacked := min (currentPacked + 1) quantity
  packItem now newPacked (stateFor newPacked quantity)

/-- `decrementPacked`. -/
def decrementPacked (currentPacked quantity : ℤ) : PackFields :=
  let newPacked := max (currentPacked - 1) 0
  packItem now newPacked (stateFor newPacked quantity)

/-- `completePacked`. -/
def completePacked (quantity : ℤ) : PackFields := packItem now quantity .packed

/-- `zeroPacked`. -/
def zeroPacked : PackFields := packItem now 0 .opened

/-- `togglePacked`. -/
def togglePacked (currentPacked : ℤ) : PackFields :=
  if currentPacked > 0 then packItem now 0 .opened else packItem now 1 .packed

/-- `setQuantity`: a claim on the row outlives it. -/
def setQuantity (quantity : Number) (currentPacked : ℤ) (currentState : ItemState) : PackFields :=
  let wanted := clampQuantity quantity
  let packed := min (max currentPacked 0) wanted
  { quantity := some wanted
    packedCount := some packed
    state := if currentState = .packingNow then none else some (stateFor packed wanted) }

/-- `skipItem`. -/
def skipItem : PackFields where
  quantity := some 0
  packedCount := some 0
  state := some .skipped

/-- `closeRowUnpacked`. -/
def closeRowUnpacked : PackFields :=
  { skipItem with packingNowBy := some none, packingNowAt := some none }

/-- `closeRowPartlyPacked`. -/
def closeRowPartlyPacked (packedCount : ℤ) : PackFields where
  quantity := some packedCount
  packedCount := some packedCount
  state := some .packed
  packingNowBy := some none
  packingNowAt := some none

/-- `unskipItem`. -/
def unskipItem : PackFields where
  quantity := some 1
  packedCount := some 0
  state := some .opened

/-- `buyItem`: buying at the destination packs the row. -/
def buyItem (source : ShoppingMode) (quantity : ℤ) : PackFields :=
  match source with
  | .buyLocal => { packItem now quantity .packed with boughtFrom := some (some source), boughtAt := some (some now) }
  | .buyBefore => { boughtFrom := some (some source), boughtAt := some (some now), mode := some .pack }

/-- `unbuyItem`. -/
def unbuyItem (source : ShoppingMode) : PackFields :=
  match source with
  | .buyLocal =>
    { packItem now 0 .opened with boughtFrom := some none, boughtAt := some none, boughtByUserId := some none }
  | .buyBefore =>
    { boughtFrom := some none, boughtAt := some none, boughtByUserId := some none, mode := some source.mode }

end

/-- What can be done to a row. -/
inductive PackWrite where
  | packIncrement
  | packDecrement
  | packComplete
  | packZero
  | packToggle
  | setQuantity (quantity : Number)
  | skip
  | unskip
  | claim
  | release
  | buy (source : ShoppingMode)
  | unbuy (source : ShoppingMode)
  | closeUnpacked
  | closePartlyPacked

/-- The mutation an action makes of the row as it is held. -/
def PackWrite.fields (row : PackRow) (now : String) : PackWrite → PackFields
  | packIncrement => incrementPacked now row.packedCount row.quantity
  | packDecrement => decrementPacked now row.packedCount row.quantity
  | packComplete => completePacked now row.quantity
  | packZero => zeroPacked now
  | packToggle => togglePacked now row.packedCount
  | setQuantity quantity => PackState.setQuantity quantity row.packedCount row.state
  | skip => skipItem
  | unskip => unskipItem
  | claim => startPackingNow now
  | release => releasePackingNow row.packedCount row.quantity
  | buy source => buyItem now source row.quantity
  | unbuy source => unbuyItem now source
  | closeUnpacked => closeRowUnpacked
  | closePartlyPacked => closeRowPartlyPacked row.packedCount

/-- A row under the writes made to it, each with the moment of its tap. -/
def packing : Machine PackRow (String × PackWrite) Unit where
  step row w := ((), row.paint (w.2.fields row w.1))

/-! ## Added rows -/

/-- `AddedItemDecision`. -/
inductive AddedItemDecision where
  | packed
  | skipped
  | forgotten
  deriving DecidableEq

/-- How a row comes onto the list. -/
inductive AddedRow where
  | addTripItem (quantity : Option ℕ) (mode : Option ItemMode) (decided : Option AddedItemDecision)
  | addGeneratedTripItem (quantity : ℕ) (mode : ItemMode)

/-- `addTripItem` and `addGeneratedTripItem`, read by `rowToTripItem`: a column they leave out is null. -/
def AddedRow.row (now : String) : AddedRow → PackRow
  | addTripItem quantity mode decided =>
    let packed := decided = some .packed
    let skipped := decided = some .skipped ∨ decided = some .forgotten
    { quantity := if skipped then 0 else (quantity.getD 1 : ℕ)
      packedCount := if packed then 1 else 0
      state := if skipped then .skipped else if packed then .packed else .opened
      mode := mode.getD .pack
      packedAt := if packed then some now else none
      packingNowBy := none, packingNowAt := none, boughtFrom := none, boughtAt := none, boughtByUserId := none }
  | addGeneratedTripItem quantity mode =>
    { quantity := quantity
      packedCount := 0
      state := if quantity = 0 then .skipped else .opened
      mode := mode
      packedAt := none
      packingNowBy := none, packingNowAt := none, boughtFrom := none, boughtAt := none, boughtByUserId := none }

/-! ## Consistent rows -/

/-- The numbers fit and the state is read off them, unless somebody holds the row or it is skipped. -/
structure Consistent (row : PackRow) : Prop where
  nonneg : 0 ≤ row.packedCount
  le : row.packedCount ≤ row.quantity
  reads : row.state ≠ .packingNow → row.state ≠ .skipped → row.state = stateFor row.packedCount row.quantity

section
variable {row : PackRow} {c q : ℤ} {now : String} {s : ItemState}

theorem one_le_clampQuantity : ∀ n : Number, 1 ≤ clampQuantity n
  | .nan | .negInfinity | .infinity => by decide
  | .finite value => le_min (by decide) (le_max_left _ _)

theorem stateFor_eq_opened_iff (h0 : 0 ≤ c) (hle : c ≤ q) : stateFor c q = .opened ↔ c = 0 ∧ 0 < q := by
  unfold stateFor
  dsimp only
  split_ifs <;> simp <;> omega

theorem stateFor_eq_packed_iff (h0 : 0 ≤ c) (hle : c ≤ q) : stateFor c q = .packed ↔ c = q ∧ 0 < q := by
  unfold stateFor
  dsimp only
  split_ifs <;> simp <;> omega

/-- A row that reads as its numbers do. -/
theorem Consistent.of_stateFor (h0 : 0 ≤ row.packedCount) (hle : row.packedCount ≤ row.quantity)
    (h : row.state = stateFor row.packedCount row.quantity) : Consistent row :=
  ⟨h0, hle, fun _ _ => h⟩

/-- A row whose state says `opened` counts nothing and has an amount. -/
theorem consistent_iff_of_opened (h : row.state = .opened) (hc : row.packedCount = 0) :
    Consistent row ↔ 0 < row.quantity := by
  refine ⟨fun hrow => ?_, fun hq => ⟨hc.ge, hc.trans_le hq.le, fun _ _ => ?_⟩⟩
  · have hreads := hrow.reads (by simp [h]) (by simp [h])
    rw [h] at hreads
    exact ((stateFor_eq_opened_iff hrow.nonneg hrow.le).1 hreads.symm).2
  · rw [h, (stateFor_eq_opened_iff hc.ge (hc.trans_le hq.le)).2 ⟨hc, hq⟩]

/-- A row whose state says `packed` counts its whole amount. -/
theorem consistent_iff_of_packed (h : row.state = .packed) :
    Consistent row ↔ row.packedCount = row.quantity ∧ 0 < row.quantity := by
  refine ⟨fun hrow => ?_, fun ⟨hc, hq⟩ => ⟨by omega, hc.le, fun _ _ => ?_⟩⟩
  · have hreads := hrow.reads (by simp [h]) (by simp [h])
    rw [h] at hreads
    exact (stateFor_eq_packed_iff hrow.nonneg hrow.le).1 hreads.symm
  · rw [h, (stateFor_eq_packed_iff (by omega) hc.le).2 ⟨hc, hq⟩]

theorem consistent_of_skipped (h : row.state = .skipped) (h0 : 0 ≤ row.packedCount)
    (hle : row.packedCount ≤ row.quantity) : Consistent row :=
  ⟨h0, hle, fun _ hs => absurd h hs⟩

/-! ## What a write does to a consistent row -/

/-- The numbers a write takes for granted are those of the row. -/
def PackWrite.Fits (row : PackRow) : PackWrite → Prop
  | packComplete => 0 < row.quantity
  | packZero => 0 < row.quantity
  | packToggle => 0 < row.packedCount ∨ row.quantity = 1
  | buy source => source = .buyLocal → 0 < row.quantity
  | unbuy source => source = .buyLocal → 0 < row.quantity
  | closePartlyPacked => 0 < row.packedCount
  | _ => True

/-- A row after `packItem`, whatever else the mutation writes beside it. -/
theorem consistent_packed_iff {f : PackFields} (hq : f.quantity = none) (hc : f.packedCount = some row.quantity)
    (hs : f.state = some .packed) : Consistent (row.paint f) ↔ 0 < row.quantity := by
  rw [consistent_iff_of_packed (by simp [PackRow.paint, hs])]
  simp [PackRow.paint, hq, hc]

theorem consistent_opened_iff {f : PackFields} (hq : f.quantity = none) (hc : f.packedCount = some 0)
    (hs : f.state = some .opened) : Consistent (row.paint f) ↔ 0 < row.quantity := by
  rw [consistent_iff_of_opened (by simp [PackRow.paint, hs]) (by simp [PackRow.paint, hc])]
  simp [PackRow.paint, hq]

/-- A write that keeps amount, count and state keeps the row consistent. -/
theorem Consistent.paint {f : PackFields} (h : Consistent row) (hq : f.quantity = none) (hc : f.packedCount = none)
    (hs : f.state = none) : Consistent (row.paint f) where
  nonneg := by simpa [PackRow.paint, hc] using h.nonneg
  le := by simpa [PackRow.paint, hc, hq] using h.le
  reads := by simpa [PackRow.paint, hc, hq, hs] using h.reads

theorem consistent_toggle_iff (h : Consistent row) :
    Consistent (row.paint (togglePacked now row.packedCount)) ↔ 0 < row.packedCount ∨ row.quantity = 1 := by
  have h0 := h.nonneg
  have hle := h.le
  unfold togglePacked
  split
  case isTrue hc =>
    rw [consistent_opened_iff rfl rfl rfl]
    omega
  case isFalse hc =>
    rw [consistent_iff_of_packed rfl]
    simp only [PackRow.paint, packItem, Option.getD_some, Option.getD_none]
    omega

theorem consistent_setQuantity (h : Consistent row) (n : Number) :
    Consistent (row.paint (setQuantity n row.packedCount row.state)) := by
  have hn := one_le_clampQuantity n
  have h0 := h.nonneg
  refine ⟨?_, ?_, fun hnow _ => ?_⟩
  · simp [setQuantity, PackRow.paint]
    omega
  · simp [setQuantity, PackRow.paint]
  · by_cases hclaim : row.state = .packingNow
    · exact absurd (by simp [setQuantity, PackRow.paint, hclaim]) hnow
    · simp [setQuantity, PackRow.paint, hclaim]

/-- **A write to a consistent row leaves it consistent exactly if it fits.** -/
theorem consistent_write_iff (h : Consistent row) (w : PackWrite) :
    Consistent (row.paint (w.fields row now)) ↔ w.Fits row := by
  have h0 := h.nonneg
  have hle := h.le
  cases w with
  | packIncrement =>
    refine iff_of_true (.of_stateFor ?_ ?_ rfl) trivial
    · simp [PackWrite.fields, incrementPacked, packItem, PackRow.paint]
      omega
    · simp [PackWrite.fields, incrementPacked, packItem, PackRow.paint]
  | packDecrement =>
    refine iff_of_true (.of_stateFor ?_ ?_ rfl) trivial
    · simp [PackWrite.fields, decrementPacked, packItem, PackRow.paint]
    · simp [PackWrite.fields, decrementPacked, packItem, PackRow.paint]
      omega
  | packComplete => exact consistent_packed_iff rfl rfl rfl
  | packZero => exact consistent_opened_iff rfl rfl rfl
  | packToggle => exact consistent_toggle_iff h
  | setQuantity n => exact iff_of_true (consistent_setQuantity h n) trivial
  | skip => exact iff_of_true (consistent_of_skipped rfl le_rfl le_rfl) trivial
  | unskip => exact iff_of_true ((consistent_iff_of_opened rfl rfl).2 Int.one_pos) trivial
  | claim => exact iff_of_true ⟨h0, hle, fun hnow _ => absurd rfl hnow⟩ trivial
  | release => exact iff_of_true (.of_stateFor h0 hle rfl) trivial
  | buy source =>
    cases source with
    | buyBefore => exact iff_of_true (h.paint rfl rfl rfl) fun hs => nomatch hs
    | buyLocal => exact (consistent_packed_iff rfl rfl rfl).trans ⟨fun hq _ => hq, fun hq => hq rfl⟩
  | unbuy source =>
    cases source with
    | buyBefore => exact iff_of_true (h.paint rfl rfl rfl) fun hs => nomatch hs
    | buyLocal => exact (consistent_opened_iff rfl rfl rfl).trans ⟨fun hq _ => hq, fun hq => hq rfl⟩
  | closeUnpacked => exact iff_of_true (consistent_of_skipped rfl le_rfl le_rfl) trivial
  | closePartlyPacked =>
    rw [PackWrite.fields, consistent_iff_of_packed rfl]
    exact and_iff_right rfl

end

/-! ## The close -/

/-- `planPackingClose`, of one row: the write that closing the packing makes to it. -/
def planPackingClose (row : PackRow) : Option PackWrite :=
  if row.mode ≠ .pack then none
  else if row.state = .skipped then none
  else match stateFor row.packedCount row.quantity with
    | .opened => some .closeUnpacked
    | .partlyPacked => some .closePartlyPacked
    | _ => none

/-- The close trims a row to what is in the bag only where something is. -/
theorem planPackingClose_fits {row : PackRow} {w : PackWrite} (h : planPackingClose row = some w) : w.Fits row := by
  unfold planPackingClose at h
  split_ifs at h
  split at h
  case _ => cases h; trivial
  case _ hpartly =>
    cases h
    unfold stateFor at hpartly
    dsimp only at hpartly
    split_ifs at hpartly
    show 0 < row.packedCount
    omega
  case _ => cases h

/-! ## Runs -/

/-- The amount an added row takes for granted. -/
def AddedRow.Fits : AddedRow → Prop
  | addTripItem quantity _ (some .packed) => quantity.getD 1 = 1
  | addTripItem quantity _ none => quantity.getD 1 ≠ 0
  | _ => True

theorem consistent_row_iff {now : String} (a : AddedRow) : Consistent (a.row now) ↔ a.Fits := by
  cases a with
  | addTripItem quantity mode decided =>
    match decided with
    | none =>
      refine (consistent_iff_of_opened rfl rfl).trans ?_
      simp [AddedRow.row, AddedRow.Fits, Nat.pos_iff_ne_zero]
    | some .packed =>
      refine (consistent_iff_of_packed rfl).trans ?_
      simp only [AddedRow.row, AddedRow.Fits]
      simp
      omega
    | some .skipped | some .forgotten => exact iff_of_true (consistent_of_skipped rfl le_rfl le_rfl) trivial
  | addGeneratedTripItem quantity mode =>
    refine iff_of_true ?_ trivial
    by_cases hq : quantity = 0
    · exact consistent_of_skipped (by simp [AddedRow.row, hq]) le_rfl (by simp [AddedRow.row])
    · refine (consistent_iff_of_opened (by simp [AddedRow.row, hq]) rfl).2 ?_
      simp [AddedRow.row, Nat.pos_of_ne_zero hq]

/-- **A row is consistent throughout a run exactly if it was added with an amount that fits and every write to it
fitted the row as it then was.** -/
theorem consistent_run_iff (added : AddedRow) (now : String) (ws : List (String × PackWrite)) :
    (∀ pre, pre <+: ws → Consistent (packing.after (added.row now) pre)) ↔
      added.Fits ∧ packing.Legal (fun row w => w.2.Fits row) (added.row now) ws := by
  have hrow : Consistent (added.row now) ↔ added.Fits := consistent_row_iff added
  rw [← hrow]
  exact packing.invariant_iff_legal fun row w h => consistent_write_iff h w.2

/-- A skipped row that is packed whole says it is packed, of an amount of nothing. -/
theorem skipped_row_packed :
    ¬ ∀ (added : AddedRow) (now : String) (ws : List (String × PackWrite)) (pre : List (String × PackWrite)),
      pre <+: ws → Consistent (packing.after (added.row now) pre) := by
  intro h
  have hrow := h (.addGeneratedTripItem 2 .pack) "08:00" [("08:01", .skip), ("08:02", .packComplete)] _
    (List.prefix_refl _)
  exact absurd (hrow.reads (by decide) (by decide)) (by decide)

end PackState

end JitPack
