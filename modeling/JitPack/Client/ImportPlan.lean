import JitPack.Lib.Grouping
import JitPack.Client.PackingView

/-!
# The import of a spreadsheet

The rows of a sheet are read one after another into categories and items, and each column of a trip into the amounts of
the items. A name that the sheet lists twice is one item, and the row that lists it again is filed under the first
(`Read.row`). A trip has each item once, with the largest amount that the rows of the item have in its column
(`tripItems_spec`).

A cell of nothing but question marks is read as an item without a name. That is the only way in which the plan goes
wrong (`plan_iff`).
-/

namespace JitPack

namespace Import

open Packing (trim)
open PackState (Number)

/-! ## Cells -/

/-- `toLowerCase` and `Number`. A text is in lower case empty only if it is empty. -/
structure Script where
  toLowerCase : String → String
  toLowerCase_eq_empty : ∀ text, toLowerCase text = "" ↔ text = ""
  number : String → Number

/-- A row or a column that a sheet does not have reads as empty. -/
abbrev Grid := List (List String)

def Grid.cell (grid : Grid) (row column : ℕ) : String := ((grid[row]?).bind (·[column]?)).getD ""

/-- `replace(',', '.')`. -/
def commaToPoint : List Char → List Char
  | [] => []
  | ',' :: cs => '.' :: cs
  | c :: cs => c :: commaToPoint cs

/-- `replace(/\?+$/, '')`. -/
def withoutMarks (text : String) : String := String.ofList (text.toList.reverse.dropWhile (· = '?')).reverse

/-- `endsWith('?')`. -/
def asks (text : String) : Bool := text.toList.getLast? = some '?'

/-- The name in the cell of an item. -/
def nameOf (raw : String) : String := if asks raw then trim (withoutMarks raw) else raw

section
variable (S : Script)

/-- `parseQuantity`. -/
def parseQuantity (value : String) : Option ℕ :=
  let v := S.toLowerCase (trim value)
  if v = "" then none
  else if v = "x" ∨ v = "✓" ∨ v = "✔" then some 1
  else
    match S.number (String.ofList (commaToPoint v.toList)) with
    | .finite n => if n ≤ 0 then none else some ⌈n⌉₊
    | _ => none

/-- `normalize`. -/
def normalize (name : String) : String := S.toLowerCase (trim name)

end

/-! ## The plan -/

/-- A column of a trip in `ImportMapping`. -/
structure TripColumn where
  column : ℕ
  name : String
  year : ℤ
  endDate : Option String
  seriesId : Option String

/-- `ImportMapping`. -/
structure ImportMapping where
  headerRows : ℕ
  itemColumn : ℕ
  categoryColumn : Option ℕ
  categoryRows : List ℕ
  trips : List TripColumn

/-- `ImportPlanItem`. -/
structure ImportPlanItem where
  name : String
  categoryName : Option String
  existingItemId : Option String
  hasOpenTask : Bool
  deriving DecidableEq

/-- An item of a trip, by its place in the plan. -/
structure ImportPlanTripItem where
  itemIndex : ℕ
  quantity : ℕ
  deriving DecidableEq

/-- `ImportPlanTrip`. -/
structure ImportPlanTrip where
  name : String
  year : ℤ
  endDate : Option String
  seriesId : Option String
  items : List ImportPlanTripItem
  deriving DecidableEq

/-- `ImportPlan`. -/
structure ImportPlan where
  newCategories : List String
  items : List ImportPlanItem
  trips : List ImportPlanTrip
  deriving DecidableEq

/-- What the rows were read into so far. -/
structure Reading where
  currentCategory : Option String
  newCategories : List String
  items : List ImportPlanItem
  rowToItemIndex : List (ℕ × ℕ)
  itemIndexByName : String → Option ℕ

def Reading.empty : Reading := ⟨none, [], [], [], fun _ => none⟩

/-- A category that the sheet names. -/
def Reading.enter (s : Reading) (category : String) : Reading :=
  { s with currentCategory := some category, newCategories := Insertion.add s.newCategories category }

section
variable (S : Script) (grid : Grid) (mapping : ImportMapping) (mergeDecisions : String → Option String)

/-- The category column on a row. -/
def forwardFill (s : Reading) (rowIdx : ℕ) : Reading :=
  match mapping.categoryColumn with
  | none => s
  | some column =>
    let cell := trim (grid.cell rowIdx column)
    if cell = "" then s else s.enter cell

/-- The question of a row is one about its item. -/
def question (items : List ImportPlanItem) (seen : ℕ) (raw : String) : List ImportPlanItem :=
  if asks raw then items.modify seen ({ · with hasOpenTask := true }) else items

/-- An item on a row. -/
def readItem (s : Reading) (rowIdx : ℕ) (raw : String) : Reading :=
  match s.itemIndexByName (normalize S (nameOf raw)) with
  | some seen =>
    { s with
      rowToItemIndex := s.rowToItemIndex ++ [(rowIdx, seen)]
      items := question s.items seen raw }
  | none =>
    { s with
      itemIndexByName := Function.update s.itemIndexByName (normalize S (nameOf raw)) (some s.items.length)
      rowToItemIndex := s.rowToItemIndex ++ [(rowIdx, s.items.length)]
      items := s.items ++ [⟨nameOf raw, s.currentCategory, mergeDecisions (nameOf raw), asks raw⟩] }

/-- The item cell of a row. -/
def itemCell (rowIdx : ℕ) : String := trim (grid.cell rowIdx mapping.itemColumn)

/-- One row. -/
def readRow (s : Reading) (rowIdx : ℕ) : Reading :=
  let s := forwardFill grid mapping s rowIdx
  let raw := itemCell grid mapping rowIdx
  if raw = "" then s
  else if rowIdx ∈ mapping.categoryRows then s.enter raw
  else readItem S mergeDecisions s rowIdx raw

/-- The rows below the header. -/
def rows : List ℕ := List.range' mapping.headerRows (grid.length - mapping.headerRows)

def readRows : Reading := (rows grid mapping).foldl (readRow S grid mapping mergeDecisions) Reading.empty

/-- The items of a trip. -/
def tripItems (rowToItemIndex : List (ℕ × ℕ)) (column : ℕ) : List ImportPlanTripItem :=
  let amounts := rowToItemIndex.filterMap fun r => (parseQuantity S (grid.cell r.1 column)).map (r.2, ·)
  (Grouping.group Prod.fst Prod.snd (fun most amount => max most amount.2) amounts).map fun e => ⟨e.1, e.2⟩

/-- `buildImportPlan`. -/
def buildImportPlan : ImportPlan :=
  let read := readRows S grid mapping mergeDecisions
  { newCategories := read.newCategories
    items := read.items
    trips := mapping.trips.map fun trip =>
      ⟨trip.name, trip.year, trip.endDate, trip.seriesId, tripItems S grid read.rowToItemIndex trip.column⟩ }

end

/-! ## What the plan is to be -/

/-- A row of an item: the cell is not empty, and the row is no category. -/
def IsDataRow (grid : Grid) (mapping : ImportMapping) (rowIdx : ℕ) : Prop :=
  itemCell grid mapping rowIdx ≠ "" ∧ rowIdx ∉ mapping.categoryRows

instance (grid : Grid) (mapping : ImportMapping) (rowIdx : ℕ) : Decidable (IsDataRow grid mapping rowIdx) :=
  inferInstanceAs (Decidable (_ ∧ _))

section
variable (S : Script) (grid : Grid) (mapping : ImportMapping)

/-- The name on a row, as names are compared. -/
def rowKey (rowIdx : ℕ) : String := normalize S (nameOf (itemCell grid mapping rowIdx))

/-- A row is of an item of the plan. -/
def IsRowOf (items : List ImportPlanItem) (rowIdx itemIndex : ℕ) : Prop :=
  (items[itemIndex]?).map (normalize S ·.name) = some (rowKey S grid mapping rowIdx)

/-- The amounts that the rows of an item have in a column. -/
def amountsOf (items : List ImportPlanItem) (column itemIndex : ℕ) : Set ℕ :=
  {q | ∃ r ∈ rows grid mapping, IsDataRow grid mapping r ∧ IsRowOf S grid mapping items r itemIndex ∧
    parseQuantity S (grid.cell r column) = some q}

/-- A trip of the plan. -/
structure TripOk (items : List ImportPlanItem) (column : ℕ) (listed : List ImportPlanTripItem) : Prop where
  once : (listed.map (·.itemIndex)).Nodup
  greatest : ∀ x ∈ listed, IsGreatest (amountsOf S grid mapping items column x.itemIndex) x.quantity
  absent : ∀ i, (∀ x ∈ listed, x.itemIndex ≠ i) ↔ amountsOf S grid mapping items column i = ∅

/-- The plan of a sheet. -/
structure PlanOk (mergeDecisions : String → Option String) (plan : ImportPlan) : Prop where
  named : ∀ item ∈ plan.items, item.name ≠ ""
  distinct : (plan.items.map (normalize S ·.name)).Nodup
  mapped : ∀ r ∈ rows grid mapping, IsDataRow grid mapping r → ∃! i, IsRowOf S grid mapping plan.items r i
  merged : plan.items.Pairwise fun a b => ∀ e, a.existingItemId = some e → b.existingItemId = some e →
    mergeDecisions a.name = some e ∧ mergeDecisions b.name = some e
  trips : List.Forall₂ (fun column trip => TripOk S grid mapping plan.items column.column trip.items)
    mapping.trips plan.trips

end

/-! ## One row after another -/

section
variable {S : Script} {grid : Grid} {mapping : ImportMapping} {mergeDecisions : String → Option String}
  {s s' : Reading} {done : List ℕ} {rowIdx : ℕ}

variable (S grid mapping mergeDecisions) in
/-- What the rows so far were read into. -/
structure Read (done : List ℕ) (s : Reading) : Prop where
  distinct : (s.items.map (normalize S ·.name)).Nodup
  index : ∀ n i, s.itemIndexByName n = some i ↔ (s.items[i]?).map (normalize S ·.name) = some n
  rows : s.rowToItemIndex.map Prod.fst = done.filter (IsDataRow grid mapping ·)
  rowOf : ∀ e ∈ s.rowToItemIndex, IsRowOf S grid mapping s.items e.1 e.2
  names : ∀ item ∈ s.items, ∃ r ∈ done, IsDataRow grid mapping r ∧ item.name = nameOf (itemCell grid mapping r)
  merges : ∀ item ∈ s.items, item.existingItemId = mergeDecisions item.name

theorem Read.empty : Read S grid mapping mergeDecisions [] Reading.empty where
  distinct := List.nodup_nil
  index n i := by simp [Reading.empty]
  rows := rfl
  rowOf e he := by cases he
  names item hitem := by cases hitem
  merges item hitem := by cases hitem

/-- The categories are read beside the items. -/
theorem Read.congr (h : Read S grid mapping mergeDecisions done s) (hitems : s'.items = s.items)
    (hrows : s'.rowToItemIndex = s.rowToItemIndex) (hindex : s'.itemIndexByName = s.itemIndexByName) :
    Read S grid mapping mergeDecisions done s' where
  distinct := hitems ▸ h.distinct
  index := by
    rw [hitems, hindex]
    exact h.index
  rows := hrows ▸ h.rows
  rowOf := by
    rw [hrows, hitems]
    exact h.rowOf
  names := hitems ▸ h.names
  merges := hitems ▸ h.merges

theorem Read.forwardFill (h : Read S grid mapping mergeDecisions done s) (rowIdx : ℕ) :
    Read S grid mapping mergeDecisions done (forwardFill grid mapping s rowIdx) := by
  unfold Import.forwardFill
  split
  · exact h
  · dsimp only
    split
    · exact h
    · exact h.congr rfl rfl rfl

theorem Read.skip (h : Read S grid mapping mergeDecisions done s) (hrow : ¬ IsDataRow grid mapping rowIdx) :
    Read S grid mapping mergeDecisions (done ++ [rowIdx]) s :=
  { h with
    rows := by
      rw [h.rows, List.filter_append, List.filter_singleton, decide_eq_false hrow, cond_false, List.append_nil]
    names := fun item hitem => by
      obtain ⟨r, hr, hname⟩ := h.names item hitem
      exact ⟨r, List.mem_append_left _ hr, hname⟩ }

theorem map_modify_of_fix {α β : Type*} {f : α → β} {g : α → α} (hg : ∀ a, f (g a) = f a) (l : List α)
    (i : ℕ) : (l.modify i g).map f = l.map f := by
  refine List.ext_getElem? fun j => ?_
  rw [List.getElem?_map, List.getElem?_map, List.getElem?_modify]
  cases l[j]? with
  | none => rfl
  | some a =>
    by_cases hij : i = j <;> simp [hij, hg]

theorem map_question {β : Type} {f : ImportPlanItem → β} (hf : ∀ a, f { a with hasOpenTask := true } = f a)
    {items : List ImportPlanItem} {seen : ℕ} {raw : String} : (question items seen raw).map f = items.map f := by
  unfold question
  split
  · exact map_modify_of_fix hf _ _
  · rfl

/-- A row of an item that is listed. -/
theorem Read.again {raw : String} {seen : ℕ} (h : Read S grid mapping mergeDecisions done s)
    (hrow : IsDataRow grid mapping rowIdx) (hraw : raw = itemCell grid mapping rowIdx)
    (hseen : s.itemIndexByName (normalize S (nameOf raw)) = some seen) :
    Read S grid mapping mergeDecisions (done ++ [rowIdx])
      { s with
        rowToItemIndex := s.rowToItemIndex ++ [(rowIdx, seen)]
        items := question s.items seen raw } := by
  have hkeys : (question s.items seen raw).map (normalize S ·.name) = s.items.map (normalize S ·.name) :=
    map_question fun _ => rfl
  have hkeyAt : ∀ i : ℕ, ((question s.items seen raw)[i]?).map (normalize S ·.name) =
      (s.items[i]?).map (normalize S ·.name) := by
    intro i
    rw [← List.getElem?_map, hkeys, List.getElem?_map]
  have hmem : ∀ item ∈ question s.items seen raw,
      ∃ old ∈ s.items, old.name = item.name ∧ old.existingItemId = item.existingItemId := by
    intro item hitem
    have hfacts : (question s.items seen raw).map (fun item => (item.name, item.existingItemId)) =
        s.items.map fun item => (item.name, item.existingItemId) := map_question fun _ => rfl
    obtain ⟨old, hold, heq⟩ := List.mem_map.1 (hfacts ▸ List.mem_map_of_mem hitem)
    exact ⟨old, hold, congrArg Prod.fst heq, congrArg Prod.snd heq⟩
  refine ⟨?_, ?_, ?_, ?_, ?_, ?_⟩
  · rw [hkeys]
    exact h.distinct
  · intro n i
    rw [hkeyAt]
    exact h.index n i
  · rw [List.map_append, h.rows, List.filter_append, List.filter_singleton, decide_eq_true hrow]
    rfl
  · intro e he
    unfold IsRowOf
    rw [hkeyAt]
    rcases List.mem_append.1 he with hold | hnew
    · exact h.rowOf e hold
    · cases List.mem_singleton.1 hnew
      rw [(h.index _ _).1 hseen, hraw, rowKey]
  · intro item hitem
    obtain ⟨old, hold, hname, -⟩ := hmem item hitem
    obtain ⟨r, hr, hdata, hnamed⟩ := h.names old hold
    exact ⟨r, List.mem_append_left _ hr, hdata, hname ▸ hnamed⟩
  · intro item hitem
    obtain ⟨old, hold, hname, hmerge⟩ := hmem item hitem
    rw [← hmerge, ← hname]
    exact h.merges old hold

/-- A row of a new item. -/
theorem Read.first {raw : String} {task : Bool} {category : Option String} (h : Read S grid mapping mergeDecisions done s)
    (hrow : IsDataRow grid mapping rowIdx) (hraw : raw = itemCell grid mapping rowIdx)
    (hnew : s.itemIndexByName (normalize S (nameOf raw)) = none) :
    Read S grid mapping mergeDecisions (done ++ [rowIdx])
      { s with
        itemIndexByName := Function.update s.itemIndexByName (normalize S (nameOf raw)) (some s.items.length)
        rowToItemIndex := s.rowToItemIndex ++ [(rowIdx, s.items.length)]
        items := s.items ++ [⟨nameOf raw, category, mergeDecisions (nameOf raw), task⟩] } := by
  have hfresh : ∀ i : ℕ, (s.items[i]?).map (normalize S ·.name) ≠ some (normalize S (nameOf raw)) := by
    intro i hi
    rw [(h.index _ i).2 hi] at hnew
    cases hnew
  refine ⟨?_, ?_, ?_, ?_, ?_, ?_⟩
  · rw [List.map_append, List.map_singleton, List.nodup_append]
    refine ⟨h.distinct, List.nodup_singleton _, ?_⟩
    rintro _ hold _ hlast rfl
    obtain ⟨item, hitem, hkey⟩ := List.mem_map.1 hold
    obtain ⟨i, hi⟩ := List.mem_iff_getElem?.1 hitem
    refine hfresh i ?_
    rw [hi, Option.map_some, hkey, List.mem_singleton.1 hlast]
  · intro n i
    show Function.update s.itemIndexByName _ _ n = _ ↔ ((s.items ++ _)[i]?).map _ = _
    rw [Function.update_apply]
    by_cases hn : n = normalize S (nameOf raw)
    · subst hn
      rw [if_pos rfl, List.getElem?_append]
      split
      · next hlt =>
        refine ⟨fun hi => ?_, fun hi => absurd hi (hfresh i)⟩
        cases hi
        exact absurd hlt (lt_irrefl _)
      · next hge =>
        rw [List.getElem?_singleton]
        split
        · next hzero => exact ⟨fun _ => rfl, fun _ => congrArg some (by omega)⟩
        · next hpos => exact ⟨fun hi => absurd (Option.some.inj hi) (by omega), fun hi => by cases hi⟩
    · rw [if_neg hn, h.index, List.getElem?_append]
      split
      · rfl
      · next hge =>
        rw [List.getElem?_eq_none (by omega), List.getElem?_singleton]
        split
        · exact ⟨fun hi => (by cases hi), fun hi => absurd (Option.some.inj hi).symm hn⟩
        · rfl
  · rw [List.map_append, h.rows, List.filter_append, List.filter_singleton, decide_eq_true hrow]
    rfl
  · intro e he
    rcases List.mem_append.1 he with hold | hnew
    · have hat := h.rowOf e hold
      unfold IsRowOf at hat ⊢
      obtain ⟨item, hitem, hkey⟩ := Option.map_eq_some_iff.1 hat
      rw [List.getElem?_append_left (List.getElem?_eq_some_iff.1 hitem).1]
      exact hat
    · cases List.mem_singleton.1 hnew
      unfold IsRowOf
      rw [List.getElem?_append_right le_rfl, Nat.sub_self, hraw, rowKey]
      rfl
  · intro item hitem
    rcases List.mem_append.1 hitem with hold | hlast
    · obtain ⟨r, hr, hname⟩ := h.names item hold
      exact ⟨r, List.mem_append_left _ hr, hname⟩
    · cases List.mem_singleton.1 hlast
      exact ⟨rowIdx, List.mem_append_right _ (List.mem_singleton_self _), hrow, by rw [hraw]⟩
  · intro item hitem
    rcases List.mem_append.1 hitem with hold | hlast
    · exact h.merges item hold
    · cases List.mem_singleton.1 hlast
      rfl

/-- **One row.** -/
theorem Read.row (h : Read S grid mapping mergeDecisions done s) (rowIdx : ℕ) :
    Read S grid mapping mergeDecisions (done ++ [rowIdx]) (readRow S grid mapping mergeDecisions s rowIdx) := by
  have hfilled := h.forwardFill rowIdx
  unfold readRow
  dsimp only
  split
  · next hempty => exact hfilled.skip fun hrow => hrow.1 hempty
  · next hraw =>
    split
    · next hcategory => exact (hfilled.skip fun hrow => hrow.2 hcategory).congr rfl rfl rfl
    · next hcategory =>
      have hrow : IsDataRow grid mapping rowIdx := ⟨hraw, hcategory⟩
      unfold readItem
      split
      · next hseen => exact hfilled.again hrow rfl hseen
      · next hnew => exact hfilled.first hrow rfl hnew

/-- **All rows.** -/
theorem read_readRows : Read S grid mapping mergeDecisions (rows grid mapping)
    (readRows S grid mapping mergeDecisions) := by
  unfold readRows
  induction rows grid mapping using List.reverseRecOn with
  | nil => exact Read.empty
  | append_singleton done rowIdx ih =>
    rw [List.foldl_append, List.foldl_cons, List.foldl_nil]
    exact ih.row rowIdx

end

/-! ## Names -/

/-- Nothing but question marks. -/
def OnlyMarks (text : String) : Prop := ∀ c ∈ text.toList, c = '?'

section
variable {text raw : String} {c : Char} {cs : List Char}

/-- A text that is trimmed does not begin with a space. -/
theorem head_trim (h : (trim text).toList = c :: cs) : Shopping.isSpace c.toNat = false := by
  unfold trim at h
  rw [String.toList_ofList] at h
  have hprefix : c :: cs <+: text.toList.dropWhile fun c => Shopping.isSpace c.toNat := by
    rw [← h, ← List.reverse_suffix, List.reverse_reverse]
    exact List.dropWhile_suffix _
  obtain ⟨rest, hrest⟩ := hprefix
  have hhead := List.head?_dropWhile_not (fun c : Char => Shopping.isSpace c.toNat) text.toList
  rw [← hrest] at hhead
  exact hhead

/-- What begins with no space is not trimmed away. -/
theorem trim_ne_empty (h : text.toList = c :: cs) (hc : Shopping.isSpace c.toNat = false) : trim text ≠ "" := by
  intro hempty
  have hkept : text.toList.dropWhile (fun c => Shopping.isSpace c.toNat) = c :: cs := by
    rw [h, List.dropWhile_cons_of_neg (by rw [hc]; nofun)]
  have hlist := congrArg String.toList hempty
  unfold trim at hlist
  rw [String.toList_ofList, hkept] at hlist
  have hall := List.dropWhile_eq_nil_iff.1 (List.reverse_eq_nil_iff.1 hlist)
  have hspace := hall c (List.mem_reverse.2 List.mem_cons_self)
  rw [hc] at hspace
  cases hspace

theorem trim_trim_eq_empty (h : trim (trim text) = "") : trim text = "" := by
  cases hlist : (trim text).toList with
  | nil => exact String.toList_eq_nil_iff.1 hlist
  | cons c cs => exact absurd h (trim_ne_empty hlist (head_trim hlist))

/-- A name is trimmed. -/
theorem nameOf_eq_trim : ∃ text', nameOf (trim text) = trim text' := by
  unfold nameOf
  split
  · exact ⟨_, rfl⟩
  · exact ⟨text, rfl⟩

/-- **The cells without a name.** -/
theorem nameOf_eq_empty_iff (h : trim text ≠ "") : nameOf (trim text) = "" ↔ OnlyMarks (trim text) := by
  generalize hraw : trim text = raw at h
  constructor
  · intro hname
    unfold nameOf at hname
    split at hname
    · cases hmarks : (raw.toList.reverse.dropWhile (· = '?')).reverse with
      | nil =>
        have hall := List.dropWhile_eq_nil_iff.1 (List.reverse_eq_nil_iff.1 hmarks)
        exact fun c hc => of_decide_eq_true (hall c (List.mem_reverse.2 hc))
      | cons c cs =>
        have hprefix : c :: cs <+: raw.toList := by
          rw [← hmarks, ← List.reverse_suffix, List.reverse_reverse]
          exact List.dropWhile_suffix _
        obtain ⟨rest, hrest⟩ := hprefix
        have hhead : Shopping.isSpace c.toNat = false := head_trim (by rw [hraw, ← hrest, List.cons_append])
        have hlist : (withoutMarks raw).toList = c :: cs := by rw [withoutMarks, String.toList_ofList, hmarks]
        exact absurd hname (trim_ne_empty hlist hhead)
    · exact absurd hname h
  · intro hmarks
    have hdropped : withoutMarks raw = "" := by
      have hnil : raw.toList.reverse.dropWhile (· = '?') = [] :=
        List.dropWhile_eq_nil_iff.2 fun c hc => decide_eq_true (hmarks c (List.mem_reverse.1 hc))
      rw [withoutMarks, hnil]
      rfl
    have hasks : asks raw := by
      have hne : raw.toList ≠ [] := fun hnil => h (String.toList_eq_nil_iff.1 hnil)
      rw [asks, List.getLast?_eq_some_getLast hne, hmarks _ (List.getLast_mem hne)]
      rfl
    rw [nameOf, if_pos hasks, hdropped]
    rfl

end

/-! ## Amounts -/

theorem isGreatest_gather {amounts : List (ℕ × ℕ)} {q : ℕ}
    (h : Grouping.gather Prod.snd (fun most amount => max most amount.2) amounts = some q) :
    IsGreatest {x | ∃ a ∈ amounts, a.2 = x} q := by
  induction amounts using List.reverseRecOn generalizing q with
  | nil => cases h
  | append_singleton amounts a ih =>
    rw [Grouping.gather_append_singleton] at h
    cases hg : Grouping.gather Prod.snd (fun most amount => max most amount.2) amounts with
    | none =>
      rw [hg] at h
      cases h
      obtain rfl := Grouping.gather_eq_none.1 hg
      refine ⟨⟨a, List.mem_append_right _ (List.mem_singleton_self a), rfl⟩, ?_⟩
      rintro x ⟨b, hb, rfl⟩
      cases List.mem_singleton.1 hb
      exact le_rfl
    | some most =>
      rw [hg] at h
      cases h
      obtain ⟨⟨b, hb, hmost⟩, hbound⟩ := ih hg
      constructor
      · rcases max_choice most a.2 with hmax | hmax
        · exact ⟨b, List.mem_append_left _ hb, hmost.trans hmax.symm⟩
        · exact ⟨a, List.mem_append_right _ (List.mem_singleton_self a), hmax.symm⟩
      · rintro x ⟨b, hb, rfl⟩
        rcases List.mem_append.1 hb with hold | hlast
        · exact (hbound ⟨b, hold, rfl⟩).trans (le_max_left _ _)
        · cases List.mem_singleton.1 hlast
          exact le_max_right _ _

section
variable {S : Script} {grid : Grid} {mapping : ImportMapping} {mergeDecisions : String → Option String}
  {s : Reading}

theorem Read.unique {done : List ℕ} {r i j : ℕ} (h : Read S grid mapping mergeDecisions done s)
    (hi : IsRowOf S grid mapping s.items r i) (hj : IsRowOf S grid mapping s.items r j) : i = j := by
  have hat := (h.index _ i).2 hi
  rw [(h.index _ j).2 hj] at hat
  exact (Option.some.inj hat).symm

/-- The rows that are filed, and what they are filed under. -/
theorem Read.mem_rowToItemIndex {done : List ℕ} {r i : ℕ} (h : Read S grid mapping mergeDecisions done s) :
    (r, i) ∈ s.rowToItemIndex ↔ r ∈ done ∧ IsDataRow grid mapping r ∧ IsRowOf S grid mapping s.items r i := by
  have hrows : r ∈ s.rowToItemIndex.map Prod.fst ↔ r ∈ done ∧ IsDataRow grid mapping r := by
    rw [h.rows, List.mem_filter, decide_eq_true_iff]
  constructor
  · intro hmem
    obtain ⟨hdone, hdata⟩ := hrows.1 (List.mem_map_of_mem hmem)
    exact ⟨hdone, hdata, h.rowOf _ hmem⟩
  · rintro ⟨hdone, hdata, hrow⟩
    obtain ⟨⟨r', j⟩, hmem, rfl⟩ := List.mem_map.1 (hrows.2 ⟨hdone, hdata⟩)
    rw [h.unique hrow (h.rowOf _ hmem)]
    exact hmem

/-- **The items of a trip.** -/
theorem tripItems_spec (h : Read S grid mapping mergeDecisions (rows grid mapping) s) (column : ℕ) :
    TripOk S grid mapping s.items column (tripItems S grid s.rowToItemIndex column) := by
  unfold tripItems
  generalize hamounts : (s.rowToItemIndex.filterMap fun r =>
    (parseQuantity S (grid.cell r.1 column)).map (r.2, ·)) = amounts
  have hset : ∀ i, amountsOf S grid mapping s.items column i = {x | ∃ a ∈ amounts.filter (·.1 = i), a.2 = x} := by
    intro i
    ext q
    constructor
    · rintro ⟨r, hr, hdata, hrow, hq⟩
      refine ⟨(i, q), List.mem_filter.2 ⟨?_, decide_eq_true rfl⟩, rfl⟩
      rw [← hamounts]
      exact List.mem_filterMap.2 ⟨(r, i), h.mem_rowToItemIndex.2 ⟨hr, hdata, hrow⟩, by rw [hq]; rfl⟩
    · rintro ⟨a, ha, rfl⟩
      obtain ⟨hamount, hi⟩ := List.mem_filter.1 ha
      cases of_decide_eq_true hi
      rw [← hamounts] at hamount
      obtain ⟨⟨r, i⟩, hmem, hq⟩ := List.mem_filterMap.1 hamount
      obtain ⟨q, hread, rfl⟩ := Option.map_eq_some_iff.1 hq
      obtain ⟨hr, hdata, hrow⟩ := h.mem_rowToItemIndex.1 hmem
      exact ⟨r, hr, hdata, hrow, hread⟩
  refine ⟨?_, ?_, fun i => ⟨fun hnone => ?_, ?_⟩⟩
  · rw [List.map_map]
    exact Grouping.nodup_keys_group _
  · intro x hx
    obtain ⟨⟨i, q⟩, he, rfl⟩ := List.mem_map.1 hx
    rw [hset]
    exact isGreatest_gather (Grouping.mem_group.1 he)
  · rw [hset]
    refine Set.eq_empty_iff_forall_notMem.2 ?_
    rintro x ⟨a, ha, rfl⟩
    obtain ⟨q, hq⟩ : ∃ q, Grouping.gather Prod.snd (fun most amount => max most amount.2)
        (amounts.filter (·.1 = i)) = some q := Grouping.gather_eq_some_of_mem ha
    exact hnone ⟨i, q⟩ (List.mem_map.2 ⟨(i, q), Grouping.mem_group.2 hq, rfl⟩) rfl
  · intro hempty x hx hi
    obtain ⟨⟨j, q⟩, he, rfl⟩ := List.mem_map.1 hx
    cases hi
    rw [hset] at hempty
    have hgreatest := isGreatest_gather (Grouping.mem_group.1 he)
    exact (Set.eq_empty_iff_forall_notMem.1 hempty q) hgreatest.1

/-! ## The plan of a sheet -/

/-- **The plan is as it is to be exactly where no row of an item has nothing but question marks for a name.** -/
theorem plan_iff (S : Script) (grid : Grid) (mapping : ImportMapping) (mergeDecisions : String → Option String) :
    PlanOk S grid mapping mergeDecisions (buildImportPlan S grid mapping mergeDecisions) ↔
      ∀ r ∈ rows grid mapping, IsDataRow grid mapping r → ¬ OnlyMarks (itemCell grid mapping r) := by
  have h : Read S grid mapping mergeDecisions (rows grid mapping) (readRows S grid mapping mergeDecisions) :=
    read_readRows
  have hmapped : ∀ r ∈ rows grid mapping, IsDataRow grid mapping r →
      ∃! i, IsRowOf S grid mapping (readRows S grid mapping mergeDecisions).items r i := by
    intro r hr hdata
    have hfiled : r ∈ (readRows S grid mapping mergeDecisions).rowToItemIndex.map Prod.fst := by
      rw [h.rows]
      exact List.mem_filter.2 ⟨hr, decide_eq_true hdata⟩
    obtain ⟨⟨r, i⟩, hmem, rfl⟩ := List.mem_map.1 hfiled
    exact ⟨i, h.rowOf _ hmem, fun j hj => h.unique hj (h.rowOf _ hmem)⟩
  constructor
  · intro hplan r hr hdata hmarks
    -- The name of the row is empty, and its item has that name.
    have hempty : nameOf (itemCell grid mapping r) = "" := (nameOf_eq_empty_iff hdata.1).2 hmarks
    obtain ⟨i, hi, -⟩ := hmapped r hr hdata
    obtain ⟨item, hitem, hkey⟩ := Option.map_eq_some_iff.1 hi
    rw [rowKey, hempty, normalize, normalize] at hkey
    have hblank : trim item.name = "" := by
      rw [← S.toLowerCase_eq_empty, hkey, S.toLowerCase_eq_empty]
      rfl
    have hmem := List.mem_of_getElem? hitem
    obtain ⟨r', -, -, hname⟩ := h.names item hmem
    obtain ⟨text, htext⟩ : ∃ text, nameOf (itemCell grid mapping r') = trim text := nameOf_eq_trim
    rw [hname, htext] at hblank
    exact hplan.named item hmem (by rw [hname, htext, trim_trim_eq_empty hblank])
  · intro hmarks
    refine ⟨?_, h.distinct, hmapped, ?_, ?_⟩
    · intro item hitem hempty
      obtain ⟨r, hr, hdata, hname⟩ := h.names item hitem
      exact hmarks r hr hdata ((nameOf_eq_empty_iff hdata.1).1 (hname ▸ hempty))
    · refine List.pairwise_of_forall_mem_list fun a ha b hb e hae hbe => ?_
      exact ⟨h.merges a ha ▸ hae, h.merges b hb ▸ hbe⟩
    · refine List.forall₂_map_right_iff.2 (List.forall₂_same.2 fun trip _ => ?_)
      exact tripItems_spec h trip.column

end

/-! ## A sheet that asks -/

/-- A script for texts without letters and digits. -/
def caseless : Script where
  toLowerCase text := text
  toLowerCase_eq_empty _ := Iff.rfl
  number _ := .nan

def firstColumn : ImportMapping := ⟨0, 0, none, [], []⟩

/-- The row whose cell is a question mark is an item without a name. -/
theorem question_without_name :
    (buildImportPlan caseless [["?"]] firstColumn fun _ => none).items = [⟨"", none, none, true⟩] ∧
      ¬ PlanOk caseless [["?"]] firstColumn (fun _ => none)
        (buildImportPlan caseless [["?"]] firstColumn fun _ => none) := by
  have hitems : (buildImportPlan caseless [["?"]] firstColumn fun _ => none).items = [⟨"", none, none, true⟩] := by
    decide
  refine ⟨hitems, fun hplan => ?_⟩
  exact hplan.named ⟨"", none, none, true⟩ (by rw [hitems]; exact List.mem_singleton_self _) rfl

end Import

end JitPack
