import JitPack.Lib.Grouping
import JitPack.Client.HandOrder
import JitPack.Client.PackState

/-!
# The shopping board

The open lines of a trip's two shopping lists are filed under headings: what was carried over, what comes from the
packing list, the headings the sources name, the tags, and what is left. A line that is due soon is read in a block
above both lists instead. Every line stands in one place (`filed_once`).

A line that is let go over a heading of its list takes its tag and the place in its order. The tag is all that is
written of where it stands, and the heading is derived again from it and from what is not written: a line that was
carried over is not filed with the untagged ones, and a tag is trimmed when it is written. So the line stands where it
was dropped exactly if it was filed there, or the heading takes it (`drop_iff`).
-/

namespace JitPack

namespace Shopping

open HandOrder (rank byHand dropInto renumber without Placement)
open PackState (ShoppingMode)

/-! ## Lines and sections -/

/-- A text, as its code units. -/
abbrev Text := List ℕ

/-- `ShoppingLine`, as far as the board reads and writes it. Days are of a type `δ`. -/
structure ShoppingLine (δ : Type) where
  key : String
  tag : Option Text
  sectionName : Option Text
  sectionRank : Option ℤ
  carriedOver : Bool
  dueDate : Option δ
  pressingDays : Option ℤ
  position : Option ℤ
  edit : Bool
  deriving DecidableEq

/-- The keys of sections. -/
inductive SectionKey where
  | carried
  | packing
  | source (name : Text)
  | tag (name : Text)
  | own
  deriving DecidableEq

/-- `ShoppingSection`. -/
structure ShoppingSection (δ : Type) where
  key : SectionKey
  lines : List (ShoppingLine δ)
  deriving DecidableEq

variable {δ κ : Type} [LinearOrder κ]

/-- A text that is there: the empty one counts as none. -/
def given (text : Option Text) : Option Text := text.filter (· ≠ [])

section
variable (daysBetween : δ → δ → ℤ) (collate : Text → κ) (today : δ)

/-- `isPressingLine`, with `DUE_SOON_DAYS`. -/
def isPressingLine (line : ShoppingLine δ) : Bool :=
  line.dueDate.any fun day => daysBetween today day ≤ line.pressingDays.getD 2

/-- The rank of `sortByDue`. -/
def dueRank (line : ShoppingLine δ) : WithTop ℤ := line.dueDate.elim ⊤ fun day => (daysBetween today day : ℤ)

/-- `sortByDue`. -/
def sortByDue (lines : List (ShoppingLine δ)) : List (ShoppingLine δ) := Ranked.byRank (dueRank daysBetween today) lines

/-- A section, if anything is filed in it. -/
def filed (key : SectionKey) (lines : List (ShoppingLine δ)) : List (ShoppingSection δ) :=
  if lines = [] then [] else [⟨key, lines⟩]

/-- The lines of `bySection` under a name. -/
def named (sourced : List (ShoppingLine δ)) (name : Text) : List (ShoppingLine δ) :=
  sourced.filter (given ·.sectionName = some name)

/-- The lines of `byTag` under a tag. -/
def tagged (own : List (ShoppingLine δ)) (tag : Text) : List (ShoppingLine δ) := own.filter (given ·.tag = some tag)

/-- `fileSections`. -/
def fileSections (own sourced : List (ShoppingLine δ)) : List (ShoppingSection δ) :=
  let carried := sourced.filter (fun line => line.carriedOver ∧ given line.sectionName = none) ++
    own.filter fun line => line.carriedOver ∧ given line.tag = none
  let combined := sourced.filter fun line => given line.sectionName = none ∧ ¬ line.carriedOver
  let rankOf (name : Text) : ℤ := ((named sourced name).head?.bind (·.sectionRank)).getD 0
  let names := Ranked.byRank (fun name => toLex (rankOf name, collate name))
    (Insertion.ofList (sourced.filterMap (given ·.sectionName)))
  let tags := Ranked.byRank collate (Insertion.ofList (own.filterMap (given ·.tag)))
  let untagged := own.filter fun line => given line.tag = none ∧ ¬ line.carriedOver
  filed .carried carried ++ filed .packing combined ++ names.map (fun name => ⟨.source name, named sourced name⟩) ++
    tags.map (fun tag => ⟨.tag tag, tagged own tag⟩) ++ filed .own untagged

/-- The lines of a section in their order: by due day, then by hand. -/
def reading (lines : List (ShoppingLine δ)) : List (ShoppingLine δ) :=
  byHand (·.position) (sortByDue daysBetween today lines)

/-- `pressingGroupsFirst`. -/
def pressingGroupsFirst {γ : Type} (groups : List γ) (pressing : γ → Bool) : List γ :=
  groups.filter pressing ++ groups.filter (! pressing ·)

/-- `buildSections`, for a day. -/
def buildSections (own sourced : List (ShoppingLine δ)) : List (ShoppingSection δ) :=
  pressingGroupsFirst
    ((fileSections collate own sourced).map fun s => { s with lines := reading daysBetween today s.lines })
    fun s => s.lines.any (isPressingLine daysBetween today)

/-! ## The board -/

/-- The open lines of a list. Only the list's own lines can be edited. -/
structure OpenLines (δ : Type) where
  own : List (ShoppingLine δ)
  sourced : List (ShoppingLine δ)
  offers : ∀ line ∈ sourced, line.edit = false

/-- All open lines of a list. -/
def OpenLines.all (lines : OpenLines δ) : List (ShoppingLine δ) := lines.own ++ lines.sourced

/-- `SHOPPING_MODES`. -/
def shoppingModes : List ShoppingMode := [.buyBefore, .buyLocal]

/-- `ListShelf`. -/
structure ListShelf (δ : Type) where
  sections : List (ShoppingSection δ)
  openCount : ℕ

/-- `ShoppingBoard`. -/
structure ShoppingBoard (δ : Type) where
  due : List (ShoppingLine δ)
  lists : ShoppingMode → ListShelf δ
  listOf : String → Option ShoppingMode
  whole : ShoppingMode → List (ShoppingSection δ)
  homeOf : String → Option SectionKey

/-- The lines of a list that are not in the block above. -/
def standing (lines : List (ShoppingLine δ)) : List (ShoppingLine δ) :=
  lines.filter (! isPressingLine daysBetween today ·)

/-- `shoppingBoard`. -/
def shoppingBoard (lines : ShoppingMode → OpenLines δ) : ShoppingBoard δ :=
  let pressing := isPressingLine daysBetween today
  let whole := fun list => buildSections daysBetween collate today (lines list).own (lines list).sourced
  { due := sortByDue daysBetween today (shoppingModes.flatMap fun list =>
      (lines list).own.filter pressing ++ (lines list).sourced.filter pressing)
    lists := fun list =>
      let own := standing daysBetween today (lines list).own
      let sourced := standing daysBetween today (lines list).sourced
      ⟨buildSections daysBetween collate today own sourced, own.length + sourced.length⟩
    listOf := fun key => (Keyed.last Prod.fst
      (shoppingModes.flatMap fun list => (lines list).all.map fun line => (line.key, list)) key).map (·.2)
    whole := whole
    homeOf := fun key => (Keyed.last Prod.fst
      (shoppingModes.flatMap fun list => (whole list).flatMap fun s => s.lines.map fun line => (line.key, s.key))
      key).map (·.2) }

end

/-! ## Drops -/

/-- `ShoppingDrop`. -/
structure ShoppingDrop (δ : Type) where
  retag : Option (Option Text)
  placements : List (Placement (ShoppingLine δ))

/-- `dropTag`: `none` for a section that takes no drop. -/
def dropTag (s : ShoppingSection δ) : Option (Option Text) :=
  match s.key with
  | .own => some none
  | .tag name => some (some name)
  | _ => none

section
variable (board : ShoppingBoard δ) (line : ShoppingLine δ) (list : ShoppingMode) (s : ShoppingSection δ)

/-- `canDrop`. -/
def canDrop : Prop :=
  board.listOf line.key = some list ∧ (board.homeOf line.key = some s.key ∨ line.edit ∧ dropTag s ≠ none)

instance : Decidable (canDrop board line list s) := inferInstanceAs (Decidable (_ ∧ _))

/-- `planDrop`. -/
def planDrop (gap : Option ℕ) : Option (ShoppingDrop δ) :=
  if canDrop board line list s then
    let retag := if board.homeOf line.key = some s.key then none else dropTag s
    let group := (((board.whole list).find? (·.key = s.key)).map (·.lines)).getD s.lines
    match dropInto (·.key) group s.lines line (gap.getD s.lines.length), retag with
    | none, none => none
    | none, some retag => some ⟨some retag, []⟩
    | some ordered, retag => some ⟨retag, renumber ordered (·.position)⟩
  else none

end

/-! ## Writing a drop -/

/-- What `trim` removes. -/
def isSpace (unit : ℕ) : Bool :=
  unit ∈ [0x9, 0xA, 0xB, 0xC, 0xD, 0x20, 0xA0, 0x1680, 0x2028, 0x2029, 0x202F, 0x205F, 0x3000, 0xFEFF] ||
    0x2000 ≤ unit && unit ≤ 0x200A

/-- `String.prototype.trim`. -/
def trim (text : Text) : Text := ((text.dropWhile isSpace).reverse.dropWhile isSpace).reverse

/-- `normalizeTag`, with `SHOPPING_TAG_MAX`. -/
def normalizeTag (tag : Option Text) : Option Text := given (some (trim ((trim (tag.getD [])).take 40)))

/-- The line after the placements are written. -/
def place (drop : ShoppingDrop δ) (line : ShoppingLine δ) : ShoppingLine δ :=
  { line with position := HandOrder.placed ShoppingLine.key ShoppingLine.position drop.placements line }

/-- The list's own line after a drop of the line `key` is written: `bulkSetTag`, which is `updateEntry`, and `place`. -/
def retagged (drop : ShoppingDrop δ) (key : String) (line : ShoppingLine δ) : ShoppingLine δ :=
  match drop.retag with
  | none => place drop line
  | some tag => if line.key = key then { place drop line with tag := normalizeTag tag } else place drop line

/-- The open lines after a drop of the line `key` is written. -/
def writeDrop (drop : ShoppingDrop δ) (key : String) (lines : ShoppingMode → OpenLines δ) (list : ShoppingMode) :
    OpenLines δ where
  own := (lines list).own.map (retagged drop key)
  sourced := (lines list).sourced.map (place drop)
  offers := by
    intro x hx
    obtain ⟨line, hline, rfl⟩ := List.mem_map.1 hx
    exact (lines list).offers line hline

/-! ## Where a line is filed -/

/-- The section of a source's line. -/
def sourcedHome (line : ShoppingLine δ) : SectionKey :=
  match given line.sectionName with
  | some name => .source name
  | none => if line.carriedOver then .carried else .packing

/-- The section of the list's own line. -/
def ownHome (line : ShoppingLine δ) : SectionKey :=
  match given line.tag with
  | some tag => .tag tag
  | none => if line.carriedOver then .carried else .own

/-- The lines filed in a section, as they come. -/
def filedUnder (own sourced : List (ShoppingLine δ)) (key : SectionKey) : List (ShoppingLine δ) :=
  sourced.filter (sourcedHome · = key) ++ own.filter (ownHome · = key)

variable {own sourced lines : List (ShoppingLine δ)} {line x : ShoppingLine δ} {s : ShoppingSection δ}
variable {key : SectionKey} {collate : Text → κ}

theorem mem_filed : s ∈ filed key lines ↔ s.key = key ∧ s.lines = lines ∧ lines ≠ [] := by
  obtain ⟨k, ls⟩ := s
  unfold filed
  split
  · next h => simp [h]
  · next h => simp [h]

theorem sourcedHome_source {name : Text} : sourcedHome line = .source name ↔ given line.sectionName = some name := by
  unfold sourcedHome
  split
  · next n h => simp [h]
  · next h => split <;> simp [h]

theorem sourcedHome_carried : sourcedHome line = .carried ↔ line.carriedOver ∧ given line.sectionName = none := by
  unfold sourcedHome
  split
  · next n h => simp [h]
  · next h => split <;> simp_all

theorem sourcedHome_packing : sourcedHome line = .packing ↔ given line.sectionName = none ∧ ¬ line.carriedOver := by
  unfold sourcedHome
  split
  · next n h => simp [h]
  · next h => split <;> simp_all

theorem sourcedHome_own : sourcedHome line ≠ .own := by
  unfold sourcedHome
  split
  · simp
  · split <;> simp

theorem sourcedHome_tag {tag : Text} : sourcedHome line ≠ .tag tag := by
  unfold sourcedHome
  split
  · simp
  · split <;> simp

theorem ownHome_tag {tag : Text} : ownHome line = .tag tag ↔ given line.tag = some tag := by
  unfold ownHome
  split
  · next n h => simp [h]
  · next h => split <;> simp [h]

theorem ownHome_carried : ownHome line = .carried ↔ line.carriedOver ∧ given line.tag = none := by
  unfold ownHome
  split
  · next n h => simp [h]
  · next h => split <;> simp_all

theorem ownHome_own : ownHome line = .own ↔ given line.tag = none ∧ ¬ line.carriedOver := by
  unfold ownHome
  split
  · next n h => simp [h]
  · next h => split <;> simp_all

theorem ownHome_packing : ownHome line ≠ .packing := by
  unfold ownHome
  split
  · simp
  · split <;> simp

theorem ownHome_source {name : Text} : ownHome line ≠ .source name := by
  unfold ownHome
  split
  · simp
  · split <;> simp

/-- **The sections are those in which something is filed, with what is filed in them.** -/
theorem mem_fileSections :
    s ∈ fileSections collate own sourced ↔ s.lines ≠ [] ∧ s.lines = filedUnder own sourced s.key := by
  obtain ⟨key, lines⟩ := s
  unfold fileSections
  dsimp only
  simp only [List.mem_append, mem_filed, List.mem_map, Ranked.mem_byRank, Insertion.mem_ofList, List.mem_filterMap,
    ShoppingSection.mk.injEq]
  cases key with
  | carried =>
    simp only [reduceCtorEq, false_and, and_false, exists_false, or_false, true_and, filedUnder, sourcedHome_carried,
      ownHome_carried]
    constructor
    · rintro ⟨rfl, hne⟩
      exact ⟨hne, rfl⟩
    · rintro ⟨hne, rfl⟩
      exact ⟨rfl, hne⟩
  | packing =>
    simp only [reduceCtorEq, false_and, and_false, exists_false, or_false, false_or, true_and, filedUnder,
      sourcedHome_packing, ownHome_packing, decide_false, List.filter_false, List.append_nil]
    constructor
    · rintro ⟨rfl, hne⟩
      exact ⟨hne, rfl⟩
    · rintro ⟨hne, rfl⟩
      exact ⟨rfl, hne⟩
  | source name =>
    simp only [reduceCtorEq, false_and, and_false, exists_false, or_false, false_or, SectionKey.source.injEq,
      filedUnder, sourcedHome_source, ownHome_source, decide_false, List.filter_false, List.append_nil]
    constructor
    · rintro ⟨name', ⟨line, hline, hname⟩, rfl, rfl⟩
      exact ⟨List.ne_nil_of_mem (List.mem_filter.2 ⟨hline, decide_eq_true hname⟩), rfl⟩
    · rintro ⟨hne, rfl⟩
      obtain ⟨line, hline⟩ := List.exists_mem_of_ne_nil _ hne
      obtain ⟨hline, hname⟩ := List.mem_filter.1 hline
      exact ⟨name, ⟨line, hline, of_decide_eq_true hname⟩, rfl, rfl⟩
  | tag tag =>
    simp only [reduceCtorEq, false_and, and_false, exists_false, or_false, false_or, SectionKey.tag.injEq, filedUnder,
      sourcedHome_tag, ownHome_tag, decide_false, List.filter_false, List.nil_append]
    constructor
    · rintro ⟨tag', ⟨line, hline, htag⟩, rfl, rfl⟩
      exact ⟨List.ne_nil_of_mem (List.mem_filter.2 ⟨hline, decide_eq_true htag⟩), rfl⟩
    · rintro ⟨hne, rfl⟩
      obtain ⟨line, hline⟩ := List.exists_mem_of_ne_nil _ hne
      obtain ⟨hline, htag⟩ := List.mem_filter.1 hline
      exact ⟨tag, ⟨line, hline, of_decide_eq_true htag⟩, rfl, rfl⟩
  | own =>
    simp only [reduceCtorEq, false_and, and_false, exists_false, or_false, false_or, true_and, filedUnder,
      sourcedHome_own, ownHome_own, decide_false, List.filter_false, List.nil_append]
    constructor
    · rintro ⟨rfl, hne⟩
      exact ⟨hne, rfl⟩
    · rintro ⟨hne, rfl⟩
      exact ⟨rfl, hne⟩

theorem nodup_fileSections : ((fileSections collate own sourced).map (·.key)).Nodup := by
  have hone : ∀ (key : SectionKey) (lines : List (ShoppingLine δ)), ((filed key lines).map (·.key)).Sublist [key] := by
    intro key lines
    unfold filed
    split <;> simp
  have hnames : ∀ {ρ : Type} [LinearOrder ρ] (r : Text → ρ) (l : List Text),
      (Ranked.byRank r (Insertion.ofList l)).Nodup := fun r l =>
    (Ranked.byRank_perm r _).nodup_iff.2 (Insertion.nodup_ofList l)
  -- a section of each kind, the sources' and the tags' by their names
  have hall : ∀ names tags : List Text, names.Nodup → tags.Nodup → ([SectionKey.carried] ++ [SectionKey.packing] ++
      names.map SectionKey.source ++ tags.map SectionKey.tag ++ [SectionKey.own]).Nodup := by
    intro names tags hn ht
    have hn' := hn.map (f := SectionKey.source) fun _ _ h => SectionKey.source.inj h
    have ht' := ht.map (f := SectionKey.tag) fun _ _ h => SectionKey.tag.inj h
    simp only [List.nodup_append, hn', ht']
    grind
  refine List.Sublist.nodup ?_ (hall _ _ (hnames (fun name => toLex
    ((((named sourced name).head?.bind (·.sectionRank)).getD 0 : ℤ), collate name))
      (sourced.filterMap (given ·.sectionName))) (hnames collate (own.filterMap (given ·.tag))))
  unfold fileSections
  simp only [List.map_append, List.map_map, Function.comp_def]
  exact ((((hone _ _).append (hone _ _)).append (.refl _)).append (.refl _)).append (hone _ _)

/-- Every line is filed, and once. -/
theorem fileSections_perm : ((fileSections collate own sourced).flatMap (·.lines)).Perm (own ++ sourced) := by
  have hsections : (fileSections collate own sourced).flatMap (·.lines) =
      ((fileSections collate own sourced).map (·.key)).flatMap fun key =>
        sourced.filter (sourcedHome · = key) ++ own.filter (ownHome · = key) := by
    rw [List.flatMap_map]
    exact List.flatMap_congr fun s hs => (mem_fileSections.1 hs).2
  have hfiled : ∀ key, filedUnder own sourced key ≠ [] →
      key ∈ (fileSections collate own sourced).map (·.key) := fun key hne =>
    List.mem_map.2 ⟨⟨key, filedUnder own sourced key⟩, mem_fileSections.2 ⟨hne, rfl⟩, rfl⟩
  rw [hsections]
  refine (List.flatMap_append_perm _ _ _).symm.trans (List.perm_append_comm.trans (.append ?_ ?_))
  · refine Grouping.flatMap_filter_perm ownHome nodup_fileSections fun line hline => hfiled _ ?_
    have hmem : line ∈ filedUnder own sourced (ownHome line) :=
      List.mem_append_right _ (List.mem_filter.2 ⟨hline, decide_eq_true rfl⟩)
    exact List.ne_nil_of_mem hmem
  · refine Grouping.flatMap_filter_perm sourcedHome nodup_fileSections fun line hline => hfiled _ ?_
    have hmem : line ∈ filedUnder own sourced (sourcedHome line) :=
      List.mem_append_left _ (List.mem_filter.2 ⟨hline, decide_eq_true rfl⟩)
    exact List.ne_nil_of_mem hmem

section
variable {daysBetween : δ → δ → ℤ} {today : δ}

theorem reading_perm (lines : List (ShoppingLine δ)) : (reading daysBetween today lines).Perm lines :=
  (Ranked.byRank_perm _ _).trans (Ranked.byRank_perm _ _)

theorem pressingGroupsFirst_perm {γ : Type} (groups : List γ) (pressing : γ → Bool) :
    (pressingGroupsFirst groups pressing).Perm groups := by
  simpa [pressingGroupsFirst] using List.filter_append_perm pressing groups

/-- **The sections of a list, as they are read.** -/
theorem mem_buildSections : s ∈ buildSections daysBetween collate today own sourced ↔
    s.lines ≠ [] ∧ s.lines = reading daysBetween today (filedUnder own sourced s.key) := by
  rw [buildSections, (pressingGroupsFirst_perm _ _).mem_iff, List.mem_map]
  have hnil : ∀ lines : List (ShoppingLine δ), reading daysBetween today lines = [] ↔ lines = [] := fun lines =>
    ⟨fun h => List.Perm.eq_nil (h ▸ (reading_perm lines).symm), by rintro rfl; rfl⟩
  constructor
  · rintro ⟨s, hs, rfl⟩
    obtain ⟨hne, hlines⟩ := mem_fileSections.1 hs
    exact ⟨mt (hnil _).1 hne, congrArg (reading daysBetween today) hlines⟩
  · rintro ⟨hne, hlines⟩
    refine ⟨⟨s.key, filedUnder own sourced s.key⟩, mem_fileSections.2 ⟨?_, rfl⟩, ?_⟩
    · rw [hlines] at hne
      exact mt (hnil _).2 hne
    · dsimp only
      rw [← hlines]

theorem nodup_buildSections : ((buildSections daysBetween collate today own sourced).map (·.key)).Nodup := by
  rw [buildSections, ((pressingGroupsFirst_perm _ _).map _).nodup_iff, List.map_map]
  exact nodup_fileSections

theorem buildSections_perm :
    ((buildSections daysBetween collate today own sourced).flatMap (·.lines)).Perm (own ++ sourced) := by
  refine ((pressingGroupsFirst_perm _ _).flatMap_right _).trans ?_
  rw [List.flatMap_map]
  exact (List.Perm.flatMap_left _ fun s _ => reading_perm s.lines).trans fileSections_perm

end

/-! ## Every line stands in one place -/

section board
variable (daysBetween : δ → δ → ℤ) (collate : Text → κ) (today : δ) (lines : ShoppingMode → OpenLines δ)

/-- The block above holds the lines that are due soon, the sections of a list its others, and those of its whole view
all its lines: each line as often as it is open. -/
structure FiledOnce : Prop where
  due : (shoppingBoard daysBetween collate today lines).due.Perm
    (shoppingModes.flatMap fun list => (lines list).all.filter (isPressingLine daysBetween today))
  lists : ∀ list, (((shoppingBoard daysBetween collate today lines).lists list).sections.flatMap (·.lines)).Perm
    ((lines list).all.filter (! isPressingLine daysBetween today ·))
  whole : ∀ list, (((shoppingBoard daysBetween collate today lines).whole list).flatMap (·.lines)).Perm (lines list).all

/-- **Every line stands in one place.** -/
theorem filed_once : FiledOnce daysBetween collate today lines where
  due := by
    refine (Ranked.byRank_perm _ _).trans (List.Perm.of_eq (List.flatMap_congr fun list _ => ?_))
    exact (List.filter_append _ _).symm
  lists list := by
    refine buildSections_perm.trans (List.Perm.of_eq ?_)
    exact (List.filter_append _ _).symm
  whole list := buildSections_perm

end board

/-! ## What a drop finds -/

section drop
variable {daysBetween : δ → δ → ℤ} {today : δ} {lines : ShoppingMode → OpenLines δ} {list m : ShoppingMode}
variable {gap : Option ℕ} {drop : ShoppingDrop δ}

/-- The keys of the open lines are distinct. -/
def Distinct (lines : ShoppingMode → OpenLines δ) : Prop :=
  ((shoppingModes.flatMap fun list => (lines list).all).map (·.key)).Nodup

instance : Decidable (Distinct lines) := inferInstanceAs (Decidable (List.Nodup _))

theorem mem_shoppingModes (list : ShoppingMode) : list ∈ shoppingModes := by
  cases list <;> decide

theorem Distinct.one (h : Distinct lines) (list : ShoppingMode) : ((lines list).all.map (·.key)).Nodup := by
  refine List.Nodup.sublist (List.Sublist.map _ ?_) h
  exact List.sublist_flatten_of_mem (List.mem_map.2 ⟨list, mem_shoppingModes list, rfl⟩)

/-- A key is that of one line, on one list. -/
theorem Distinct.eq (h : Distinct lines) (hline : line ∈ (lines list).all) (hx : x ∈ (lines m).all)
    (hkey : line.key = x.key) : line = x ∧ list = m := by
  have hboth : (((lines .buyBefore).all ++ (lines .buyLocal).all).map (·.key)).Nodup := by
    simpa [Distinct, shoppingModes] using h
  rw [List.map_append, List.nodup_append] at hboth
  obtain ⟨hbefore, hlocal, hapart⟩ := hboth
  cases list with
  | buyBefore =>
    cases m with
    | buyBefore => exact ⟨Keyed.eq_of_key hbefore hline hx hkey, rfl⟩
    | buyLocal => exact absurd hkey (hapart _ (List.mem_map_of_mem hline) _ (List.mem_map_of_mem hx))
  | buyLocal =>
    cases m with
    | buyBefore => exact absurd hkey.symm (hapart _ (List.mem_map_of_mem hx) _ (List.mem_map_of_mem hline))
    | buyLocal => exact ⟨Keyed.eq_of_key hlocal hline hx hkey, rfl⟩

theorem mem_filedUnder : x ∈ filedUnder own sourced key ↔
    x ∈ sourced ∧ sourcedHome x = key ∨ x ∈ own ∧ ownHome x = key := by
  simp [filedUnder]

/-- The lines of a section of a list's whole view. -/
def linesOf (sections : List (ShoppingSection δ)) (key : SectionKey) : List (ShoppingLine δ) :=
  ((sections.find? (·.key = key)).map (·.lines)).getD []

theorem find?_buildSections (key : SectionKey) :
    (buildSections daysBetween collate today own sourced).find? (·.key = key) =
      if filedUnder own sourced key = [] then none
      else some ⟨key, reading daysBetween today (filedUnder own sourced key)⟩ := by
  cases hfind : (buildSections daysBetween collate today own sourced).find? (·.key = key) with
  | none =>
    split
    · rfl
    · next hne =>
      have hread : reading daysBetween today (filedUnder own sourced key) ≠ [] := fun h =>
        hne (List.Perm.eq_nil (h ▸ (reading_perm _).symm))
      have hsection := List.find?_eq_none.1 hfind ⟨key, _⟩ (mem_buildSections.2 ⟨hread, rfl⟩)
      exact absurd (decide_eq_true rfl) hsection
  | some s =>
    obtain ⟨hne, hlines⟩ := mem_buildSections.1 (List.mem_of_find?_eq_some hfind)
    obtain rfl : s.key = key := by simpa using List.find?_some hfind
    rw [if_neg, ← hlines]
    intro hnil
    rw [hlines, hnil] at hne
    exact hne rfl

theorem linesOf_buildSections (key : SectionKey) : linesOf (buildSections daysBetween collate today own sourced) key =
    reading daysBetween today (filedUnder own sourced key) := by
  rw [linesOf, find?_buildSections]
  split
  · next h => rw [h]; rfl
  · rfl

theorem listOf_eq (h : Distinct lines) (hline : line ∈ (lines list).all) :
    (shoppingBoard daysBetween collate today lines).listOf line.key = some list := by
  have hkeys : ((shoppingModes.flatMap fun list => (lines list).all.map fun line => (line.key, list)).map
      Prod.fst).Nodup := by
    simpa only [List.map_flatMap, List.map_map, Function.comp_def, Distinct] using h
  have hlast : Keyed.last Prod.fst (shoppingModes.flatMap fun list => (lines list).all.map fun line => (line.key, list))
      line.key = some (line.key, list) := by
    refine (Keyed.last_eq_some_iff hkeys).2 ⟨?_, rfl⟩
    exact List.mem_flatMap.2 ⟨list, mem_shoppingModes list, List.mem_map.2 ⟨line, hline, rfl⟩⟩
  exact congrArg (Option.map Prod.snd) hlast

theorem homeOf_eq (h : Distinct lines) (hline : line ∈ filedUnder (lines list).own (lines list).sourced key) :
    (shoppingBoard daysBetween collate today lines).homeOf line.key = some key := by
  have hkeys : ((shoppingModes.flatMap fun list => ((shoppingBoard daysBetween collate today lines).whole list).flatMap
      fun s => s.lines.map fun line => (line.key, s.key)).map Prod.fst).Nodup := by
    have hlines : (shoppingModes.flatMap fun list =>
        ((shoppingBoard daysBetween collate today lines).whole list).flatMap (·.lines)).Perm (shoppingModes.flatMap fun list => (lines list).all) :=
      List.Perm.flatMap_left _ fun list _ => buildSections_perm
    have hall := (hlines.map ShoppingLine.key).nodup_iff.2 h
    simpa only [List.map_flatMap, List.map_map, Function.comp_def] using hall
  have hread : line ∈ reading daysBetween today (filedUnder (lines list).own (lines list).sourced key) :=
    (reading_perm _).mem_iff.2 hline
  have hlast : Keyed.last Prod.fst (shoppingModes.flatMap fun list =>
      ((shoppingBoard daysBetween collate today lines).whole list).flatMap fun s =>
        s.lines.map fun line => (line.key, s.key)) line.key = some (line.key, key) := by
    refine (Keyed.last_eq_some_iff hkeys).2 ⟨?_, rfl⟩
    have hsection : (⟨key, reading daysBetween today (filedUnder (lines list).own (lines list).sourced key)⟩ :
        ShoppingSection δ) ∈ (shoppingBoard daysBetween collate today lines).whole list :=
      mem_buildSections.2 ⟨List.ne_nil_of_mem hread, rfl⟩
    refine List.mem_flatMap.2 ⟨list, mem_shoppingModes list, List.mem_flatMap.2 ⟨_, hsection, ?_⟩⟩
    exact List.mem_map.2 ⟨line, hread, rfl⟩
  exact congrArg (Option.map Prod.snd) hlast

theorem mem_all_of_filedUnder (h : x ∈ filedUnder (lines list).own (lines list).sourced key) :
    x ∈ (lines list).all := by
  rcases mem_filedUnder.1 h with ⟨hx, -⟩ | ⟨hx, -⟩
  · exact List.mem_append_right _ hx
  · exact List.mem_append_left _ hx

theorem Distinct.section (h : Distinct lines) (list : ShoppingMode) (key : SectionKey) :
    ((filedUnder (lines list).own (lines list).sourced key).map (·.key)).Nodup := by
  have hparts : (filedUnder (lines list).own (lines list).sourced key).Sublist
      ((lines list).sourced ++ (lines list).own) := List.filter_sublist.append List.filter_sublist
  refine List.Nodup.sublist (hparts.map _) ?_
  exact (List.perm_append_comm.map _).nodup_iff.1 (h.one list)

/-- What is shown of a section: what of it is not in the block above. -/
theorem reading_filter (p : ShoppingLine δ → Bool) (rows : List (ShoppingLine δ)) :
    (reading daysBetween today rows).filter p = reading daysBetween today (rows.filter p) := by
  simp only [reading, byHand, sortByDue, Ranked.filter_byRank]

theorem filedUnder_filter (p : ShoppingLine δ → Bool) :
    filedUnder (own.filter p) (sourced.filter p) key = (filedUnder own sourced key).filter p := by
  simp only [filedUnder, List.filter_append, List.filter_filter, Bool.and_comm]

theorem exists_filedUnder (h : line ∈ (lines list).all) :
    ∃ key, line ∈ filedUnder (lines list).own (lines list).sourced key := by
  rcases List.mem_append.1 h with h | h
  · exact ⟨ownHome line, mem_filedUnder.2 (.inr ⟨h, rfl⟩)⟩
  · exact ⟨sourcedHome line, mem_filedUnder.2 (.inl ⟨h, rfl⟩)⟩

/-- The section `s` takes the line, where it is not filed there. -/
def Takes (s : ShoppingSection δ) (line : ShoppingLine δ) : Prop :=
  match s.key with
  | .tag tag => normalizeTag (some tag) = some tag
  | .own => line.carriedOver = false
  | _ => False

/-- What a drop that is accepted has found, and what it writes. -/
structure Accepted (daysBetween : δ → δ → ℤ) (today : δ) (lines : ShoppingMode → OpenLines δ)
    (line : ShoppingLine δ) (list : ShoppingMode) (s : ShoppingSection δ) (gap : ℕ) (drop : ShoppingDrop δ)
    (ordered : List (ShoppingLine δ)) : Prop where
  open_line : line ∈ (lines list).all
  dropped : HandOrder.Dropped (·.key)
    (reading daysBetween today (filedUnder (lines list).own (lines list).sourced s.key)) s.lines line gap ordered
  placements : drop.placements = renumber ordered (·.position)
  home : line ∈ filedUnder (lines list).own (lines list).sourced s.key ∧ drop.retag = none ∨
    line ∉ filedUnder (lines list).own (lines list).sourced s.key ∧ line ∈ (lines list).own ∧
      dropTag s ≠ none ∧ drop.retag = dropTag s

/-- **A drop that is accepted.** -/
theorem accepted_of_planDrop (h : Distinct lines) (hline : line ∈ (lines m).all)
    (hs : s ∈ ((shoppingBoard daysBetween collate today lines).lists list).sections)
    (hdrop : planDrop (shoppingBoard daysBetween collate today lines) line list s gap = some drop) :
    ∃ ordered, Accepted daysBetween today lines line list s (gap.getD s.lines.length) drop ordered := by
  obtain ⟨hne, hlines⟩ := mem_buildSections.1 hs
  rw [standing, standing, filedUnder_filter, ← reading_filter] at hlines
  have hshown : s.lines.Sublist
      (reading daysBetween today (filedUnder (lines list).own (lines list).sourced s.key)) := by
    rw [hlines]
    exact List.filter_sublist
  have hperm : (reading daysBetween today (filedUnder (lines list).own (lines list).sourced s.key)).Perm _ :=
    reading_perm _
  have hfiled : filedUnder (lines list).own (lines list).sourced s.key ≠ [] := by
    intro hnil
    rw [hlines, hnil] at hne
    exact hne rfl
  have hgroup := (hperm.map ShoppingLine.key).nodup_iff.2 (h.section list s.key)
  unfold planDrop at hdrop
  split at hdrop
  case isFalse => cases hdrop
  case isTrue hcan =>
    rw [canDrop, listOf_eq h hline, Option.some.injEq] at hcan
    obtain ⟨rfl, hcan⟩ := hcan
    have hmoved : line ∈ reading daysBetween today (filedUnder (lines m).own (lines m).sourced s.key) ∨
        line.key ∉ (reading daysBetween today (filedUnder (lines m).own (lines m).sourced s.key)).map (·.key) := by
      refine or_iff_not_imp_right.2 fun hin => ?_
      obtain ⟨x, hx, hkey⟩ := List.mem_map.1 (not_not.1 hin)
      rwa [← (h.eq (mem_all_of_filedUnder (hperm.mem_iff.1 hx)) hline hkey).1]
    have hspec := @HandOrder.dropInto_spec _ _ _ ShoppingLine.key _ _ _ (gap.getD s.lines.length) hgroup hshown hmoved
    have hwhole : ((((shoppingBoard daysBetween collate today lines).whole m).find? (·.key = s.key)).map
        (·.lines)).getD s.lines = reading daysBetween today (filedUnder (lines m).own (lines m).sourced s.key) := by
      have hfind : ((shoppingBoard daysBetween collate today lines).whole m).find? (·.key = s.key) = _ :=
        find?_buildSections s.key
      rw [hfind, if_neg hfiled]
      rfl
    rw [hwhole] at hdrop
    by_cases hin : line ∈ filedUnder (lines m).own (lines m).sourced s.key
    · rw [if_pos (homeOf_eq h hin)] at hdrop
      dsimp only at hdrop
      cases hinto : dropInto ShoppingLine.key
          (reading daysBetween today (filedUnder (lines m).own (lines m).sourced s.key)) s.lines line
            (gap.getD s.lines.length) with
      | none =>
        rw [hinto] at hdrop
        cases hdrop
      | some ordered =>
        rw [hinto] at hdrop hspec
        obtain rfl := Option.some.inj hdrop
        exact ⟨ordered, hline, hspec.2, rfl, .inl ⟨hin, rfl⟩⟩
    · have haway : (shoppingBoard daysBetween collate today lines).homeOf line.key ≠ some s.key := by
        obtain ⟨key, hkey⟩ := exists_filedUnder hline
        rw [homeOf_eq h hkey]
        intro he
        rw [Option.some.inj he] at hkey
        exact hin hkey
      obtain ⟨hedit, htag⟩ := hcan.resolve_left haway
      have hown : line ∈ (lines m).own := by
        refine (List.mem_append.1 hline).resolve_right fun hsourced => ?_
        rw [(lines m).offers line hsourced] at hedit
        cases hedit
      rw [if_neg haway] at hdrop
      dsimp only at hdrop
      cases hinto : dropInto ShoppingLine.key
          (reading daysBetween today (filedUnder (lines m).own (lines m).sourced s.key)) s.lines line
            (gap.getD s.lines.length) with
      | none =>
        rw [hinto] at hspec
        obtain ⟨pre, post, hsplit, -⟩ := hspec.between
        have hmem : line ∈ reading daysBetween today (filedUnder (lines m).own (lines m).sourced s.key) := by
          rw [hsplit]
          exact List.mem_append_right _ List.mem_cons_self
        exact absurd (hperm.mem_iff.1 hmem) hin
      | some ordered =>
        rw [hinto] at hdrop hspec
        obtain rfl := Option.some.inj hdrop
        exact ⟨ordered, hline, hspec.2, rfl, .inr ⟨hin, hown, htag, rfl⟩⟩

end drop

/-! ## What a drop writes -/

section write
variable {daysBetween : δ → δ → ℤ} {today : δ} {lines : ShoppingMode → OpenLines δ} {list m : ShoppingMode}
variable {gap : ℕ} {drop : ShoppingDrop δ} {ordered : List (ShoppingLine δ)} {k : String}

theorem retagged_of_ne (h : x.key ≠ k) : retagged drop k x = place drop x := by
  unfold retagged
  split
  · rfl
  · exact if_neg h

theorem retagged_of_none (h : drop.retag = none) : retagged drop k x = place drop x := by
  rw [retagged, h]

theorem retagged_key : (retagged drop k x).key = x.key := by
  unfold retagged
  split
  · rfl
  · split <;> rfl

theorem retagged_position : (retagged drop k x).position = (place drop x).position := by
  unfold retagged
  split
  · rfl
  · split <;> rfl

theorem Distinct.write (h : Distinct lines) : Distinct (writeDrop drop k lines) := by
  have hkeys : ∀ list, ((writeDrop drop k lines list).all).map (·.key) = ((lines list).all).map (·.key) := by
    intro list
    simp only [OpenLines.all, writeDrop, List.map_append, List.map_map]
    refine congrArg₂ _ (List.map_congr_left fun x _ => retagged_key) (List.map_congr_left fun x _ => rfl)
  unfold Distinct at h ⊢
  rw [List.map_flatMap] at h ⊢
  simpa only [hkeys] using h

/-- The other lines are filed where they were. -/
theorem without_write (key : SectionKey) :
    without ShoppingLine.key line (filedUnder (writeDrop drop line.key lines m).own
        (writeDrop drop line.key lines m).sourced key) =
      (without ShoppingLine.key line (filedUnder (lines m).own (lines m).sourced key)).map (place drop) := by
  simp only [filedUnder, writeDrop, HandOrder.without_append, List.map_append]
  refine congrArg₂ _ ?_ ?_
  · simp only [without, List.filter_map, List.filter_filter]
    rfl
  · induction (lines m).own with
    | nil => rfl
    | cons x own ih =>
      rw [List.map_cons, List.filter_cons, List.filter_cons]
      by_cases hx : x.key = line.key
      · have hkey : (retagged drop line.key x).key = line.key := retagged_key.trans hx
        split <;> split <;> simp_all [without]
      · rw [retagged_of_ne hx]
        have hhome : ownHome (place drop x) = ownHome x := rfl
        have hkey : (place drop x).key ≠ line.key := hx
        rw [hhome]
        split <;> simp_all [without]

/-- The moved line as it is written. -/
theorem mem_write (h : Distinct lines) (hline : line ∈ (lines list).all) (hx : x ∈ filedUnder
    (writeDrop drop line.key lines m).own (writeDrop drop line.key lines m).sourced key) (hkey : x.key = line.key) :
    m = list ∧ (line ∈ (lines list).sourced ∧ x = place drop line ∧ sourcedHome line = key ∨
      line ∈ (lines list).own ∧ x = retagged drop line.key line ∧ ownHome x = key) := by
  rcases mem_filedUnder.1 hx with ⟨hx, hhome⟩ | ⟨hx, hhome⟩
  · obtain ⟨y, hy, rfl⟩ := List.mem_map.1 hx
    obtain ⟨rfl, rfl⟩ := h.eq (List.mem_append_right _ hy) hline hkey
    exact ⟨rfl, .inl ⟨hy, rfl, hhome⟩⟩
  · obtain ⟨y, hy, rfl⟩ := List.mem_map.1 hx
    obtain ⟨rfl, rfl⟩ := h.eq (List.mem_append_left _ hy) hline (retagged_key.symm.trans hkey)
    exact ⟨rfl, .inr ⟨hy, rfl, hhome⟩⟩

/-- Reading lines after the placements are written. -/
theorem reading_place (rows : List (ShoppingLine δ)) : reading daysBetween today (rows.map (place drop)) =
    (byHand (HandOrder.placed ShoppingLine.key ShoppingLine.position drop.placements)
      (sortByDue daysBetween today rows)).map (place drop) := by
  simp only [reading, byHand, sortByDue, Ranked.byRank_map]
  rfl

/-- A line is filed in one section. -/
theorem filedUnder_unique {key' : SectionKey} (h : Distinct lines)
    (hx : x ∈ filedUnder (lines list).own (lines list).sourced key)
    (hx' : x ∈ filedUnder (lines list).own (lines list).sourced key') : key = key' := by
  have hin := h.one list
  unfold OpenLines.all at hin
  rw [List.map_append, List.nodup_append] at hin
  rcases mem_filedUnder.1 hx with ⟨hmem, rfl⟩ | ⟨hmem, rfl⟩
  · rcases mem_filedUnder.1 hx' with ⟨-, rfl⟩ | ⟨hmem', rfl⟩
    · rfl
    · exact absurd rfl (hin.2.2 _ (List.mem_map_of_mem hmem') _ (List.mem_map_of_mem hmem))
  · rcases mem_filedUnder.1 hx' with ⟨hmem', rfl⟩ | ⟨-, rfl⟩
    · exact absurd rfl (hin.2.2 _ (List.mem_map_of_mem hmem) _ (List.mem_map_of_mem hmem'))
    · rfl

/-- The lines of a new order are those of the section and the moved one. -/
theorem Accepted.mem (hdrop : Accepted daysBetween today lines line list s gap drop ordered) (hx : x ∈ ordered)
    (hne : x.key ≠ line.key) : x ∈ filedUnder (lines list).own (lines list).sourced s.key := by
  have hwithout : x ∈ without ShoppingLine.key line ordered := HandOrder.mem_without.2 ⟨hx, hne⟩
  rw [hdrop.dropped.others] at hwithout
  exact (reading_perm _).mem_iff.1 (HandOrder.mem_without.1 hwithout).1

/-- The other lines of every section read as they did. -/
theorem Accepted.reading_without (h : Distinct lines)
    (hdrop : Accepted daysBetween today lines line list s gap drop ordered) (m : ShoppingMode) (key : SectionKey) :
    byHand (HandOrder.placed ShoppingLine.key ShoppingLine.position drop.placements) (sortByDue daysBetween today
      (without ShoppingLine.key line (filedUnder (lines m).own (lines m).sourced key))) =
    reading daysBetween today (without ShoppingLine.key line (filedUnder (lines m).own (lines m).sourced key)) := by
  by_cases hhere : m = list ∧ key = s.key
  · obtain ⟨rfl, rfl⟩ := hhere
    have hothers : without ShoppingLine.key line ordered = reading daysBetween today
        (without ShoppingLine.key line (filedUnder (lines m).own (lines m).sourced s.key)) :=
      hdrop.dropped.others.trans (reading_filter _ _)
    rw [← hothers, hdrop.placements]
    refine Ranked.byRank_eq_of_perm ?_ ((HandOrder.pairwise_placed hdrop.dropped.once).sublist List.filter_sublist)
    rw [hothers]
    exact (Ranked.byRank_perm _ _).trans (reading_perm _).symm
  · refine Ranked.byRank_congr fun x hx => ?_
    obtain ⟨hx, hne⟩ := HandOrder.mem_without.1 (Ranked.mem_byRank.1 hx)
    have hplaced : HandOrder.placed ShoppingLine.key ShoppingLine.position drop.placements x = x.position := by
      unfold HandOrder.placed
      rw [List.find?_eq_none.2]
      intro w hw
      rw [hdrop.placements] at hw
      obtain ⟨n, hn, -⟩ := HandOrder.mem_renumber.1 hw
      rw [decide_eq_true_iff]
      intro hkey
      have hw : w.item ∈ filedUnder (lines list).own (lines list).sourced s.key :=
        hdrop.mem (List.mem_of_getElem? hn) (hkey ▸ hne)
      obtain ⟨he, rfl⟩ := h.eq (mem_all_of_filedUnder hw) (mem_all_of_filedUnder hx) hkey
      rw [he] at hw
      exact hhere ⟨rfl, filedUnder_unique h hx hw⟩
    rw [rank, rank, hplaced]

/-- Every other line keeps its section, and its order relative to the others. -/
def Kept (before after : ShoppingBoard δ) (line : ShoppingLine δ) : Prop :=
  ∀ m key, (without ShoppingLine.key line (linesOf (after.whole m) key)).map (·.key) =
    (without ShoppingLine.key line (linesOf (before.whole m) key)).map (·.key)

/-- **A drop leaves the other lines in their sections and in their order.** -/
theorem Accepted.kept (h : Distinct lines) (hdrop : Accepted daysBetween today lines line list s gap drop ordered) :
    Kept (shoppingBoard daysBetween collate today lines)
      (shoppingBoard daysBetween collate today (writeDrop drop line.key lines)) line := by
  intro m key
  have hafter : linesOf ((shoppingBoard daysBetween collate today (writeDrop drop line.key lines)).whole m) key = _ :=
    linesOf_buildSections key
  have hbefore : linesOf ((shoppingBoard daysBetween collate today lines).whole m) key = _ := linesOf_buildSections key
  rw [hafter, hbefore, without, without, reading_filter, reading_filter]
  have hwrite : (filedUnder (writeDrop drop line.key lines m).own (writeDrop drop line.key lines m).sourced key).filter
      (·.key ≠ line.key) = ((filedUnder (lines m).own (lines m).sourced key).filter (·.key ≠ line.key)).map
        (place drop) := without_write key
  rw [hwrite, reading_place, List.map_map]
  exact congrArg (List.map ShoppingLine.key) (hdrop.reading_without h m key)

/-- The moved line stands in the section it was dropped on, between what is shown of it before the gap and after it. -/
def Landed (after : ShoppingBoard δ) (line : ShoppingLine δ) (list : ShoppingMode) (s : ShoppingSection δ) (gap : ℕ) :
    Prop :=
  ∃ s' ∈ after.whole list, s'.key = s.key ∧ ∃ pre moved post, s'.lines = pre ++ moved :: post ∧ moved.key = line.key ∧
    (∀ x ∈ without ShoppingLine.key line (s.lines.take gap), x.key ∈ pre.map (·.key)) ∧
    ∀ x ∈ without ShoppingLine.key line (s.lines.drop gap), x.key ∈ post.map (·.key)

/-- If the moved line is filed in the section, it stands where it was let go. -/
theorem Accepted.landed (h : Distinct lines) (hdrop : Accepted daysBetween today lines line list s gap drop ordered)
    (hmoved : retagged drop line.key line ∈ filedUnder (writeDrop drop line.key lines list).own
      (writeDrop drop line.key lines list).sourced s.key) :
    Landed (shoppingBoard daysBetween collate today (writeDrop drop line.key lines)) line list s gap := by
  obtain ⟨pre, post, hordered, hpre, hpost⟩ := hdrop.dropped.between
  have honce := hdrop.dropped.once
  rw [hordered] at honce
  have hrest : pre ++ post = without ShoppingLine.key line
      (reading daysBetween today (filedUnder (lines list).own (lines list).sourced s.key)) := by
    rw [← hdrop.dropped.others, hordered, HandOrder.without_split honce rfl]
  -- the section holds the moved line and the others, at rising positions
  have hread : reading daysBetween today (filedUnder (writeDrop drop line.key lines list).own
      (writeDrop drop line.key lines list).sourced s.key) =
        pre.map (place drop) ++ retagged drop line.key line :: post.map (place drop) := by
    refine Ranked.byRank_eq_of_perm ((Ranked.byRank_perm _ _).trans ?_) ?_
    · have hothers : (without ShoppingLine.key line (filedUnder (lines list).own (lines list).sourced s.key)).Perm
          (pre ++ post) := by
        rw [hrest]
        exact (reading_perm _).symm.filter _
      refine (HandOrder.perm_cons_without (h.write.section list s.key) hmoved retagged_key).trans ?_
      rw [without_write]
      refine ((hothers.map (place drop)).cons _).trans ?_
      rw [List.map_append]
      exact List.perm_middle.symm
    · have hrise := @HandOrder.pairwise_placed _ _ _ _ _ ShoppingLine.position hdrop.dropped.once
      have hranks : (pre.map (place drop) ++ retagged drop line.key line :: post.map (place drop)).map
          (rank ShoppingLine.position) = ordered.map
            (rank (HandOrder.placed ShoppingLine.key ShoppingLine.position (renumber ordered (·.position)))) := by
        rw [← hdrop.placements, hordered]
        simp only [List.map_append, List.map_cons, List.map_map, rank, retagged_position]
        rfl
      rw [← List.pairwise_map (f := rank ShoppingLine.position) (R := (· < ·)), hranks, List.pairwise_map]
      exact hrise
  refine ⟨⟨s.key, reading daysBetween today (filedUnder (writeDrop drop line.key lines list).own
    (writeDrop drop line.key lines list).sourced s.key)⟩, mem_buildSections.2 ⟨?_, rfl⟩, rfl, _, _, _, hread,
      retagged_key, fun x hx => ?_, fun x hx => ?_⟩
  · exact List.ne_nil_of_mem ((reading_perm _).mem_iff.2 hmoved)
  · exact List.mem_map.2 ⟨place drop x, List.mem_map_of_mem (hpre x hx), rfl⟩
  · exact List.mem_map.2 ⟨place drop x, List.mem_map_of_mem (hpost x hx), rfl⟩

theorem given_normalizeTag (tag : Option Text) : given (normalizeTag tag) = normalizeTag tag := by
  simp [normalizeTag, given, Option.filter_filter]

theorem not_carriedOver_of_retagged : (retagged drop k x).carriedOver = x.carriedOver := by
  unfold retagged
  split
  · rfl
  · split <;> rfl

theorem retagged_tag {tag : Option Text} (h : drop.retag = some tag) :
    (retagged drop line.key line).tag = normalizeTag tag := by
  simp only [retagged, h, if_true]

/-- A line that was not filed in the section is filed there after the drop, exactly if the section takes it. -/
theorem ownHome_retagged (htag : dropTag s ≠ none) (hretag : drop.retag = dropTag s) :
    ownHome (retagged drop line.key line) = s.key ↔ Takes s line := by
  obtain ⟨key, rows⟩ := s
  cases key with
  | own =>
    have hnone : normalizeTag none = none := rfl
    rw [ownHome_own, retagged_tag hretag, given_normalizeTag, hnone, not_carriedOver_of_retagged]
    simp [Takes]
  | tag name =>
    rw [ownHome_tag, retagged_tag hretag, given_normalizeTag]
    rfl
  | carried => exact absurd rfl htag
  | packing => exact absurd rfl htag
  | source name => exact absurd rfl htag

/-- **Where a drop that is accepted puts the line.** -/
theorem Accepted.landed_iff (h : Distinct lines)
    (hdrop : Accepted daysBetween today lines line list s gap drop ordered) :
    Landed (shoppingBoard daysBetween collate today (writeDrop drop line.key lines)) line list s gap ↔
      (shoppingBoard daysBetween collate today lines).homeOf line.key = some s.key ∨ Takes s line := by
  constructor
  · rintro ⟨s', hs', hkey, pre, moved, post, hlines, hmoved, -⟩
    have hmem : moved ∈ filedUnder (writeDrop drop line.key lines list).own
        (writeDrop drop line.key lines list).sourced s.key := by
      obtain ⟨-, hread⟩ := mem_buildSections.1 hs'
      rw [hkey] at hread
      rw [← (reading_perm _).mem_iff, ← hread, hlines]
      exact List.mem_append_right _ List.mem_cons_self
    obtain ⟨hhome, -⟩ | ⟨-, -, htag, hretag⟩ := hdrop.home
    · exact .inl (homeOf_eq h hhome)
    · obtain ⟨-, ⟨-, rfl, hhome⟩ | ⟨-, rfl, hhome⟩⟩ := mem_write h hdrop.open_line hmem hmoved
      · -- a source's line is in no section that takes a drop
        exfalso
        unfold dropTag at htag
        split at htag
        · next hown => exact sourcedHome_own (hhome.trans hown)
        · next name hname => exact sourcedHome_tag (hhome.trans hname)
        · exact htag rfl
      · exact .inr ((ownHome_retagged htag hretag).1 hhome)
  · intro htakes
    refine hdrop.landed h (mem_filedUnder.2 ?_)
    obtain ⟨hhome, hretag⟩ | ⟨hout, hown, htag, hretag⟩ := hdrop.home
    · rw [retagged_of_none hretag]
      rcases mem_filedUnder.1 hhome with ⟨hmem, hhome⟩ | ⟨hmem, hhome⟩
      · exact .inl ⟨List.mem_map_of_mem hmem, hhome⟩
      · refine .inr ⟨?_, hhome⟩
        rw [← retagged_of_none (k := line.key) hretag]
        exact List.mem_map_of_mem hmem
    · refine .inr ⟨List.mem_map_of_mem hown, (ownHome_retagged htag hretag).2 (htakes.resolve_left fun hhome => ?_)⟩
      obtain ⟨key, hkey⟩ := exists_filedUnder hdrop.open_line
      rw [homeOf_eq h hkey] at hhome
      rw [Option.some.inj hhome] at hkey
      exact hout hkey

end write

/-- **The shopping board.** Every line stands in one place. A drop that is accepted leaves the other lines in their
sections and in their order, and puts its line where it was let go, exactly if the line was filed in that section or the
section takes it: one of the tags if writing the tag leaves it as it is, and that of the lines without a tag if the line
was not carried over. -/
theorem drop_iff {daysBetween : δ → δ → ℤ} {today : δ} {lines : ShoppingMode → OpenLines δ} {list m : ShoppingMode}
    (h : Distinct lines) (hline : line ∈ (lines m).all)
    (hs : s ∈ ((shoppingBoard daysBetween collate today lines).lists list).sections) (gap : Option ℕ) :
    FiledOnce daysBetween collate today lines ∧
      ∀ drop, planDrop (shoppingBoard daysBetween collate today lines) line list s gap = some drop →
        (Landed (shoppingBoard daysBetween collate today (writeDrop drop line.key lines)) line list s
            (gap.getD s.lines.length) ∧
          Kept (shoppingBoard daysBetween collate today lines)
            (shoppingBoard daysBetween collate today (writeDrop drop line.key lines)) line ↔
        (shoppingBoard daysBetween collate today lines).homeOf line.key = some s.key ∨ Takes s line) := by
  refine ⟨filed_once daysBetween collate today lines, fun drop hdrop => ?_⟩
  obtain ⟨ordered, haccepted⟩ := accepted_of_planDrop h hline hs hdrop
  rw [and_iff_left (haccepted.kept h), haccepted.landed_iff h]

/-- An own line without a due day or a place. -/
def entry (key : String) (tag : Option Text) (carriedOver : Bool) : ShoppingLine ℤ :=
  ⟨key, tag, none, none, carriedOver, none, none, none, true⟩

/-- Coffee that was carried over, bread, and soap that has a tag. -/
def pantry : ShoppingMode → OpenLines ℤ
  | .buyBefore => ⟨[], [], fun _ h => nomatch h⟩
  | .buyLocal => ⟨[entry "coffee" none true, entry "bread" none false, entry "soap" (some [115]) false], [],
      fun _ h => nomatch h⟩

/-- The soap is let go before the bread, and stands there. -/
theorem soap_lands : ∃ drop, planDrop (shoppingBoard (fun a b => b - a) List.length 0 pantry)
      (entry "soap" (some [115]) false) .buyLocal ⟨.own, [entry "bread" none false]⟩ (some 0) = some drop ∧
    Landed (shoppingBoard (fun a b => b - a) List.length 0 (writeDrop drop "soap" pantry))
      (entry "soap" (some [115]) false) .buyLocal ⟨.own, [entry "bread" none false]⟩ 0 := by
  have hkeys : Distinct pantry := by decide
  have hline : entry "soap" (some [115]) false ∈ (pantry .buyLocal).all := by decide
  have hs : (⟨.own, [entry "bread" none false]⟩ : ShoppingSection ℤ) ∈
      ((shoppingBoard (fun a b => b - a) List.length 0 pantry).lists .buyLocal).sections := by decide
  have hsome : (planDrop (shoppingBoard (fun a b => b - a) List.length 0 pantry)
      (entry "soap" (some [115]) false) .buyLocal ⟨.own, [entry "bread" none false]⟩ (some 0)).isSome := by decide
  obtain ⟨drop, hdrop⟩ := Option.isSome_iff_exists.1 hsome
  exact ⟨drop, hdrop, (((drop_iff hkeys hline hs (some 0)).2 drop hdrop).2 (.inr rfl)).1⟩

/-- The coffee is let go before the bread as well, and is carried over still. -/
theorem coffee_stays : ¬ ∀ (lines : ShoppingMode → OpenLines ℤ) (list : ShoppingMode) (line : ShoppingLine ℤ)
    (s : ShoppingSection ℤ) (gap : Option ℕ), Distinct lines → line ∈ (lines list).all →
      s ∈ ((shoppingBoard (fun a b => b - a) List.length 0 lines).lists list).sections →
      ∀ drop, planDrop (shoppingBoard (fun a b => b - a) List.length 0 lines) line list s gap = some drop →
        Landed (shoppingBoard (fun a b => b - a) List.length 0 (writeDrop drop line.key lines)) line list s
          (gap.getD s.lines.length) := by
  intro h
  have hkeys : Distinct pantry := by decide
  have hline : entry "coffee" none true ∈ (pantry .buyLocal).all := by decide
  have hs : (⟨.own, [entry "bread" none false]⟩ : ShoppingSection ℤ) ∈
      ((shoppingBoard (fun a b => b - a) List.length 0 pantry).lists .buyLocal).sections := by decide
  have hsome : (planDrop (shoppingBoard (fun a b => b - a) List.length 0 pantry)
      (entry "coffee" none true) .buyLocal ⟨.own, [entry "bread" none false]⟩ (some 0)).isSome := by decide
  obtain ⟨drop, hdrop⟩ := Option.isSome_iff_exists.1 hsome
  obtain ⟨ordered, haccepted⟩ := accepted_of_planDrop hkeys hline hs hdrop
  rcases (haccepted.landed_iff hkeys).1 (h pantry _ _ _ _ hkeys hline hs drop hdrop) with hhome | htakes
  · revert hhome
    decide
  · exact absurd htakes (by decide : ¬ true = false)

end Shopping

end JitPack
