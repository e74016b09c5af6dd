import JitPack.Lib.Grouping
import JitPack.Lib.Ranked
import JitPack.Client.Shopping

/-!
# The packing list

The rows of a trip that the filter lets through are laid out in groups, and within a group the instances of one item
in a cluster. Every head counts the full set, with the done rows that the list no longer shows. A group is known by its
key; a cluster by the key of its group and that of the item, put together as one text.

Every row that is shown stands in one place, and every head says what its rows add up to (`Laid`, `laid_groups`). Each
switch that puts rows away is labelled with the number of rows that it brings back (`others_revealed`, `late_revealed`).
The main theorem is `view_spec`.
-/

namespace JitPack

namespace Packing

open PackState (stateFor)

/-! ## Rows and input -/

/-- `Container`, as far as the list names it. -/
structure Container where
  id : String
  name : String

/-- `TripMemberProfile`, as far as the list names it. -/
structure TripMemberProfile where
  userId : String
  displayName : String

/-- `PackableRow`. A fact that a row does not have reads as none. -/
structure PackableRow where
  id : String
  name : String
  sourceItemId : Option String
  categoryName : Option String
  assignedTravelerId : Option String
  quantity : ℤ
  packedCount : ℤ
  state : ItemState
  mode : ItemMode
  containerId : Option String
  latePacker : Bool
  flagMissing : Bool
  flagUnused : Bool
  neededQuantity : Option ℤ
  packerUserId : Option String
  deriving DecidableEq

/-- `GroupBy`. -/
inductive GroupBy where
  | category
  | container
  | person
  | status
  deriving DecidableEq

/-- `FacetKey`. -/
inductive FacetKey where
  | person
  | category
  | mode
  | container
  | flag
  | status
  deriving DecidableEq

/-- `FACET_KEYS`. -/
def facetKeys : List FacetKey := [.person, .category, .mode, .container, .flag, .status]

/-- `Facets`: the values that are selected. -/
abbrev Facets := FacetKey → List String

/-- `PackingViewInput`. -/
structure PackingViewInput where
  items : List PackableRow
  travelers : List Traveler
  containers : List Container
  memberProfiles : List TripMemberProfile
  groupBy : GroupBy
  showDone : Bool
  facets : Facets
  search : String
  currentUserId : Option String
  showOthers : Bool
  showLate : Bool
  collapsedGroups : List String
  expandedClusters : List String
  itemsWithOpenPrep : List String
  closingPass : Bool

/-! ## Units and verdicts -/

/-- `PackUnits`. -/
@[ext]
structure PackUnits where
  done : ℤ
  total : ℤ
  deriving DecidableEq

/-- `unitsOf`. -/
def unitsOf (row : PackableRow) : PackUnits :=
  if row.quantity ≤ 0 then ⟨0, 0⟩ else ⟨min (max row.packedCount 0) row.quantity, row.quantity⟩

/-- `isFullyPacked`. -/
def isFullyPacked (row : PackableRow) : Bool := stateFor row.packedCount row.quantity = .packed

/-- `isDone`. -/
def isDone (item : PackableRow) (hasOpenPrep : Bool) : Bool :=
  if item.state = .skipped then true else isFullyPacked item && ! hasOpenPrep

/-- `RowVerdict`. -/
inductive RowVerdict where
  | missing
  | unused
  | fewer

/-- `ROW_VERDICTS`. -/
def rowVerdicts : List RowVerdict := [.missing, .unused, .fewer]

/-- `carries`. -/
def carries (row : PackableRow) : RowVerdict → Bool
  | .missing => row.flagMissing
  | .unused => row.flagUnused
  | .fewer => row.neededQuantity.isSome

/-- `rowVerdict`. -/
def rowVerdict (row : PackableRow) : Option RowVerdict := rowVerdicts.find? (carries row)

/-- `rowJudged`. -/
def rowJudged (row : PackableRow) : Bool := (rowVerdict row).isSome

/-- The lists of `PassSections`. -/
inductive PassSection where
  | packed
  | stayedHome

def PassSection.text : PassSection → String
  | .packed => "packed"
  | .stayedHome => "stayedHome"

/-- `passSection`. -/
def passSection (row : PackableRow) : Option PassSection :=
  if row.state = .skipped then some .stayedHome else if row.packedCount > 0 then some .packed else none

/-! ## Facets -/

/-- The values of `state`. -/
def stateText : ItemState → String
  | .opened => "open"
  | .packingNow => "packing_now"
  | .partlyPacked => "partial"
  | .packed => "packed"
  | .skipped => "skipped"

/-- The values of `mode`. -/
def modeText : ItemMode → String
  | .pack => "pack"
  | .buyBefore => "buy_before"
  | .buyLocal => "buy_local"

/-- `PACK_STATUS_VALUES`. -/
inductive PackStatus where
  | packed
  | skipped
  | notPacked

def PackStatus.text : PackStatus → String
  | .packed => "packed"
  | .skipped => "skipped"
  | .notPacked => "not_packed"

/-- `packStatusOf`. -/
def packStatusOf (row : PackableRow) : PackStatus :=
  match row.state with
  | .packed => .packed
  | .skipped => .skipped
  | _ => .notPacked

/-- `FLAG_VALUES`. -/
inductive FlagValue where
  | late
  | missing
  | prep

def FlagValue.text : FlagValue → String
  | .late => "late"
  | .missing => "missing"
  | .prep => "prep"

/-- `valuesOf`. -/
def valuesOf (row : PackableRow) (key : FacetKey) (hasOpenPrep : Bool) : List String :=
  match key with
  | .person => [row.assignedTravelerId.getD ""]
  | .category => [row.categoryName.getD ""]
  | .mode => [modeText row.mode]
  | .container => [row.containerId.getD ""]
  | .flag =>
    let late := if row.latePacker then [FlagValue.late] else []
    let missing := if row.flagMissing then [FlagValue.missing] else []
    let prep := if hasOpenPrep then [FlagValue.prep] else []
    (late ++ missing ++ prep).map (·.text)
  | .status => [(packStatusOf row).text]

/-- A text that is there: the empty one counts as none. -/
def given (text : Option String) : Option String := text.filter (· ≠ "")

/-! ## The rules -/

/-- What a group is known by, and its name. -/
structure GroupHead where
  key : String
  name : Option String
  deriving DecidableEq

/-- `passSectionGroup`. -/
def passSectionGroup (row : PackableRow) : GroupHead :=
  let name := (passSection row).map (·.text)
  ⟨name.getD "", name⟩

/-- `String.prototype.trim`. -/
def trim (text : String) : String :=
  let isSpace (c : Char) := Shopping.isSpace c.toNat
  String.ofList ((text.toList.dropWhile isSpace).reverse.dropWhile isSpace).reverse

/-- `String.prototype.includes`. -/
def includes (text term : String) : Bool := term.toList <:+: text.toList

section
variable (toLowerCase : String → String)

/-- `perPersonKey`. The lower case of a text is a parameter. -/
def perPersonKey (row : PackableRow) : Option String :=
  (given row.assignedTravelerId).map fun _ =>
    match given row.sourceItemId with
    | some id => "src:" ++ id
    | none => "name:" ++ toLowerCase row.name

end

namespace PackingViewInput

variable (toLowerCase : String → String) (v : PackingViewInput)

def travelerById (id : String) : Option Traveler := Keyed.last (·.id) v.travelers id

def containerById (id : String) : Option Container := Keyed.last (·.id) v.containers id

/-- `travelerOf`. -/
def travelerOf (row : PackableRow) : Option Traveler := (given row.assignedTravelerId).bind v.travelerById

/-- `openPrep`. -/
def openPrep (row : PackableRow) : Bool := row.id ∈ v.itemsWithOpenPrep

/-- `done`. -/
def done (row : PackableRow) : Bool := isDone row (v.openPrep row)

/-- `passesFacets`. -/
def passesFacets (row : PackableRow) : Bool :=
  facetKeys.all fun key =>
    (v.facets key).isEmpty || (valuesOf row key (v.openPrep row)).any (· ∈ v.facets key)

/-- `inPersonScope`. -/
def inPersonScope (row : PackableRow) : Bool :=
  (v.facets .person).isEmpty || (valuesOf row .person false).any (· ∈ v.facets .person)

/-- `filteredToOnly`. -/
def filteredToOnly (traveler : Traveler) : Bool := v.facets .person = [traveler.id]

def term : String := toLowerCase (trim v.search)

/-- `searching`. -/
def searching : Bool := v.term toLowerCase ≠ ""

/-- `matchesSearch`. -/
def matchesSearch (row : PackableRow) : Bool :=
  v.term toLowerCase = "" || includes (toLowerCase row.name) (v.term toLowerCase)

/-- `othersJob`. -/
def othersJob (row : PackableRow) : Bool :=
  match v.currentUserId, row.packerUserId with
  | some me, some packer => packer ≠ me
  | _, _ => false

/-- `revealedByStatus`. -/
def revealedByStatus (row : PackableRow) : Bool := (packStatusOf row).text ∈ v.facets .status

/-- The flag of the late rows is selected. -/
def flagged : Bool := FlagValue.late.text ∈ v.facets .flag

/-- `hiddenAsLate`. -/
def hiddenAsLate (row : PackableRow) : Bool :=
  ! v.showLate && ! v.searching toLowerCase && row.latePacker && ! v.flagged

/-- `hiddenAsOthers`. -/
def hiddenAsOthers (row : PackableRow) : Bool := ! v.showOthers && ! v.searching toLowerCase && v.othersJob row

/-- `groupOf`. -/
def groupOf (row : PackableRow) : GroupHead :=
  if v.closingPass then passSectionGroup row
  else match v.groupBy with
    | .person =>
      let traveler := v.travelerOf row
      ⟨(traveler.map (·.id)).getD "", traveler.map (·.name)⟩
    | .container =>
      let container := (given row.containerId).bind v.containerById
      ⟨(container.map (·.id)).getD "", container.map (·.name)⟩
    | .status => ⟨stateText row.state, some (stateText row.state)⟩
    | .category => ⟨row.categoryName.getD "", row.categoryName⟩

/-- The rank of `byTravelerOrder`: the last place of the id in the roster. -/
def travelerOrder (traveler : Option Traveler) : WithTop ℕ :=
  match Keyed.last (·.1.id) v.travelers.zipIdx ((traveler.map (·.id)).getD "") with
  | some (_, i) => i
  | none => ⊤

/-! ## Narrowing -/

/-- `matching`. -/
def matching : List PackableRow :=
  v.items.filter fun row =>
    (! v.closingPass || (passSection row).isSome) && v.passesFacets row && v.matchesSearch toLowerCase row

/-- `revealable`. -/
def revealable (row : PackableRow) : Bool :=
  v.showDone || v.searching toLowerCase || ! v.done row || v.revealedByStatus row

/-- `others`. -/
def others : List PackableRow :=
  (v.matching toLowerCase).filter fun row =>
    v.othersJob row && ! v.hiddenAsLate toLowerCase row && v.revealable toLowerCase row

/-- `hiddenOtherCount`. -/
def hiddenOtherCount : ℕ :=
  if v.showOthers || v.searching toLowerCase then 0 else (v.others toLowerCase).length

/-- `lateCount`. -/
def lateCount : ℕ :=
  ((v.matching toLowerCase).filter fun row =>
    row.latePacker && ! v.flagged && ! v.hiddenAsOthers toLowerCase row &&
      v.revealable toLowerCase row).length

/-- `hiddenOtherNames`. -/
def hiddenOtherNames {κ : Type} [LinearOrder κ] (collate : String → κ) : List String :=
  if v.showOthers || v.searching toLowerCase then []
  else Ranked.byRank collate (Insertion.ofList ((v.others toLowerCase).filterMap fun row =>
    (given row.packerUserId).bind fun id => (Keyed.last (·.userId) v.memberProfiles id).map (·.displayName)))

/-- `shown`. -/
def shown : List PackableRow :=
  (v.matching toLowerCase).filter fun row => ! v.hiddenAsOthers toLowerCase row && ! v.hiddenAsLate toLowerCase row

/-- `visible`: a done row that is put away is passed over. -/
def visible : List PackableRow :=
  (v.shown toLowerCase).filter fun row =>
    ! (v.done row && ! v.showDone && ! v.searching toLowerCase && ! v.revealedByStatus row)

/-- `doneCount`. -/
def doneCount : ℕ := ((v.shown toLowerCase).filter v.done).length

/-! ## Counting -/

/-- `countOf`: the closing pass counts rows that are judged. -/
def countOf (row : PackableRow) : PackUnits :=
  if v.closingPass then ⟨if rowJudged row then 1 else 0, 1⟩ else unitsOf row

/-- `clusterSizes`, of one key. -/
def clusterSize (key : String) : ℕ :=
  if v.groupBy = .person then 0
  else ((v.items.filter v.inPersonScope).filter fun row => perPersonKey toLowerCase row = some key).length

/-- `clusterKeyOf`. -/
def clusterKeyOf (row : PackableRow) : Option String :=
  (perPersonKey toLowerCase row).filter (1 < v.clusterSize toLowerCase ·)

/-- `scopedKey`: a cluster is of its group. -/
def scopedKey (row : PackableRow) : Option String :=
  (v.clusterKeyOf toLowerCase row).map fun clusterKey => (v.groupOf row).key ++ "::" ++ clusterKey

end PackingViewInput

/-- `ClusterFace`. -/
structure ClusterFace where
  traveler : Option Traveler
  done : Bool

/-- `ClusterTally`. -/
structure ClusterTally where
  units : PackUnits
  faces : List ClusterFace
  instanceIds : List String

/-- `Tallies`. -/
structure Tallies where
  groups : List (String × PackUnits)
  clusters : List (String × ClusterTally)

/-- An entry of `instances`. -/
structure Instance where
  id : String
  traveler : Option Traveler
  done : Bool

section
variable (toLowerCase : String → String) (v : PackingViewInput)

/-- One more count. -/
def PackUnits.add (a b : PackUnits) : PackUnits := ⟨a.done + b.done, a.total + b.total⟩

/-- The instance that a row is. -/
def instanceOf (row : PackableRow) : Instance := ⟨row.id, v.travelerOf row, v.done row⟩

/-- `tally`. -/
def tally (shown : List PackableRow) : Tallies :=
  let clustered := shown.filterMap fun row => (v.scopedKey toLowerCase row).map (·, row)
  let clusters := Grouping.group Prod.fst (fun c => v.countOf c.2) (fun units c => units.add (v.countOf c.2)) clustered
  let instances := Grouping.group Prod.fst (fun c => [instanceOf v c.2]) (fun list c => list ++ [instanceOf v c.2])
    clustered
  { groups := Grouping.group (fun row => (v.groupOf row).key) v.countOf (fun units row => units.add (v.countOf row))
      shown
    clusters := clusters.map fun c =>
      let list := Ranked.byRank (fun i : Instance => v.travelerOrder i.traveler)
        (((Keyed.last Prod.fst instances c.1).map (·.2)).getD [])
      (c.1, ⟨c.2, list.map fun i => ⟨i.traveler, i.done⟩, list.map (·.id)⟩) }

end

/-! ## Grouping -/

/-- `PackingRow`. -/
structure PackingRow where
  item : PackableRow
  traveler : Option Traveler
  done : Bool
  label : String

/-- `PackingCluster`. -/
structure PackingCluster where
  key : String
  name : String
  doneCount : ℤ
  totalCount : ℤ
  openCount : ℤ
  collapsed : Bool
  faces : List ClusterFace
  children : List PackingRow
  instanceIds : List String
  mode : ItemMode
  latePacker : Bool
  sourceItemId : Option String

/-- `PackingEntry`. -/
inductive PackingEntry where
  | row (r : PackingRow)
  | cluster (c : PackingCluster)

/-- `PackingGroup`. -/
structure PackingGroup where
  key : String
  name : Option String
  doneCount : ℤ
  totalCount : ℤ
  openCount : ℤ
  collapsed : Bool
  entries : List PackingEntry

/-- `entrySettled`. -/
def entrySettled : PackingEntry → Bool
  | .row r => r.done
  | .cluster c => ! c.children.isEmpty && c.children.all (·.done)

/-- `entryLate`. -/
def entryLate : PackingEntry → Bool
  | .row r => r.item.latePacker
  | .cluster c => c.latePacker

/-- The key of a cluster. -/
def PackingEntry.clusterKey : PackingEntry → Option String
  | .row _ => none
  | .cluster c => some c.key

/-- The entry with one more child, if it is the cluster of the key. -/
def PackingEntry.push (key : String) (row : PackingRow) : PackingEntry → PackingEntry
  | .row other => .row other
  | .cluster c =>
    if c.key = key then
      .cluster { c with children := c.children ++ [row], latePacker := c.latePacker || row.item.latePacker }
    else .cluster c

/-- The entries of all groups. -/
def entriesOf (groups : List PackingGroup) : List PackingEntry := groups.flatMap (·.entries)

section
variable (toLowerCase : String → String) (v : PackingViewInput) (tallies : Tallies)

/-- `rowFor`. -/
def rowFor (item : PackableRow) (standalone : Bool) : PackingRow :=
  let traveler := v.travelerOf item
  { item := item
    traveler := traveler
    done := v.done item
    label := match traveler with
      | some t =>
        if standalone ∧ v.groupBy ≠ .person ∧ ¬ v.filteredToOnly t then item.name ++ " · " ++ t.name else item.name
      | none => item.name }

/-- A group as it is opened. -/
def newGroup (head : GroupHead) : PackingGroup :=
  let units := ((Keyed.last Prod.fst tallies.groups head.key).map (·.2)).getD ⟨0, 0⟩
  { key := head.key
    name := head.name
    doneCount := units.done
    totalCount := units.total
    openCount := units.total - units.done
    collapsed := head.key ∈ v.collapsedGroups
    entries := [] }

/-- A cluster as it is opened by its first row. -/
def newCluster (key : String) (item : PackableRow) : PackingCluster :=
  let counted := (Keyed.last Prod.fst tallies.clusters key).map (·.2)
  let units := (counted.map (·.units)).getD ⟨0, 0⟩
  { key := key
    name := item.name
    doneCount := units.done
    totalCount := units.total
    openCount := units.total - units.done
    collapsed := key ∉ v.expandedClusters
    faces := (counted.map (·.faces)).getD []
    children := []
    instanceIds := (counted.map (·.instanceIds)).getD []
    mode := item.mode
    latePacker := false
    sourceItemId := item.sourceItemId }

/-- The groups with that of the row. -/
def openGroup (head : GroupHead) (groups : List PackingGroup) : List PackingGroup :=
  if head.key ∈ groups.map (·.key) then groups else groups ++ [newGroup v tallies head]

/-- An entry is put into a group. -/
def pushEntry (key : String) (entry : PackingEntry) (groups : List PackingGroup) : List PackingGroup :=
  groups.map fun g => if g.key = key then { g with entries := g.entries ++ [entry] } else g

/-- A row is put into a cluster, wherever that stands. -/
def pushChild (key : String) (row : PackingRow) (groups : List PackingGroup) : List PackingGroup :=
  groups.map fun g => { g with entries := g.entries.map (·.push key row) }

/-- What `grouping` does with a row. -/
def place (groups : List PackingGroup) (item : PackableRow) : List PackingGroup :=
  let head := v.groupOf item
  let groups := openGroup v tallies head groups
  match v.scopedKey toLowerCase item with
  | none => pushEntry head.key (.row (rowFor v item true)) groups
  | some key =>
    let groups := if some key ∈ (entriesOf groups).map (·.clusterKey) then groups
      else pushEntry head.key (.cluster (newCluster v tallies key item)) groups
    pushChild key (rowFor v item false) groups

/-- The children of a cluster in roster order. -/
def sortChildren : PackingEntry → PackingEntry
  | .row r => .row r
  | .cluster c => .cluster { c with children := Ranked.byRank (fun r => v.travelerOrder r.traveler) c.children }

/-- What is to do, what is packed on the way out, and what is settled. -/
def sink (entries : List PackingEntry) : List PackingEntry :=
  let opened := entries.filter (! entrySettled ·)
  opened.filter (! entryLate ·) ++ opened.filter entryLate ++ entries.filter entrySettled

/-- `grouping`. -/
def grouping {κ : Type} [LinearOrder κ] (collate : String → κ) (visible : List PackableRow) : List PackingGroup :=
  let groups := visible.foldl (place toLowerCase v tallies) []
  let groups := groups.map fun g => { g with entries := g.entries.map (sortChildren v) }
  let groups := if v.closingPass then groups else groups.map fun g => { g with entries := sink g.entries }
  Ranked.byRank (fun g => g.name.elim (⊤ : WithTop κ) fun name => collate name) groups

end

/-- `PackingView`, less what the filter's panel offers. -/
structure PackingView where
  groups : List PackingGroup
  doneCount : ℕ
  hiddenOtherCount : ℕ
  lateCount : ℕ
  hiddenOtherNames : List String
  activeFacetCount : ℕ
  matchCount : ℕ
  openRowCount : ℕ
  narrowed : Bool

/-- `buildPackingView`. -/
def buildPackingView {κ : Type} [LinearOrder κ] (toLowerCase : String → String) (collate : String → κ)
    (v : PackingViewInput) : PackingView :=
  let tallies := tally toLowerCase v (v.shown toLowerCase)
  let activeFacetCount := facetKeys.foldl (fun n key => n + (v.facets key).length) 0
  { groups := grouping toLowerCase v tallies collate (v.visible toLowerCase)
    doneCount := v.doneCount toLowerCase
    hiddenOtherCount := v.hiddenOtherCount toLowerCase
    lateCount := v.lateCount toLowerCase
    hiddenOtherNames := v.hiddenOtherNames toLowerCase collate
    activeFacetCount := activeFacetCount
    matchCount := (v.items.filter fun row => v.passesFacets row && ! v.done row).length
    openRowCount := (v.items.filter fun row => ! v.done row).length
    narrowed := 0 < activeFacetCount || v.searching toLowerCase || 0 < v.hiddenOtherCount toLowerCase ||
      ! v.showLate && 0 < v.lateCount toLowerCase }

/-! ## Counts -/

section
variable {toLowerCase : String → String} {v : PackingViewInput} {shown : List PackableRow} {key : String}

/-- What some values add up to. -/
def PackUnits.sum {α : Type*} (f : α → PackUnits) (l : List α) : PackUnits :=
  ⟨(l.map fun a => (f a).done).sum, (l.map fun a => (f a).total).sum⟩

theorem foldl_add {α : Type*} (f : α → PackUnits) (l : List α) (u : PackUnits) :
    l.foldl (fun u a => u.add (f a)) u = u.add (PackUnits.sum f l) := by
  induction l generalizing u with
  | nil => simp [PackUnits.sum, PackUnits.add]
  | cons a l ih =>
    rw [List.foldl_cons, ih]
    simp [PackUnits.sum, PackUnits.add, add_assoc]

theorem gather_add {α : Type*} (f : α → PackUnits) {l : List α} (h : l ≠ []) :
    Grouping.gather f (fun u a => u.add (f a)) l = some (PackUnits.sum f l) := by
  cases l with
  | nil => exact absurd rfl h
  | cons a l =>
    rw [Grouping.gather, foldl_add]
    simp [PackUnits.sum, PackUnits.add]

theorem gather_map {α β : Type*} (f : α → β) {l : List α} (h : l ≠ []) :
    Grouping.gather (fun a => [f a]) (fun list a => list ++ [f a]) l = some (l.map f) := by
  induction l using List.reverseRecOn with
  | nil => exact absurd rfl h
  | append_singleton l a ih =>
    rw [Grouping.gather_append_singleton]
    cases l with
    | nil => rfl
    | cons b l => rw [ih (List.cons_ne_nil b l), Option.elim_some, List.map_append, List.map_singleton]

/-- Reading a map that a loop has filled. -/
theorem last_group {γ κ ν : Type*} [DecidableEq κ] {key : γ → κ} {start : γ → ν} {more : ν → γ → ν} (cs : List γ)
    (k : κ) : (Keyed.last Prod.fst (Grouping.group key start more cs) k).map (·.2) =
      Grouping.gather start more (cs.filter (key · = k)) := by
  refine Option.ext fun a => ?_
  rw [Option.map_eq_some_iff]
  constructor
  · rintro ⟨⟨k', a⟩, h, rfl⟩
    obtain ⟨hmem, rfl⟩ := Keyed.mem_of_last h
    exact Grouping.mem_group.1 hmem
  · intro h
    exact ⟨(k, a), (Keyed.last_eq_some_iff (Grouping.nodup_keys_group cs)).2 ⟨Grouping.mem_group.2 h, rfl⟩, rfl⟩

/-- **A group counts the rows of its key.** -/
theorem tally_groups (key : String) :
    ((Keyed.last Prod.fst (tally toLowerCase v shown).groups key).map (·.2)).getD ⟨0, 0⟩ =
      PackUnits.sum v.countOf (shown.filter fun row => (v.groupOf row).key = key) := by
  rw [tally, last_group]
  cases hrows : shown.filter fun row => (v.groupOf row).key = key with
  | nil => rfl
  | cons row rows => rw [gather_add v.countOf (List.cons_ne_nil row rows), Option.getD_some]

/-- The rows of a cluster, in roster order. -/
def clusterRows (toLowerCase : String → String) (v : PackingViewInput) (shown : List PackableRow) (key : String) :
    List PackableRow :=
  Ranked.byRank (fun row => v.travelerOrder (v.travelerOf row))
    (shown.filter fun row => v.scopedKey toLowerCase row = some key)

/-- The rows that have a key, among those that are read with their keys. -/
theorem filter_keyed {α κ : Type*} [DecidableEq κ] (f : α → Option κ) (l : List α) (k : κ) :
    (l.filterMap fun a => (f a).map (·, a)).filter (·.1 = k) = (l.filter (f · = some k)).map (k, ·) := by
  induction l with
  | nil => rfl
  | cons a l ih =>
    cases hf : f a with
    | none => simp [hf, ih]
    | some k' =>
      by_cases hk : k' = k
      · subst hk
        simp [hf, ih]
      · simp [hf, hk, ih]

/-- Reading a map that is filled with what has a key. -/
theorem last_group_keyed {α κ ν : Type*} [DecidableEq κ] (start : α → ν) (more : ν → α → ν) (f : α → Option κ)
    (l : List α) (k : κ) :
    (Keyed.last Prod.fst (Grouping.group Prod.fst (fun c => start c.2) (fun u c => more u c.2)
      (l.filterMap fun a => (f a).map (·, a))) k).map (·.2) = Grouping.gather start more (l.filter (f · = some k)) := by
  rw [last_group, filter_keyed]
  cases l.filter (f · = some k) with
  | nil => rfl
  | cons a l => rw [List.map_cons, Grouping.gather, Grouping.gather, List.foldl_map]

theorem last_map {α β κ : Type*} [DecidableEq κ] {key : α → κ} {key' : β → κ} {f : α → β} (h : ∀ a, key' (f a) = key a)
    (rows : List α) (k : κ) : Keyed.last key' (rows.map f) k = (Keyed.last key rows k).map f := by
  rw [Keyed.last, Keyed.last, ← List.map_reverse, List.find?_map]
  congr 2
  funext a
  simp [h]

/-- **A cluster counts the rows of its key**, and has their faces and ids. -/
theorem tally_clusters {row : PackableRow} (hrow : row ∈ shown) (hkey : v.scopedKey toLowerCase row = some key) :
    (Keyed.last Prod.fst (tally toLowerCase v shown).clusters key).map (·.2) =
      some ⟨PackUnits.sum v.countOf (shown.filter fun row => v.scopedKey toLowerCase row = some key),
        (clusterRows toLowerCase v shown key).map fun row => ⟨v.travelerOf row, v.done row⟩,
        (clusterRows toLowerCase v shown key).map (·.id)⟩ := by
  have hrows : shown.filter (fun row => v.scopedKey toLowerCase row = some key) ≠ [] :=
    List.ne_nil_of_mem (List.mem_filter.2 ⟨hrow, decide_eq_true hkey⟩)
  have hunits := last_group_keyed v.countOf (fun units row => units.add (v.countOf row)) (v.scopedKey toLowerCase) shown
    key
  have hlist := last_group_keyed (fun row => [instanceOf v row]) (fun list row => list ++ [instanceOf v row])
    (v.scopedKey toLowerCase) shown key
  rw [gather_add v.countOf hrows] at hunits
  rw [gather_map (instanceOf v) hrows] at hlist
  obtain ⟨⟨key', units⟩, hfound, rfl⟩ := Option.map_eq_some_iff.1 hunits
  obtain rfl : key' = key := (Keyed.mem_of_last hfound).2
  unfold tally
  dsimp only
  rw [last_map fun _ => rfl, hfound, Option.map_some, Option.map_some, hlist, Option.getD_some, Ranked.byRank_map,
    List.map_map, List.map_map]
  rfl

end

/-! ## Laying out -/

/-- The rows of an entry. -/
def PackingEntry.rows : PackingEntry → List PackableRow
  | .row r => [r.item]
  | .cluster c => c.children.map (·.item)

/-- The rows of a group. -/
def PackingGroup.rows (g : PackingGroup) : List PackableRow := g.entries.flatMap (·.rows)

/-- A group says what the tally has for its key. -/
def PackingGroup.Headed (tallies : Tallies) (g : PackingGroup) : Prop :=
  (⟨g.doneCount, g.totalCount⟩ : PackUnits) = ((Keyed.last Prod.fst tallies.groups g.key).map (·.2)).getD ⟨0, 0⟩ ∧
    g.openCount = g.totalCount - g.doneCount

/-- A cluster says what the tally has for its key. -/
def PackingCluster.Headed (tallies : Tallies) (c : PackingCluster) : Prop :=
  let counted := (Keyed.last Prod.fst tallies.clusters c.key).map (·.2)
  (⟨c.doneCount, c.totalCount⟩ : PackUnits) = (counted.map (·.units)).getD ⟨0, 0⟩ ∧
    c.openCount = c.totalCount - c.doneCount ∧ c.faces = (counted.map (·.faces)).getD [] ∧
      c.instanceIds = (counted.map (·.instanceIds)).getD []

section
variable (toLowerCase : String → String) (v : PackingViewInput) (tallies : Tallies) (all rows : List PackableRow)

/-- An entry of rows that are filed under its key. -/
def PackingEntry.Filed : PackingEntry → Prop
  | .row r => v.scopedKey toLowerCase r.item = none
  | .cluster c => c.Headed tallies ∧ ∀ child ∈ c.children, v.scopedKey toLowerCase child.item = some c.key

/-- The entry was put into the group of one of its rows. -/
def PackingEntry.Home (key : String) : PackingEntry → Prop
  | .row r => (v.groupOf r.item).key = key
  | .cluster c => ∃ row ∈ all, v.scopedKey toLowerCase row = some c.key ∧ (v.groupOf row).key = key

/-- **The groups after some rows**: every row is in one place. -/
structure Placed (groups : List PackingGroup) : Prop where
  keys : (groups.map (·.key)).Nodup
  clusters : ((entriesOf groups).filterMap (·.clusterKey)).Nodup
  rows : ((entriesOf groups).flatMap (·.rows)).Perm rows
  heads : ∀ g ∈ groups, g.Headed tallies
  filed : ∀ e ∈ entriesOf groups, e.Filed toLowerCase v tallies
  homes : ∀ g ∈ groups, ∀ e ∈ g.entries, e.Home toLowerCase v all g.key

end

section
variable {toLowerCase : String → String} {v : PackingViewInput} {tallies : Tallies} {all rows : List PackableRow}
variable {groups : List PackingGroup} {entries : List PackingEntry} {e : PackingEntry} {r : PackingRow} {key : String}
variable {item : PackableRow} {head : GroupHead}

theorem clusterKey_push : (e.push key r).clusterKey = e.clusterKey := by
  cases e with
  | row => rfl
  | cluster c =>
    unfold PackingEntry.push
    dsimp only
    split <;> rfl

theorem push_of_ne (h : e.clusterKey ≠ some key) : e.push key r = e := by
  cases e with
  | row => rfl
  | cluster c => exact if_neg fun hkey => h (congrArg some hkey)

/-- A row that is put into a cluster is there once. -/
theorem rows_push (hkeys : (entries.filterMap (·.clusterKey)).Nodup) (h : some key ∈ entries.map (·.clusterKey)) :
    ((entries.map (·.push key r)).flatMap (·.rows)).Perm (r.item :: entries.flatMap (·.rows)) := by
  induction entries with
  | nil => cases h
  | cons e entries ih =>
    rw [List.map_cons, List.flatMap_cons, List.flatMap_cons]
    by_cases he : e.clusterKey = some key
    · rw [List.filterMap_cons_some he, List.nodup_cons] at hkeys
      have hrest : entries.map (·.push key r) = entries := by
        refine (List.map_congr_left fun e' he' => push_of_ne fun hkey => hkeys.1 ?_).trans (List.map_id _)
        exact List.mem_filterMap.2 ⟨e', he', hkey⟩
      cases e with
      | row => cases he
      | cluster c =>
        cases he
        rw [hrest, PackingEntry.push, if_pos rfl]
        simp only [PackingEntry.rows, List.map_append, List.map_singleton, List.append_assoc, List.singleton_append]
        exact List.perm_middle
    · have hkeys' : (entries.filterMap (·.clusterKey)).Nodup :=
        hkeys.sublist ((List.sublist_cons_self e entries).filterMap _)
      rw [push_of_ne he]
      refine ((ih hkeys' ?_).append_left _).trans List.perm_middle
      exact (List.mem_cons.1 h).resolve_left (Ne.symm he)

@[simp] theorem entriesOf_openGroup : entriesOf (openGroup v tallies head groups) = entriesOf groups := by
  unfold openGroup
  split
  · rfl
  · simp [entriesOf, newGroup]

theorem keys_openGroup :
    (openGroup v tallies head groups).map (·.key) = Insertion.add (groups.map (·.key)) head.key := by
  unfold openGroup Insertion.add
  split
  · rfl
  · simp [newGroup]

@[simp] theorem keys_pushEntry : (pushEntry key e groups).map (·.key) = groups.map (·.key) := by
  rw [pushEntry, List.map_map]
  refine List.map_congr_left fun g _ => ?_
  dsimp only [Function.comp_apply]
  split <;> rfl

/-- An entry that is put into a group is there once. -/
theorem entriesOf_pushEntry (hkeys : (groups.map (·.key)).Nodup) (h : key ∈ groups.map (·.key)) :
    (entriesOf (pushEntry key e groups)).Perm (e :: entriesOf groups) := by
  induction groups with
  | nil => cases h
  | cons g groups ih =>
    obtain ⟨hnew, hkeys⟩ := List.nodup_cons.1 hkeys
    unfold pushEntry entriesOf at *
    rw [List.map_cons, List.flatMap_cons, List.flatMap_cons]
    split
    · next hg =>
      have hrest : (groups.map fun g => if g.key = key then { g with entries := g.entries ++ [e] } else g) =
          groups := by
        refine (List.map_congr_left fun g' hg' => if_neg fun hkey => hnew ?_).trans (List.map_id _)
        exact List.mem_map.2 ⟨g', hg', hkey.trans hg.symm⟩
      rw [hrest, List.append_assoc, List.singleton_append]
      exact List.perm_middle
    · next hg =>
      refine ((ih hkeys ?_).append_left _).trans List.perm_middle
      exact (List.mem_cons.1 h).resolve_left (Ne.symm hg)

@[simp] theorem keys_pushChild : (pushChild key r groups).map (·.key) = groups.map (·.key) := by
  rw [pushChild, List.map_map]
  rfl

theorem entriesOf_pushChild : entriesOf (pushChild key r groups) = (entriesOf groups).map (·.push key r) := by
  rw [pushChild, entriesOf, List.flatMap_map, entriesOf, List.map_flatMap]

theorem Placed.openGroup (h : Placed toLowerCase v tallies all rows groups) (head : GroupHead) :
    Placed toLowerCase v tallies all rows (openGroup v tallies head groups) := by
  have hmem : ∀ g ∈ Packing.openGroup v tallies head groups, g ∈ groups ∨ g = newGroup v tallies head := by
    unfold Packing.openGroup
    split
    · exact fun g hg => .inl hg
    · simp
  refine ⟨?_, ?_, ?_, fun g hg => ?_, ?_, fun g hg => ?_⟩
  · rw [keys_openGroup]
    exact Insertion.nodup_add h.keys
  · rw [entriesOf_openGroup]
    exact h.clusters
  · rw [entriesOf_openGroup]
    exact h.rows
  · rcases hmem g hg with hg | rfl
    · exact h.heads g hg
    · exact ⟨rfl, rfl⟩
  · rw [entriesOf_openGroup]
    exact h.filed
  · rcases hmem g hg with hg | rfl
    · exact h.homes g hg
    · exact fun e he => (nomatch he)

/-- An entry is put into a group. -/
theorem Placed.pushEntry (h : Placed toLowerCase v tallies all rows groups) (hkey : key ∈ groups.map (·.key))
    (hnew : ∀ k, e.clusterKey = some k → some k ∉ (entriesOf groups).map (·.clusterKey))
    (hfiled : e.Filed toLowerCase v tallies) (hhome : e.Home toLowerCase v all key) :
    Placed toLowerCase v tallies all (e.rows ++ rows) (pushEntry key e groups) := by
  have hperm := entriesOf_pushEntry (e := e) h.keys hkey
  have hmem : ∀ g ∈ Packing.pushEntry key e groups, ∃ g' ∈ groups, g = { g' with entries := g.entries } ∧
      ∀ e' ∈ g.entries, e' ∈ g'.entries ∨ e' = e ∧ g'.key = key := by
    intro g hg
    obtain ⟨g', hg', rfl⟩ := List.mem_map.1 hg
    refine ⟨g', hg', ?_, ?_⟩
    · split <;> rfl
    · split
      · next hk => simp [hk]
      · exact fun e' he' => .inl he'
  refine ⟨?_, ?_, ?_, fun g hg => ?_, fun e' he' => ?_, fun g hg e' he' => ?_⟩
  · rw [keys_pushEntry]
    exact h.keys
  · refine (hperm.filterMap _).nodup_iff.2 ?_
    cases hek : e.clusterKey with
    | none => exact (List.filterMap_cons_none hek).symm ▸ h.clusters
    | some k =>
      rw [List.filterMap_cons_some hek, List.nodup_cons]
      refine ⟨fun hin => hnew k hek ?_, h.clusters⟩
      obtain ⟨e', he', hk⟩ := List.mem_filterMap.1 hin
      exact List.mem_map.2 ⟨e', he', hk⟩
  · refine (hperm.flatMap_right _).trans ?_
    rw [List.flatMap_cons]
    exact h.rows.append_left _
  · obtain ⟨g', hg', heq, -⟩ := hmem g hg
    rw [heq]
    exact h.heads g' hg'
  · rcases List.mem_cons.1 (hperm.mem_iff.1 he') with rfl | he'
    · exact hfiled
    · exact h.filed e' he'
  · obtain ⟨g', hg', heq, hentries⟩ := hmem g hg
    have hgkey : g.key = g'.key := by rw [heq]
    rw [hgkey]
    rcases hentries e' he' with he' | ⟨rfl, hk⟩
    · exact h.homes g' hg' e' he'
    · exact hk ▸ hhome

/-- A row is put into the cluster of its key. -/
theorem Placed.pushChild (h : Placed toLowerCase v tallies all rows groups)
    (hkey : some key ∈ (entriesOf groups).map (·.clusterKey)) (hr : v.scopedKey toLowerCase r.item = some key) :
    Placed toLowerCase v tallies all (r.item :: rows) (pushChild key r groups) := by
  refine ⟨?_, ?_, ?_, fun g hg => ?_, fun e he => ?_, fun g hg e he => ?_⟩
  · rw [keys_pushChild]
    exact h.keys
  · rw [entriesOf_pushChild, List.filterMap_map]
    have hsame : PackingEntry.clusterKey ∘ (·.push key r) = PackingEntry.clusterKey := funext fun _ => clusterKey_push
    rw [hsame]
    exact h.clusters
  · rw [entriesOf_pushChild]
    exact (rows_push h.clusters hkey).trans (h.rows.cons _)
  · obtain ⟨g', hg', rfl⟩ := List.mem_map.1 hg
    exact h.heads g' hg'
  · rw [entriesOf_pushChild] at he
    obtain ⟨e', he', rfl⟩ := List.mem_map.1 he
    have hfiled := h.filed e' he'
    by_cases hek : e'.clusterKey = some key
    · cases e' with
      | row => cases hek
      | cluster c =>
        cases hek
        obtain ⟨hhead, hchildren⟩ := hfiled
        rw [PackingEntry.push, if_pos rfl]
        refine ⟨hhead, fun child hchild => ?_⟩
        rcases List.mem_append.1 hchild with hchild | hchild
        · exact hchildren child hchild
        · rw [List.mem_singleton.1 hchild]
          exact hr
    · exact (push_of_ne hek).symm ▸ hfiled
  · obtain ⟨g', hg', rfl⟩ := List.mem_map.1 hg
    obtain ⟨e', he', rfl⟩ := List.mem_map.1 he
    have hhome := h.homes g' hg' e' he'
    cases e' with
    | row => exact hhome
    | cluster c =>
      unfold PackingEntry.push
      dsimp only
      split
      · exact hhome
      · exact hhome

/-- **A row is put in one place.** -/
theorem Placed.place (h : Placed toLowerCase v tallies all rows groups) (hitem : item ∈ all) :
    Placed toLowerCase v tallies all (item :: rows) (place toLowerCase v tallies groups item) := by
  have hopen := h.openGroup (v.groupOf item)
  have hkey : (v.groupOf item).key ∈ (Packing.openGroup v tallies (v.groupOf item) groups).map (·.key) := by
    rw [keys_openGroup]
    exact Insertion.mem_add.2 (.inr rfl)
  unfold Packing.place
  dsimp only
  cases hscoped : v.scopedKey toLowerCase item with
  | none =>
    have hrow : PackingEntry.Filed toLowerCase v tallies (.row (rowFor v item true)) := hscoped
    exact hopen.pushEntry hkey (fun k hk => by cases hk) hrow rfl
  | some key =>
    have hrow : v.scopedKey toLowerCase (rowFor v item false).item = some key := hscoped
    dsimp only
    split
    · next hold => exact hopen.pushChild hold hrow
    · next hnew =>
      have hfiled : PackingEntry.Filed toLowerCase v tallies (.cluster (newCluster v tallies key item)) := by
        refine ⟨⟨rfl, rfl, rfl, rfl⟩, fun child hchild => ?_⟩
        cases hchild
      have hhome : PackingEntry.Home toLowerCase v all (v.groupOf item).key
          (.cluster (newCluster v tallies key item)) := ⟨item, hitem, hscoped, rfl⟩
      have hcluster := hopen.pushEntry hkey (fun k hk => by cases hk; exact hnew) hfiled hhome
      refine hcluster.pushChild ?_ hrow
      exact List.mem_map.2 ⟨_, (entriesOf_pushEntry hopen.keys hkey).mem_iff.2 List.mem_cons_self, rfl⟩

/-- **After all rows, every row is in one place.** -/
theorem placed_foldl (h : Placed toLowerCase v tallies all rows groups) {items : List PackableRow}
    (hitems : ∀ item ∈ items, item ∈ all) :
    Placed toLowerCase v tallies all (items ++ rows) (items.foldl (place toLowerCase v tallies) groups) := by
  induction items generalizing rows groups with
  | nil => exact h
  | cons item items ih =>
    have hrest := ih (h.place (hitems item List.mem_cons_self)) fun i hi => hitems i (List.mem_cons_of_mem _ hi)
    rw [List.foldl_cons]
    exact { hrest with rows := hrest.rows.trans List.perm_middle }

theorem sink_perm (entries : List PackingEntry) : (sink entries).Perm entries := by
  have hopen : ∀ l : List PackingEntry, (l.filter (! entryLate ·) ++ l.filter entryLate).Perm l := fun l =>
    List.perm_append_comm.trans (List.filter_append_perm entryLate l)
  have hsettled := List.perm_append_comm.trans (List.filter_append_perm entrySettled entries)
  unfold sink
  exact ((hopen _).append_right _).trans hsettled

/-- The group with its entries in another order, and their children. -/
structure Rearranged (v : PackingViewInput) (g g' : PackingGroup) : Prop where
  same : g' = { g with entries := g'.entries }
  entries : g'.entries.Perm (g.entries.map (sortChildren v))

theorem clusterKey_sortChildren : (sortChildren v e).clusterKey = e.clusterKey := by
  cases e <;> rfl

theorem rows_sortChildren : (sortChildren v e).rows.Perm e.rows := by
  cases e with
  | row => exact .refl _
  | cluster c => exact (Ranked.byRank_perm _ _).map _

theorem filed_sortChildren (h : e.Filed toLowerCase v tallies) : (sortChildren v e).Filed toLowerCase v tallies := by
  cases e with
  | row => exact h
  | cluster c => exact ⟨h.1, fun child hchild => h.2 child (Ranked.mem_byRank.1 hchild)⟩

theorem home_sortChildren (h : e.Home toLowerCase v all key) : (sortChildren v e).Home toLowerCase v all key := by
  cases e <;> exact h

theorem Placed.rearrange (h : Placed toLowerCase v tallies all rows groups) {f : PackingGroup → PackingGroup}
    (hf : ∀ g, Rearranged v g (f g)) : Placed toLowerCase v tallies all rows (groups.map f) := by
  have hkey : ∀ g, (f g).key = g.key := fun g => by rw [(hf g).same]
  have hperm : (entriesOf (groups.map f)).Perm ((entriesOf groups).map (sortChildren v)) := by
    rw [entriesOf, List.flatMap_map, entriesOf, List.map_flatMap]
    exact List.Perm.flatMap_left _ fun g _ => (hf g).entries
  refine ⟨?_, ?_, ?_, fun g hg => ?_, fun e he => ?_, fun g hg e he => ?_⟩
  · have hkeys : (groups.map f).map (·.key) = groups.map (·.key) := by
      rw [List.map_map]
      exact List.map_congr_left fun g _ => hkey g
    exact hkeys ▸ h.keys
  · refine (hperm.filterMap _).nodup_iff.2 ?_
    have hsame : PackingEntry.clusterKey ∘ sortChildren v = PackingEntry.clusterKey :=
      funext fun _ => clusterKey_sortChildren
    rw [List.filterMap_map, hsame]
    exact h.clusters
  · refine (hperm.flatMap_right _).trans (List.Perm.trans ?_ h.rows)
    rw [List.flatMap_map]
    exact List.Perm.flatMap_left _ fun e _ => rows_sortChildren
  · obtain ⟨g', hg', rfl⟩ := List.mem_map.1 hg
    rw [(hf g').same]
    exact h.heads g' hg'
  · obtain ⟨e', he', rfl⟩ := List.mem_map.1 (hperm.mem_iff.1 he)
    exact filed_sortChildren (h.filed e' he')
  · obtain ⟨g', hg', rfl⟩ := List.mem_map.1 hg
    obtain ⟨e', he', rfl⟩ := List.mem_map.1 ((hf g').entries.mem_iff.1 he)
    rw [hkey g']
    exact home_sortChildren (h.homes g' hg' e' he')

theorem Placed.perm (h : Placed toLowerCase v tallies all rows groups) {groups' : List PackingGroup}
    (hperm : groups'.Perm groups) : Placed toLowerCase v tallies all rows groups' := by
  have hentries : (entriesOf groups').Perm (entriesOf groups) := hperm.flatMap_right _
  exact ⟨(hperm.map _).nodup_iff.2 h.keys, (hentries.filterMap _).nodup_iff.2 h.clusters,
    (hentries.flatMap_right _).trans h.rows, fun g hg => h.heads g (hperm.mem_iff.1 hg),
    fun e he => h.filed e (hentries.mem_iff.1 he), fun g hg => h.homes g (hperm.mem_iff.1 hg)⟩

/-- **The groups that are read**: every row that is visible is in one place. -/
theorem placed_grouping {κ : Type} [LinearOrder κ] (toLowerCase : String → String) (collate : String → κ)
    (v : PackingViewInput) (tallies : Tallies) (visible : List PackableRow) :
    Placed toLowerCase v tallies visible visible (grouping toLowerCase v tallies collate visible) := by
  have hnil : Placed toLowerCase v tallies visible [] [] :=
    ⟨List.nodup_nil, List.nodup_nil, .nil, fun _ h => (nomatch h), fun _ h => (nomatch h), fun _ h => (nomatch h)⟩
  have hplaced := placed_foldl hnil fun item (hitem : item ∈ visible) => hitem
  rw [List.append_nil] at hplaced
  refine Placed.perm ?_ (Ranked.byRank_perm _ _)
  split
  · exact hplaced.rearrange fun g => ⟨rfl, .refl _⟩
  · rw [List.map_map]
    exact hplaced.rearrange fun g => ⟨rfl, sink_perm _⟩

end

/-! ## The view -/

/-- No two clusters of different groups have one key. -/
def ClustersApart (toLowerCase : String → String) (v : PackingViewInput) (rows : List PackableRow) : Prop :=
  ∀ a ∈ rows, ∀ b ∈ rows, ∀ key, v.scopedKey toLowerCase a = some key → v.scopedKey toLowerCase b = some key →
    (v.groupOf a).key = (v.groupOf b).key

/-- The key of an item starts with a letter. -/
theorem perPersonKey_head {toLowerCase : String → String} {row : PackableRow} {key : String}
    (h : perPersonKey toLowerCase row = some key) : key.toList.head? ≠ some ':' := by
  obtain ⟨-, -, rfl⟩ := Option.map_eq_some_iff.1 h
  split <;> simp

/-- **The clusters of different groups are apart**, if no group has the separator in its key. -/
theorem clustersApart_of_plain {toLowerCase : String → String} {v : PackingViewInput} {rows : List PackableRow}
    (h : ∀ row ∈ rows, ¬ [':', ':'] <:+: (v.groupOf row).key.toList) : ClustersApart toLowerCase v rows := by
  -- a key that goes on where the other one ends has the separator there
  have hsplit : ∀ (g g' : List Char) (k k' : List Char), k.head? ≠ some ':' → ¬ [':', ':'] <:+: g' →
      ∀ rest, g' = g ++ rest → ':' :: ':' :: k = rest ++ ':' :: ':' :: k' → g = g' := by
    intro g g' k k' hk hg rest hrest he
    match rest with
    | [] => rw [hrest, List.append_nil]
    | [c] =>
      obtain ⟨-, he⟩ := List.cons.inj he
      obtain ⟨-, rfl⟩ := List.cons.inj he
      exact absurd rfl hk
    | c :: d :: rest =>
      obtain ⟨hc, htail⟩ := List.cons.inj he
      obtain ⟨hd, -⟩ := List.cons.inj htail
      exact absurd ⟨g, rest, by rw [hrest, ← hc, ← hd]; simp⟩ hg
  intro a ha b hb key hkey hkey'
  obtain ⟨k, hk, rfl⟩ := Option.map_eq_some_iff.1 hkey
  obtain ⟨k', hk', heq⟩ := Option.map_eq_some_iff.1 hkey'
  have hhead := perPersonKey_head (Option.filter_eq_some_iff.1 hk).1
  have hhead' := perPersonKey_head (Option.filter_eq_some_iff.1 hk').1
  have htexts : (v.groupOf b).key.toList ++ ':' :: ':' :: k'.toList =
      (v.groupOf a).key.toList ++ ':' :: ':' :: k.toList := by
    simpa using congrArg String.toList heq
  refine String.toList_injective ?_
  rcases List.append_eq_append_iff.1 htexts with ⟨rest, hrest, he⟩ | ⟨rest, hrest, he⟩
  · exact (hsplit _ _ _ _ hhead' (h a ha) rest hrest he).symm
  · exact hsplit _ _ _ _ hhead (h b hb) rest hrest he

/-- What a group says of the rows that it counts. -/
structure GroupCounts (count : PackableRow → PackUnits) (counted : List PackableRow) (g : PackingGroup) : Prop where
  units : (⟨g.doneCount, g.totalCount⟩ : PackUnits) = PackUnits.sum count counted
  opened : g.openCount = g.totalCount - g.doneCount

/-- What a cluster says of the rows that it counts. -/
structure ClusterCounts (v : PackingViewInput) (counted : List PackableRow) (c : PackingCluster) : Prop where
  units : (⟨c.doneCount, c.totalCount⟩ : PackUnits) = PackUnits.sum v.countOf counted
  opened : c.openCount = c.totalCount - c.doneCount
  named : ∃ rows : List PackableRow, rows.Perm counted ∧ c.instanceIds = rows.map (·.id) ∧
    c.faces = rows.map fun row => ⟨v.travelerOf row, v.done row⟩

/-- **The list counts what it shows**: every visible row is in one place, and every head adds up the rows of its key
that the filter lets through. -/
structure Laid (toLowerCase : String → String) (v : PackingViewInput) (groups : List PackingGroup) : Prop where
  rows : (groups.flatMap (·.rows)).Perm (v.visible toLowerCase)
  keys : (groups.map (·.key)).Nodup
  clusters : ((entriesOf groups).filterMap (·.clusterKey)).Nodup
  heads : ∀ g ∈ groups,
    GroupCounts v.countOf ((v.shown toLowerCase).filter fun row => (v.groupOf row).key = g.key) g
  counted : ∀ c, .cluster c ∈ entriesOf groups →
    ClusterCounts v ((v.shown toLowerCase).filter fun row => v.scopedKey toLowerCase row = some c.key) c
  single : ∀ r, .row r ∈ entriesOf groups → v.scopedKey toLowerCase r.item = none
  children : ∀ c, .cluster c ∈ entriesOf groups → ∀ r ∈ c.children, v.scopedKey toLowerCase r.item = some c.key
  homes : ClustersApart toLowerCase v (v.visible toLowerCase) →
    ∀ g ∈ groups, ∀ row ∈ g.rows, (v.groupOf row).key = g.key

section
variable {κ : Type} [LinearOrder κ] (toLowerCase : String → String) (collate : String → κ) (v : PackingViewInput)

theorem visible_subset {row : PackableRow} (h : row ∈ v.visible toLowerCase) : row ∈ v.shown toLowerCase :=
  (List.mem_filter.1 h).1

/-- **The view is laid out so.** -/
theorem laid_groups : Laid toLowerCase v (buildPackingView toLowerCase collate v).groups := by
  have h : Placed toLowerCase v (tally toLowerCase v (v.shown toLowerCase)) (v.visible toLowerCase)
      (v.visible toLowerCase) (buildPackingView toLowerCase collate v).groups :=
    placed_grouping toLowerCase collate v _ _
  have hrows : ((buildPackingView toLowerCase collate v).groups.flatMap (·.rows)).Perm (v.visible toLowerCase) := by
    refine List.Perm.trans (.of_eq ?_) h.rows
    rw [entriesOf, List.flatMap_assoc]
    rfl
  refine ⟨hrows, h.keys, h.clusters, fun g hg => ⟨?_, (h.heads g hg).2⟩, fun c hc => ?_, fun r hr => h.filed _ hr,
    fun c hc => (h.filed _ hc).2, fun hapart g hg row hrow => ?_⟩
  · rw [(h.heads g hg).1, tally_groups]
  · -- the cluster was opened by a row of its key
    obtain ⟨g, hg, hgc⟩ := List.mem_flatMap.1 hc
    obtain ⟨row, hrow, hkey, -⟩ := h.homes g hg _ hgc
    obtain ⟨⟨hunits, hopen, hfaces, hids⟩, -⟩ := h.filed _ hc
    have hcounted := tally_clusters (visible_subset toLowerCase v hrow) hkey
    rw [hcounted] at hunits hfaces hids
    exact ⟨hunits, hopen, clusterRows toLowerCase v (v.shown toLowerCase) c.key, Ranked.byRank_perm _ _, hids, hfaces⟩
  · obtain ⟨e, he, hrow⟩ := List.mem_flatMap.1 hrow
    have hhome := h.homes g hg e he
    have hentry : e ∈ entriesOf (buildPackingView toLowerCase collate v).groups := List.mem_flatMap.2 ⟨g, hg, he⟩
    have hvisible : row ∈ v.visible toLowerCase :=
      hrows.mem_iff.1 (List.mem_flatMap.2 ⟨g, hg, List.mem_flatMap.2 ⟨e, he, hrow⟩⟩)
    cases e with
    | row r =>
      rw [List.mem_singleton.1 hrow]
      exact hhome
    | cluster c =>
      obtain ⟨founder, hfounder, hkey, hgroup⟩ := hhome
      obtain ⟨child, hchild, rfl⟩ := List.mem_map.1 hrow
      rw [← hgroup]
      exact hapart _ hvisible _ hfounder c.key ((h.filed _ hentry).2 child hchild) hkey

/-- The rows that the list renders. -/
def rendered : List PackableRow := (buildPackingView toLowerCase collate v).groups.flatMap (·.rows)

theorem rendered_perm : (rendered toLowerCase collate v).Perm (v.visible toLowerCase) :=
  (laid_groups toLowerCase collate v).rows

/-- The rows that a switch brings back, if all that it changes is which rows are visible. -/
theorem revealed {v' : PackingViewInput} {further : List PackableRow}
    (h : (v'.visible toLowerCase).Perm (v.visible toLowerCase ++ further)) :
    (rendered toLowerCase collate v').Perm (rendered toLowerCase collate v ++ further) :=
  (rendered_perm toLowerCase collate v').trans (h.trans ((rendered_perm toLowerCase collate v).symm.append_right _))

/-- The visible rows, read off the ones that match. -/
theorem visible_eq : v.visible toLowerCase = (v.matching toLowerCase).filter fun row =>
    ! v.hiddenAsOthers toLowerCase row && ! v.hiddenAsLate toLowerCase row && v.revealable toLowerCase row := by
  rw [PackingViewInput.visible, PackingViewInput.shown, List.filter_filter]
  refine List.filter_congr fun row _ => ?_
  rw [Bool.and_comm, PackingViewInput.revealable]
  congr 1
  cases v.done row <;> cases v.showDone <;> cases v.searching toLowerCase <;> cases v.revealedByStatus row <;> rfl

/-- The rows of a filter, put together from those that have a property and those that do not. -/
theorem filter_split {α : Type*} (r q : α → Bool) (l : List α) :
    (l.filter q).Perm ((l.filter fun a => ! r a && q a) ++ l.filter fun a => r a && q a) := by
  have hsplit := List.perm_append_comm.trans (List.filter_append_perm r (l.filter q))
  rw [List.filter_filter, List.filter_filter] at hsplit
  exact hsplit.symm

/-- **Showing the others' rows brings back as many as it says.** -/
theorem others_revealed (h : v.searching toLowerCase = false) : ∃ further,
    (rendered toLowerCase collate { v with showOthers := true }).Perm (rendered toLowerCase collate v ++ further) ∧
      further.length = (buildPackingView toLowerCase collate v).hiddenOtherCount := by
  cases hshow : v.showOthers with
  | true =>
    have hsame : { v with showOthers := true } = v := by rw [← hshow]
    refine ⟨[], by rw [hsame, List.append_nil], ?_⟩
    show 0 = v.hiddenOtherCount toLowerCase
    rw [PackingViewInput.hiddenOtherCount, hshow, Bool.true_or, if_pos rfl]
  | false =>
    let open_ (row : PackableRow) : Bool := ! v.hiddenAsLate toLowerCase row && v.revealable toLowerCase row
    have hon : PackingViewInput.visible toLowerCase { v with showOthers := true } =
        (v.matching toLowerCase).filter open_ := visible_eq _ _
    have hoff : v.visible toLowerCase = (v.matching toLowerCase).filter fun row => ! v.othersJob row && open_ row := by
      rw [visible_eq]
      refine List.filter_congr fun row _ => ?_
      rw [PackingViewInput.hiddenAsOthers, hshow, h, Bool.and_assoc]
      rfl
    have hothers : v.others toLowerCase = (v.matching toLowerCase).filter fun row => v.othersJob row && open_ row :=
      List.filter_congr fun row _ => Bool.and_assoc _ _ _
    refine ⟨v.others toLowerCase, revealed toLowerCase collate v ?_, ?_⟩
    · rw [hon, hoff, hothers]
      exact filter_split _ _ _
    · show _ = v.hiddenOtherCount toLowerCase
      rw [PackingViewInput.hiddenOtherCount, hshow, h, Bool.or_self, if_neg Bool.false_ne_true]

/-- **Showing the late rows brings back as many as it says**, whatever the switch says now. -/
theorem late_revealed (h : v.searching toLowerCase = false) : ∃ further,
    (rendered toLowerCase collate { v with showLate := true }).Perm
      (rendered toLowerCase collate { v with showLate := false } ++ further) ∧
        further.length = (buildPackingView toLowerCase collate v).lateCount := by
  let open_ (row : PackableRow) : Bool := ! v.hiddenAsOthers toLowerCase row && v.revealable toLowerCase row
  let late (row : PackableRow) : Bool := row.latePacker && ! v.flagged
  have hon : PackingViewInput.visible toLowerCase { v with showLate := true } =
      (v.matching toLowerCase).filter open_ := by
    rw [visible_eq]
    refine List.filter_congr fun row _ => ?_
    rw [Bool.and_assoc]
    rfl
  have hoff : PackingViewInput.visible toLowerCase { v with showLate := false } =
      (v.matching toLowerCase).filter fun row => ! late row && open_ row := by
    rw [visible_eq]
    refine List.filter_congr fun row _ => ?_
    have hlate : PackingViewInput.hiddenAsLate toLowerCase { v with showLate := false } row = late row := by
      show (! false && ! v.searching toLowerCase && row.latePacker && ! v.flagged) = _
      rw [h]
      rfl
    rw [hlate, Bool.and_comm (! PackingViewInput.hiddenAsOthers toLowerCase { v with showLate := false } row),
      Bool.and_assoc]
    rfl
  refine ⟨(v.matching toLowerCase).filter fun row => late row && open_ row, revealed toLowerCase collate _ ?_, ?_⟩
  · rw [hon, hoff]
    exact filter_split _ _ _
  · refine congrArg List.length (List.filter_congr fun row _ => ?_)
    rw [Bool.and_assoc (late row)]

/-- **The list counts what it shows, and its switches bring back what they promise.** -/
theorem view_spec : Laid toLowerCase v (buildPackingView toLowerCase collate v).groups ∧
    (v.searching toLowerCase = false →
      (∃ further, (rendered toLowerCase collate { v with showOthers := true }).Perm
          (rendered toLowerCase collate v ++ further) ∧
        further.length = (buildPackingView toLowerCase collate v).hiddenOtherCount) ∧
      ∃ further, (rendered toLowerCase collate { v with showLate := true }).Perm
          (rendered toLowerCase collate { v with showLate := false } ++ further) ∧
        further.length = (buildPackingView toLowerCase collate v).lateCount) :=
  ⟨laid_groups toLowerCase collate v,
    fun h => ⟨others_revealed toLowerCase collate v h, late_revealed toLowerCase collate v h⟩⟩

end

/-- A pair of socks, which another person is to pack. -/
def socks (id traveler : String) (packed : ℤ) : PackableRow where
  id := id
  name := "Socks"
  sourceItemId := some "socks"
  categoryName := some "Clothes"
  assignedTravelerId := some traveler
  quantity := 2
  packedCount := packed
  state := .partlyPacked
  mode := .pack
  containerId := none
  latePacker := true
  flagMissing := false
  flagUnused := false
  neededQuantity := none
  packerUserId := some "ben"

/-- A list as it is opened, or on the closing pass. -/
def sockList (closingPass : Bool) : PackingViewInput where
  items := [socks "r1" "t1" 2, socks "r2" "t2" 1]
  travelers := [⟨"t1", "Ann", none⟩, ⟨"t2", "Ben", none⟩]
  containers := []
  memberProfiles := [⟨"ben", "Ben"⟩]
  groupBy := .category
  showDone := false
  facets := fun _ => []
  search := ""
  currentUserId := some "ann"
  showOthers := closingPass
  showLate := true
  collapsedGroups := []
  expandedClusters := []
  itemsWithOpenPrep := []
  closingPass := closingPass

theorem view_sockList : Laid id (sockList false) (buildPackingView id id (sockList false)).groups ∧
    (∀ g ∈ (buildPackingView id id (sockList false)).groups, ∀ row ∈ g.rows,
      ((sockList false).groupOf row).key = g.key) ∧
    (∃ further, (rendered id id { sockList false with showOthers := true }).Perm
        (rendered id id (sockList false) ++ further) ∧
      further.length = (buildPackingView id id (sockList false)).hiddenOtherCount) ∧
    ∃ further, (rendered id id { sockList false with showLate := true }).Perm
        (rendered id id { sockList false with showLate := false } ++ further) ∧
      further.length = (buildPackingView id id (sockList false)).lateCount :=
  have h := view_spec id id (sockList false)
  ⟨h.1, h.1.homes (clustersApart_of_plain (by decide)), h.2 (by decide)⟩

/-- The closing pass does not count units: of four socks it counts two rows, and none is judged. -/
theorem closing_pass_counts_rows : ¬ ∀ (v : PackingViewInput), ∀ g ∈ (buildPackingView id id v).groups,
    (⟨g.doneCount, g.totalCount⟩ : PackUnits) =
      PackUnits.sum unitsOf ((v.shown id).filter fun row => (v.groupOf row).key = g.key) := by
  intro h
  have hpass : (buildPackingView id id (sockList true)).groups.map (fun g => (g.key, g.doneCount, g.totalCount)) =
      [("packed", 0, 2)] := by decide
  obtain ⟨g, hg, hgroup⟩ : ∃ g ∈ (buildPackingView id id (sockList true)).groups,
      (g.key, g.doneCount, g.totalCount) = ("packed", 0, 2) :=
    List.mem_map.1 (hpass ▸ List.mem_singleton_self _)
  obtain ⟨hkey, hdone, htotal⟩ : g.key = "packed" ∧ g.doneCount = 0 ∧ g.totalCount = 2 := by simpa using hgroup
  have hunits := h (sockList true) g hg
  rw [hkey, hdone, htotal] at hunits
  exact absurd hunits (by decide)

end Packing

end JitPack
