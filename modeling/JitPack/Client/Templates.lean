import JitPack.Client.Companions
import JitPack.Lib.Grouping
import JitPack.Lib.Keyed

/-!
# Templates

`domain/templates.ts`: a template includes groups by reference. Resolving it lists the positions of the template and
of its groups, merged by item (`resolveTemplate`).

The groups of a template come in the order of their names, and of the include rows where two names collate alike. So
the order in which the rows are stored does not matter, if the ids of the rows collate apart
(`includedTemplatesOf_perm`). A group that is included twice is listed twice.
-/

namespace JitPack

/-! ## Templates and positions -/

/-- `Template`. -/
structure Template where
  id : String
  name : String
  deriving DecidableEq

/-- `TemplateInclude`. -/
structure TemplateInclude where
  id : String
  templateId : String
  includedTemplateId : String
  deriving DecidableEq

inductive TemplateAssignment where
  | perPerson
  | tripGlobal
  deriving DecidableEq

inductive TemplateDedup where
  | max
  | sum
  deriving DecidableEq

inductive ItemMode where
  | pack
  | buyBefore
  | buyLocal
  deriving DecidableEq

/-- A value of `conditions` or `attributes`. A number is given as `String` shows it. -/
inductive JsonValue where
  | null
  | bool (b : Bool)
  | number (shown : String)
  | text (s : String)
  | array (values : List JsonValue)
  | object

/-- The entries of a `Record<string, unknown>`, in the order of `Object.entries`. -/
abbrev JsonRecord := List (String × JsonValue)

/-- `TemplateItem`: a position of a template. -/
structure TemplateItem where
  id : String
  templateId : String
  itemId : ItemId
  quantity : ℚ
  assignment : TemplateAssignment
  dedup : TemplateDedup
  conditions : Option JsonRecord
  defaultMode : ItemMode
  latePacker : Bool

/-- `new Map(templates.map((t) => [t.id, t]))`. -/
def templateById (templates : List Template) (id : String) : Option Template := Keyed.last (·.id) templates id

/-- The strategy of an overlap: one position that asks for a sum is enough. -/
def mergeStrategy (dedups : List TemplateDedup) : TemplateDedup := if .sum ∈ dedups then .sum else .max

/-- The amount of an overlap. -/
def mergeAmount {α : Type*} [Add α] [Zero α] [Max α] (dedups : List TemplateDedup) (quantities : List α) : α :=
  match mergeStrategy dedups with
  | .sum => quantities.sum
  | .max => quantities.max?.getD 0

section
variable {κ : Type*} [LinearOrder κ] (collate : String → κ)

/-- The sort key of an included group. `localeCompare` compares the sort keys that the collation gives to texts. -/
def includeKey (e : TemplateInclude × Template) : κ ×ₗ κ := toLex (collate e.2.name, collate e.1.id)

/-- The included groups, with the rows that include them, as they are stored. -/
def includedRows (templateId : String) (templates : List Template) (includes : List TemplateInclude) :
    List (TemplateInclude × Template) :=
  (includes.filter (·.templateId = templateId)).filterMap fun inc =>
    (templateById templates inc.includedTemplateId).map (inc, ·)

/-- `includedTemplatesOf`. -/
def includedTemplatesOf (templateId : String) (templates : List Template) (includes : List TemplateInclude) :
    List Template :=
  ((includedRows templateId templates includes).mergeSort fun a b =>
    decide (includeKey collate a ≤ includeKey collate b)).map (·.2)

/-! ## The resolution -/

/-- `ResolvedPosition`. -/
structure ResolvedPosition where
  itemId : ItemId
  quantity : ℚ
  strategy : TemplateDedup
  sources : List Template
  position : TemplateItem

/-- `Resolution`. -/
structure TemplateResolution where
  positions : List ResolvedPosition
  merges : List ResolvedPosition
  includedTemplates : List Template

/-- What `resolveTemplate` keeps for an item. -/
structure PositionEntry where
  position : TemplateItem
  quantities : List ℚ
  dedups : List TemplateDedup
  sources : List Template

/-- The positions of a list of templates, each with its template, as the two nested loops come to them. -/
def contributions (order : List Template) (positions : List TemplateItem) : List (Template × TemplateItem) :=
  order.flatMap fun source => (positions.filter (·.templateId = source.id)).map (source, ·)

/-- The entry of the first position of an item. -/
def PositionEntry.first (c : Template × TemplateItem) : PositionEntry := ⟨c.2, [c.2.quantity], [c.2.dedup], [c.1]⟩

def PositionEntry.push (e : PositionEntry) (c : Template × TemplateItem) : PositionEntry :=
  ⟨e.position, e.quantities ++ [c.2.quantity], e.dedups ++ [c.2.dedup], e.sources ++ [c.1]⟩

/-- `byItem`. -/
def byItem (order : List Template) (positions : List TemplateItem) : List (ItemId × PositionEntry) :=
  Grouping.group (·.2.itemId) PositionEntry.first PositionEntry.push (contributions order positions)

def PositionEntry.resolved (itemId : ItemId) (entry : PositionEntry) : ResolvedPosition :=
  ⟨itemId, mergeAmount entry.dedups entry.quantities, mergeStrategy entry.dedups, entry.sources, entry.position⟩

/-- `rank.get(id) ?? 0`: the last place of a template in the order. -/
def rankOf (order : List Template) (id : String) : ℕ :=
  ((order.zipIdx.reverse.find? (·.1.id = id)).map (·.2)).getD 0

/-- The sort key of a resolved position. -/
def positionKey (order : List Template) (p : ResolvedPosition) : ℕ ×ₗ κ :=
  toLex ((p.sources.head?.map fun t => rankOf order t.id).getD 0, collate p.position.id)

/-- `resolveTemplate`. -/
def resolveTemplate (templateId : String) (templates : List Template) (includes : List TemplateInclude)
    (positions : List TemplateItem) : TemplateResolution :=
  match templateById templates templateId with
  | none => ⟨[], [], []⟩
  | some root =>
    let includedTemplates := includedTemplatesOf collate templateId templates includes
    let order := root :: includedTemplates
    let resolved := (byItem order positions).map fun e => e.2.resolved e.1
    ⟨resolved.mergeSort fun a b => decide (positionKey collate order a ≤ positionKey collate order b),
      resolved.filter (1 < ·.sources.length), includedTemplates⟩

end

/-! ## Merged amounts -/

section
variable {dedups dedups' : List TemplateDedup}

theorem mergeStrategy_perm (h : dedups'.Perm dedups) : mergeStrategy dedups' = mergeStrategy dedups := by
  simp only [mergeStrategy, h.mem_iff]

/-- The amount of a single position is its own. -/
theorem mergeAmount_singleton {α : Type*} [AddMonoid α] [LinearOrder α] (a : α) :
    mergeAmount dedups [a] = a := by
  unfold mergeAmount
  cases mergeStrategy dedups <;> simp

theorem mergeAmount_perm {α : Type*} [AddCommMonoid α] [LinearOrder α] {quantities quantities' : List α}
    (hd : dedups'.Perm dedups) (hq : quantities'.Perm quantities) :
    mergeAmount dedups' quantities' = mergeAmount dedups quantities := by
  unfold mergeAmount
  rw [mergeStrategy_perm hd]
  cases mergeStrategy dedups with
  | sum => exact hq.sum_eq
  | max => exact congrArg (Option.getD · 0) (Keyed.max?_perm hq)

end

/-! ## The groups of a template -/

section
variable {κ : Type*} [LinearOrder κ] {collate : String → κ} {templates templates' : List Template}
variable {includes includes' : List TemplateInclude} {id : String} {t : Template}

theorem templateById_id (h : templateById templates id = some t) : t.id = id := (Keyed.mem_of_last h).2

theorem mem_includedRows {e : TemplateInclude × Template} : e ∈ includedRows id templates includes ↔
    e.1 ∈ includes ∧ e.1.templateId = id ∧ templateById templates e.1.includedTemplateId = some e.2 := by
  simp only [includedRows, List.mem_filterMap, List.mem_filter, Option.map_eq_some_iff, decide_eq_true_eq]
  constructor
  · rintro ⟨inc, ⟨hinc, hid⟩, group, hgroup, rfl⟩
    exact ⟨hinc, hid, hgroup⟩
  · rintro ⟨hinc, hid, hgroup⟩
    exact ⟨e.1, ⟨hinc, hid⟩, e.2, hgroup, rfl⟩

theorem includedTemplatesOf_perm_rows :
    (includedTemplatesOf collate id templates includes).Perm ((includedRows id templates includes).map (·.2)) :=
  (List.mergeSort_perm _ _).map _

/-- A group is the template that its id stands for. -/
theorem templateById_of_mem_included (h : t ∈ includedTemplatesOf collate id templates includes) :
    templateById templates t.id = some t := by
  obtain ⟨e, he, rfl⟩ := List.mem_map.1 (includedTemplatesOf_perm_rows.mem_iff.1 h)
  obtain ⟨-, -, hgroup⟩ := mem_includedRows.1 he
  rwa [templateById_id hgroup]

/-- **The order of the groups is that of their names and rows**, however the rows are stored. -/
theorem includedTemplatesOf_perm (hn : (templates.map (·.id)).Nodup) (ht : templates'.Perm templates)
    (hi : includes'.Perm includes)
    (hc : ∀ a ∈ includes, ∀ b ∈ includes, collate a.id = collate b.id → a = b) :
    includedTemplatesOf collate id templates' includes' = includedTemplatesOf collate id templates includes := by
  have hby : templateById templates' = templateById templates := funext fun _ => Keyed.last_perm hn ht
  have hrows : (includedRows id templates' includes').Perm (includedRows id templates includes) := by
    unfold includedRows
    rw [hby]
    exact (hi.filter _).filterMap _
  unfold includedTemplatesOf
  rw [Keyed.mergeSort_perm (includeKey collate) hrows fun a ha b hb hkey => ?_]
  have ha := mem_includedRows.1 ha
  have hb := mem_includedRows.1 hb
  have hrow : a.1 = b.1 := hc _ ha.1 _ hb.1 (congrArg (fun k => (ofLex k).2) hkey)
  exact Prod.ext hrow (Option.some.inj (ha.2.2.symm.trans (hrow ▸ hb.2.2)))

end

/-! ## The entry of an item -/

theorem gather_positions (c : Template × TemplateItem) (cs : List (Template × TemplateItem)) :
    Grouping.gather PositionEntry.first PositionEntry.push (c :: cs) = some
      ⟨c.2, (c :: cs).map (·.2.quantity), (c :: cs).map (·.2.dedup), (c :: cs).map (·.1)⟩ := by
  induction cs using List.reverseRecOn with
  | nil => rfl
  | append_singleton cs d ih =>
    rw [← List.cons_append, Grouping.gather_append_singleton, ih]
    simp [PositionEntry.push]

end JitPack
