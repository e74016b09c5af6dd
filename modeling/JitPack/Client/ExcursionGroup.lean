import JitPack.Client.Excursion

/-!
# An excursion saved as a group

The lines of an excursion are folded into the positions of a group, a line for a person apart from one for nobody in
particular, and each position is resolved to an item of the inventory or to a name that is to become one. Every line
that comes along is represented, with its amount, and every new name is listed once (`folded_foldl`).

A group holds an item once. The fold tells lines apart that end at one item, and the positions are distinct exactly if
it never does (`saved_iff`).
-/

namespace JitPack

namespace Excursion

open Packing (trim)

/-- `MasterItem`, as far as a name is looked up. -/
structure MasterItem where
  id : String
  name : String

/-- `TemplateAssignment`. -/
inductive TemplateAssignment where
  | perPerson
  | tripGlobal
  deriving DecidableEq

/-- `GroupPositionDraft`. -/
structure GroupPositionDraft where
  name : String
  itemId : Option String
  quantity : ℤ
  assignment : TemplateAssignment
  defaultMode : ExcursionLineMode
  deriving DecidableEq

/-- `GroupFromExcursion`. -/
structure GroupFromExcursion where
  newMasterItems : List String
  positions : List GroupPositionDraft

/-- The positions so far, by the key of their lines. -/
structure Folding where
  newMasterItems : List String
  bySet : List ((SetKey × TemplateAssignment) × GroupPositionDraft)

section
variable (toLowerCase : String → String) (masterItems : List MasterItem) (includeUnlisted : Bool)

/-- The item of a name. -/
def itemNamed (name : String) : Option MasterItem :=
  masterItems.find? (normalizeName toLowerCase ·.name = normalizeName toLowerCase name)

/-- What a line is an assignment of. -/
def assignmentOf (line : ExcursionLine) : TemplateAssignment :=
  if line.assignedTravelerId.isSome then .perPerson else .tripGlobal

/-- What a line is folded by. -/
def foldKey (line : ExcursionLine) : SetKey × TemplateAssignment := (setKey toLowerCase line, assignmentOf line)

/-- The first position of a key. -/
def positionOf (line : ExcursionLine) (name : String) (itemId : Option String) : GroupPositionDraft where
  name := name
  itemId := itemId
  quantity := max line.quantity 1
  assignment := assignmentOf line
  defaultMode := line.mode

def Folding.push (f : Folding) (line : ExcursionLine) (name : String) (itemId : Option String) : Folding :=
  { f with bySet := f.bySet ++ [(foldKey toLowerCase line, positionOf line name itemId)] }

/-- One line. -/
def foldLine (f : Folding) (line : ExcursionLine) : Folding :=
  if line.state = .skipped then f
  else if foldKey toLowerCase line ∈ f.bySet.map Prod.fst then
    { f with
      bySet := f.bySet.map fun e =>
        if e.1 = foldKey toLowerCase line then (e.1, { e.2 with quantity := max e.2.quantity line.quantity }) else e }
  else
    match line.sourceItemId with
    | some id => f.push toLowerCase line line.name (some id)
    | none =>
      match itemNamed toLowerCase masterItems line.name with
      | some item => f.push toLowerCase line item.name (some item.id)
      | none =>
        if ! includeUnlisted then f
        else if f.newMasterItems.any (normalizeName toLowerCase · = normalizeName toLowerCase line.name) then
          f.push toLowerCase line line.name none
        else
          { f.push toLowerCase line line.name none with newMasterItems := f.newMasterItems ++ [line.name] }

/-- `planGroupFromExcursion`. -/
def planGroupFromExcursion (lines : List ExcursionLine) : GroupFromExcursion :=
  let f := lines.foldl (foldLine toLowerCase masterItems includeUnlisted) ⟨[], []⟩
  { newMasterItems := f.newMasterItems, positions := f.bySet.map Prod.snd }

/-! ## What a group is to be -/

/-- The item that a key ends at: one of the inventory, or one that is to be created under a name. -/
def resolved : SetKey → SetKey
  | .item id => .item id
  | .name normalized =>
    match masterItems.find? (normalizeName toLowerCase ·.name = normalized) with
    | some item => .item item.id
    | none => .name normalized

/-- The item of a line. -/
def itemOf (line : ExcursionLine) : SetKey := resolved toLowerCase masterItems (setKey toLowerCase line)

/-- The item of a position. -/
def GroupPositionDraft.item (p : GroupPositionDraft) : SetKey := setKeyOf toLowerCase p.itemId p.name

/-- A line comes along: it is not skipped, and not left out as unlisted. -/
def ComesAlong (line : ExcursionLine) : Prop :=
  line.state ≠ .skipped ∧ (includeUnlisted ∨ ∃ id, itemOf toLowerCase masterItems line = .item id)

/-- A group. -/
structure Saved (lines : List ExcursionLine) (group : GroupFromExcursion) : Prop where
  distinct : (group.positions.map (·.item toLowerCase)).Nodup
  represented : ∀ line ∈ lines, ComesAlong toLowerCase masterItems includeUnlisted line →
    ∃ p ∈ group.positions, p.item toLowerCase = itemOf toLowerCase masterItems line ∧ line.quantity ≤ p.quantity
  created : ∀ normalized, normalized ∈ group.newMasterItems.map (normalizeName toLowerCase) ↔
    ∃ line ∈ lines, ComesAlong toLowerCase masterItems includeUnlisted line ∧
      itemOf toLowerCase masterItems line = .name normalized
  once : (group.newMasterItems.map (normalizeName toLowerCase)).Nodup

/-- No two lines that come along end at one item and are folded apart. -/
def FoldsTogether (lines : List ExcursionLine) : Prop :=
  ∀ a ∈ lines, ∀ b ∈ lines, ComesAlong toLowerCase masterItems includeUnlisted a →
    ComesAlong toLowerCase masterItems includeUnlisted b →
    itemOf toLowerCase masterItems a = itemOf toLowerCase masterItems b → foldKey toLowerCase a = foldKey toLowerCase b

end

/-! ## The fold -/

section
variable {toLowerCase : String → String} {masterItems : List MasterItem} {includeUnlisted : Bool}
  {done lines : List ExcursionLine} {line : ExcursionLine} {f f' : Folding}

variable (toLowerCase masterItems includeUnlisted) in
/-- What the lines so far were folded into. -/
structure Folded (done : List ExcursionLine) (f : Folding) : Prop where
  keys : (f.bySet.map Prod.fst).Nodup
  source : ∀ e ∈ f.bySet, ∃ l ∈ done, ComesAlong toLowerCase masterItems includeUnlisted l ∧ foldKey toLowerCase l = e.1
  item : ∀ e ∈ f.bySet, e.2.item toLowerCase = resolved toLowerCase masterItems e.1.1
  held : ∀ l ∈ done, ComesAlong toLowerCase masterItems includeUnlisted l →
    ∃ e ∈ f.bySet, e.1 = foldKey toLowerCase l ∧ l.quantity ≤ e.2.quantity
  created : ∀ normalized, normalized ∈ f.newMasterItems.map (normalizeName toLowerCase) ↔
    ∃ l ∈ done, ComesAlong toLowerCase masterItems includeUnlisted l ∧ itemOf toLowerCase masterItems l = .name normalized
  once : (f.newMasterItems.map (normalizeName toLowerCase)).Nodup

theorem Folded.empty : Folded toLowerCase masterItems includeUnlisted [] ⟨[], []⟩ := by
  constructor <;> simp

/-- A line that stays out changes nothing. -/
theorem Folded.skip (h : Folded toLowerCase masterItems includeUnlisted done f)
    (hline : ¬ ComesAlong toLowerCase masterItems includeUnlisted line) :
    Folded toLowerCase masterItems includeUnlisted (done ++ [line]) f := by
  have hold : ∀ l ∈ done ++ [line], ComesAlong toLowerCase masterItems includeUnlisted l → l ∈ done := by
    intro l hl hcomes
    rcases List.mem_append.1 hl with hl | hl
    · exact hl
    · cases List.mem_singleton.1 hl
      exact absurd hcomes hline
  refine { h with source := ?_, held := ?_, created := ?_ }
  · intro e he
    obtain ⟨l, hl, hcomes, hkey⟩ := h.source e he
    exact ⟨l, List.mem_append_left _ hl, hcomes, hkey⟩
  · exact fun l hl hcomes => h.held l (hold l hl hcomes) hcomes
  · intro normalized
    rw [h.created]
    constructor
    · rintro ⟨l, hl, hcomes⟩
      exact ⟨l, List.mem_append_left _ hl, hcomes⟩
    · rintro ⟨l, hl, hcomes, hitem⟩
      exact ⟨l, hold l hl hcomes, hcomes, hitem⟩

theorem itemOf_eq_of_foldKey {a b : ExcursionLine} (h : foldKey toLowerCase a = foldKey toLowerCase b) :
    itemOf toLowerCase masterItems a = itemOf toLowerCase masterItems b :=
  congrArg (fun key : SetKey × TemplateAssignment => resolved toLowerCase masterItems key.1) h

/-- A line of a key that is there. -/
theorem Folded.raise (h : Folded toLowerCase masterItems includeUnlisted done f)
    (hskipped : line.state ≠ .skipped) (hkey : foldKey toLowerCase line ∈ f.bySet.map Prod.fst) :
    Folded toLowerCase masterItems includeUnlisted (done ++ [line])
      { f with
        bySet := f.bySet.map fun e =>
          if e.1 = foldKey toLowerCase line then (e.1, { e.2 with quantity := max e.2.quantity line.quantity }) else e } := by
  obtain ⟨e₀, he₀, hkey₀⟩ := List.mem_map.1 hkey
  obtain ⟨l₀, hl₀, hcomes₀, hsame⟩ := h.source e₀ he₀
  have hitem₀ : itemOf toLowerCase masterItems l₀ = itemOf toLowerCase masterItems line :=
    itemOf_eq_of_foldKey (hsame.trans hkey₀)
  have hcomes : ComesAlong toLowerCase masterItems includeUnlisted line := ⟨hskipped, hitem₀ ▸ hcomes₀.2⟩
  have hfst : ∀ e : (SetKey × TemplateAssignment) × GroupPositionDraft, (if e.1 = foldKey toLowerCase line then
      (e.1, { e.2 with quantity := max e.2.quantity line.quantity }) else e).1 = e.1 := by
    intro e
    split <;> rfl
  have hof : ∀ e : (SetKey × TemplateAssignment) × GroupPositionDraft, (if e.1 = foldKey toLowerCase line then
      (e.1, { e.2 with quantity := max e.2.quantity line.quantity }) else e).2.item toLowerCase = e.2.item toLowerCase := by
    intro e
    split <;> rfl
  have hmore : ∀ e : (SetKey × TemplateAssignment) × GroupPositionDraft, e.2.quantity ≤
      (if e.1 = foldKey toLowerCase line then
        (e.1, { e.2 with quantity := max e.2.quantity line.quantity }) else e).2.quantity := by
    intro e
    split
    · exact le_max_left _ _
    · exact le_rfl
  constructor
  · rw [List.map_map]
    have hcomp : Prod.fst ∘ (fun e : (SetKey × TemplateAssignment) × GroupPositionDraft =>
        if e.1 = foldKey toLowerCase line then (e.1, { e.2 with quantity := max e.2.quantity line.quantity }) else e) =
        Prod.fst := funext hfst
    rw [hcomp]
    exact h.keys
  · intro e he
    obtain ⟨e', he', rfl⟩ := List.mem_map.1 he
    obtain ⟨l, hl, hcomesL, hkeyL⟩ := h.source e' he'
    exact ⟨l, List.mem_append_left _ hl, hcomesL, hkeyL.trans (hfst e').symm⟩
  · intro e he
    obtain ⟨e', he', rfl⟩ := List.mem_map.1 he
    rw [hof, hfst]
    exact h.item e' he'
  · intro l hl hcomesL
    rcases List.mem_append.1 hl with hold | hnew
    · obtain ⟨e, he, hkeyL, hquantity⟩ := h.held l hold hcomesL
      exact ⟨_, List.mem_map_of_mem he, (hfst e).trans hkeyL, hquantity.trans (hmore e)⟩
    · cases List.mem_singleton.1 hnew
      refine ⟨_, List.mem_map_of_mem he₀, (hfst e₀).trans hkey₀, ?_⟩
      rw [if_pos hkey₀]
      exact le_max_right _ _
  · intro normalized
    rw [h.created]
    constructor
    · rintro ⟨l, hl, hrest⟩
      exact ⟨l, List.mem_append_left _ hl, hrest⟩
    · rintro ⟨l, hl, hcomesL, hitemL⟩
      rcases List.mem_append.1 hl with hold | hnew
      · exact ⟨l, hold, hcomesL, hitemL⟩
      · cases List.mem_singleton.1 hnew
        exact ⟨l₀, hl₀, hcomes₀, hitem₀.trans hitemL⟩
  · exact h.once

/-- A line of a new key. -/
theorem Folded.push {name : String} {itemId : Option String} {created : List String}
    (h : Folded toLowerCase masterItems includeUnlisted done f)
    (hcomes : ComesAlong toLowerCase masterItems includeUnlisted line)
    (hkey : foldKey toLowerCase line ∉ f.bySet.map Prod.fst)
    (hitem : setKeyOf toLowerCase itemId name = itemOf toLowerCase masterItems line)
    (hcreated : ∀ normalized, normalized ∈ created.map (normalizeName toLowerCase) ↔
      normalized ∈ f.newMasterItems.map (normalizeName toLowerCase) ∨ itemOf toLowerCase masterItems line = .name normalized)
    (honce : (created.map (normalizeName toLowerCase)).Nodup) :
    Folded toLowerCase masterItems includeUnlisted (done ++ [line])
      { f.push toLowerCase line name itemId with newMasterItems := created } := by
  constructor
  · show ((f.bySet ++ [_]).map Prod.fst).Nodup
    rw [List.map_append, List.nodup_append]
    refine ⟨h.keys, List.nodup_singleton _, ?_⟩
    rintro key hold _ hnew rfl
    cases List.mem_singleton.1 hnew
    exact hkey hold
  · intro e he
    rcases List.mem_append.1 he with hold | hnew
    · obtain ⟨l, hl, hrest⟩ := h.source e hold
      exact ⟨l, List.mem_append_left _ hl, hrest⟩
    · cases List.mem_singleton.1 hnew
      exact ⟨line, List.mem_append_right _ (List.mem_singleton_self _), hcomes, rfl⟩
  · intro e he
    rcases List.mem_append.1 he with hold | hnew
    · exact h.item e hold
    · cases List.mem_singleton.1 hnew
      exact hitem
  · intro l hl hcomesL
    rcases List.mem_append.1 hl with hold | hnew
    · obtain ⟨e, he, hrest⟩ := h.held l hold hcomesL
      exact ⟨e, List.mem_append_left _ he, hrest⟩
    · cases List.mem_singleton.1 hnew
      exact ⟨_, List.mem_append_right _ (List.mem_singleton_self _), rfl, le_max_left _ _⟩
  · intro normalized
    rw [hcreated, h.created]
    constructor
    · rintro (⟨l, hl, hrest⟩ | hname)
      · exact ⟨l, List.mem_append_left _ hl, hrest⟩
      · exact ⟨line, List.mem_append_right _ (List.mem_singleton_self _), hcomes, hname⟩
    · rintro ⟨l, hl, hcomesL, hname⟩
      rcases List.mem_append.1 hl with hold | hnew
      · exact .inl ⟨l, hold, hcomesL, hname⟩
      · cases List.mem_singleton.1 hnew
        exact .inr hname
  · exact honce

theorem itemOf_of_some {id : String} (h : line.sourceItemId = some id) :
    itemOf toLowerCase masterItems line = .item id := by
  unfold itemOf setKey setKeyOf
  rw [h]
  rfl

theorem itemOf_of_none (h : line.sourceItemId = none) : itemOf toLowerCase masterItems line =
    match itemNamed toLowerCase masterItems line.name with
    | some item => .item item.id
    | none => .name (normalizeName toLowerCase line.name) := by
  unfold itemOf setKey setKeyOf
  rw [h]
  rfl

/-- **One line.** -/
theorem Folded.foldLine (h : Folded toLowerCase masterItems includeUnlisted done f) (line : ExcursionLine) :
    Folded toLowerCase masterItems includeUnlisted (done ++ [line])
      (Excursion.foldLine toLowerCase masterItems includeUnlisted f line) := by
  unfold Excursion.foldLine
  split
  · next hskipped => exact h.skip fun hcomes => hcomes.1 hskipped
  · next hskipped =>
    split
    · next hkey => exact h.raise hskipped hkey
    · next hkey =>
      -- An item of the inventory is no new name.
      have hlisted : ∀ id, itemOf toLowerCase masterItems line = .item id → ∀ normalized,
          normalized ∈ f.newMasterItems.map (normalizeName toLowerCase) ↔
            normalized ∈ f.newMasterItems.map (normalizeName toLowerCase) ∨
              itemOf toLowerCase masterItems line = .name normalized := by
        intro id hid normalized
        refine ⟨.inl, fun hor => hor.elim (fun hold => hold) fun hname => ?_⟩
        rw [hid] at hname
        cases hname
      split
      · next id hid =>
        have hitem : itemOf toLowerCase masterItems line = .item id := itemOf_of_some hid
        exact h.push ⟨hskipped, .inr ⟨id, hitem⟩⟩ hkey hitem.symm (hlisted id hitem) h.once
      · next hnone =>
        have hitem : itemOf toLowerCase masterItems line = _ := itemOf_of_none hnone
        split
        · next item hnamed =>
          rw [hnamed] at hitem
          exact h.push ⟨hskipped, .inr ⟨item.id, hitem⟩⟩ hkey hitem.symm (hlisted item.id hitem) h.once
        · next hunnamed =>
          rw [hunnamed] at hitem
          cases includeUnlisted with
          | false =>
            refine h.skip fun hcomes => ?_
            obtain hfalse | ⟨id, hid⟩ := hcomes.2
            · cases hfalse
            · rw [hitem] at hid
              cases hid
          | true =>
            have hcomes : ComesAlong toLowerCase masterItems true line := ⟨hskipped, .inl rfl⟩
            rw [if_neg (by decide)]
            split
            · next hknown =>
              refine h.push hcomes hkey hitem.symm (fun normalized => ⟨.inl, ?_⟩) h.once
              rintro (hold | hname)
              · exact hold
              · rw [hitem] at hname
                cases hname
                obtain ⟨name, hname, hsame⟩ := List.any_eq_true.1 hknown
                exact List.mem_map.2 ⟨name, hname, of_decide_eq_true hsame⟩
            · next hnew =>
              refine h.push hcomes hkey hitem.symm (fun normalized => ?_) ?_
              · rw [List.map_append, List.mem_append, hitem, SetKey.name.injEq]
                exact or_congr_right (List.mem_singleton.trans eq_comm)
              · rw [List.map_append, List.nodup_append]
                refine ⟨h.once, List.nodup_singleton _, ?_⟩
                rintro normalized hold _ hlast rfl
                cases List.mem_singleton.1 hlast
                obtain ⟨name, hname, hsame⟩ := List.mem_map.1 hold
                exact hnew (List.any_eq_true.2 ⟨name, hname, decide_eq_true hsame⟩)

/-- **All lines.** -/
theorem folded_foldl (lines : List ExcursionLine) : Folded toLowerCase masterItems includeUnlisted lines
    (lines.foldl (foldLine toLowerCase masterItems includeUnlisted) ⟨[], []⟩) := by
  induction lines using List.reverseRecOn with
  | nil => exact Folded.empty
  | append_singleton done line ih =>
    rw [List.foldl_append, List.foldl_cons, List.foldl_nil]
    exact ih.foldLine line

end

/-- **The group is as it is to be exactly if no two lines that come along end at one item and are folded apart.** -/
theorem saved_iff (toLowerCase : String → String) (masterItems : List MasterItem) (includeUnlisted : Bool)
    (lines : List ExcursionLine) :
    Saved toLowerCase masterItems includeUnlisted lines
        (planGroupFromExcursion toLowerCase masterItems includeUnlisted lines) ↔
      FoldsTogether toLowerCase masterItems includeUnlisted lines := by
  unfold planGroupFromExcursion
  have h : Folded toLowerCase masterItems includeUnlisted lines _ := folded_foldl lines
  generalize lines.foldl (foldLine toLowerCase masterItems includeUnlisted) ⟨[], []⟩ = f at h
  have hitems : ((f.bySet.map Prod.snd).map (·.item toLowerCase)) =
      (f.bySet.map Prod.fst).map fun key => resolved toLowerCase masterItems key.1 := by
    rw [List.map_map, List.map_map]
    exact List.map_congr_left fun e he => h.item e he
  constructor
  · intro hsaved a ha b hb hcomesA hcomesB hitem
    obtain ⟨eA, heA, hkeyA, -⟩ := h.held a ha hcomesA
    obtain ⟨eB, heB, hkeyB, -⟩ := h.held b hb hcomesB
    have hdistinct : ((f.bySet.map Prod.snd).map (·.item toLowerCase)).Nodup := hsaved.distinct
    rw [hitems] at hdistinct
    rw [← hkeyA, ← hkeyB]
    refine List.inj_on_of_nodup_map hdistinct (List.mem_map_of_mem heA) (List.mem_map_of_mem heB) ?_
    rw [hkeyA, hkeyB]
    exact hitem
  · intro htogether
    refine ⟨?_, ?_, h.created, h.once⟩
    · show ((f.bySet.map Prod.snd).map (·.item toLowerCase)).Nodup
      rw [hitems]
      refine h.keys.map_on fun keyA hA keyB hB hitem => ?_
      obtain ⟨eA, heA, rfl⟩ := List.mem_map.1 hA
      obtain ⟨eB, heB, rfl⟩ := List.mem_map.1 hB
      obtain ⟨a, ha, hcomesA, hkeyA⟩ := h.source eA heA
      obtain ⟨b, hb, hcomesB, hkeyB⟩ := h.source eB heB
      rw [← hkeyA, ← hkeyB] at hitem ⊢
      exact htogether a ha b hb hcomesA hcomesB hitem
    · intro line hline hcomes
      obtain ⟨e, he, hkey, hquantity⟩ := h.held line hline hcomes
      refine ⟨e.2, List.mem_map_of_mem he, ?_, hquantity⟩
      rw [h.item e he, hkey]
      rfl

/-! ## A stove -/

/-- A stove that everybody shares, and one that is Anna's. -/
def stoves : List ExcursionLine :=
  [⟨"hike", some "stove", "Stove", none, none, 1, 0, .opened, .pack, false⟩,
    ⟨"hike", some "stove", "Stove", none, some "anna", 1, 0, .opened, .pack, false⟩]

/-- The group holds the stove twice. -/
theorem stove_twice : ¬ Saved id [] true stoves (planGroupFromExcursion id [] true stoves) := by
  intro h
  have hitems : (planGroupFromExcursion id [] true stoves).positions.map (·.item id) =
      [.item "stove", .item "stove"] := by decide +kernel
  have hdistinct := h.distinct
  rw [hitems] at hdistinct
  exact absurd hdistinct (by decide)

end Excursion

end JitPack
