import JitPack.Client.Placement

/-!
# One expansion, written twice

`resolveTemplate` shows what a template amounts to, `generateTripItems` fills a trip from it. Both go through the
template and its groups and merge the positions of an item; but generation takes every template once, while the
resolution takes a group as often as it is included. So the two agree exactly if what comes twice does not show
(`sameExpansion_iff`).
-/

namespace JitPack

/-! ## The two expansions -/

/-- A position for all travelers, without conditions, of a known item and of a whole amount. -/
structure TemplateItem.Plain (masterItems : List CategorisedMasterItem) (p : TemplateItem) : Prop where
  tripGlobal : p.assignment = .tripGlobal
  unconditioned : p.conditions.getD [] = []
  known : (itemsByID masterItems p.itemId).isSome
  whole : ∃ n : ℕ, p.quantity = n

/-- The input in which a template is picked alone. -/
def GenerationInput.alone (input : GenerationInput) (id : String) : GenerationInput :=
  { input with selectedTemplateIds := [id], singleItemIds := [] }

/-- The name that the merge report has for an item. -/
def itemName (masterItems : List CategorisedMasterItem) (x : ItemId) : String :=
  ((itemsByID masterItems x).map (·.name)).getD ""

/-- A resolution and a generation list the same items, each once, with the same amounts and the same first
contributors, and merge the same overlaps in the same way. -/
structure SameExpansion (masterItems : List CategorisedMasterItem) (r : TemplateResolution) (g : GenerationResult) :
    Prop where
  once : (r.positions.map (·.itemId)).Nodup ∧ (g.items.map (·.sourceItemId)).Nodup
  amounts : ∀ x (q : ℚ), (∃ p ∈ r.positions, p.itemId = x ∧ p.quantity = q) ↔
    ∃ i ∈ g.items, i.sourceItemId = x ∧ (i.quantity : ℚ) = q
  first : ∀ p ∈ r.positions, ∀ i ∈ g.items, p.itemId = i.sourceItemId →
    i.sourceTemplateId = some p.position.templateId ∧ i.mode = p.position.defaultMode ∧
      i.latePacker = p.position.latePacker
  overlaps : (g.merged.map fun m => (m.itemName, m.strategy)).Perm
    (r.merges.map fun p => (itemName masterItems p.itemId, p.strategy))

/-- How often a template brings another one: as itself, and with every row that includes it. -/
def timesBrought (input : GenerationInput) (id t : String) : ℕ :=
  (if t = id then 1 else 0) + (input.includes.filter fun inc => inc.templateId = id ∧ inc.includedTemplateId = t).length

/-- The positions that a template and its groups bring for an item. -/
def broughtPositions (input : GenerationInput) (id : String) (x : ItemId) : List TemplateItem :=
  input.templateItems.filter fun p => p.itemId = x ∧ (templateById input.templates id).isSome ∧
    (templateById input.templates p.templateId).isSome ∧ 0 < timesBrought input id p.templateId

/-- What comes twice does not show: another position is merged into its item anyway, and where amounts are summed it
has none. -/
def UnseenTwice (input : GenerationInput) (id : String) : Prop :=
  ∀ p ∈ input.templateItems, p ∈ broughtPositions input id p.itemId → 1 < timesBrought input id p.templateId →
    1 < (broughtPositions input id p.itemId).length ∧
      (.sum ∈ (broughtPositions input id p.itemId).map (·.dedup) → p.quantity = 0)

/-- The positions of an item, with their templates, in the order in which they are merged. -/
def itemPositions (order : List Template) (positions : List TemplateItem) (x : ItemId) :
    List (Template × TemplateItem) :=
  (contributions order positions).filter (·.2.itemId = x)

/-! ## The templates that are gone through -/

section
variable {κ : Type*} [LinearOrder κ] {collate : String → κ} {input : GenerationInput} {id : String} {t : Template}

/-- A template is gone through as often as it is brought. -/
theorem count_expand (hid : (templateById input.templates id).isSome)
    (ht : templateById input.templates t.id = some t) :
    (expand collate input id).count t = timesBrought input id t.id := by
  obtain ⟨picked, hpicked⟩ := Option.isSome_iff_exists.1 hid
  have hpid : picked.id = id := templateById_id hpicked
  have hhead : picked = t ↔ t.id = id :=
    ⟨fun h => h ▸ hpid, fun h => Option.some.inj (hpicked.symm.trans (h ▸ ht))⟩
  have hrows : (includedTemplatesOf collate id input.templates input.includes).count t =
      (input.includes.filter fun inc => inc.templateId = id ∧ inc.includedTemplateId = t.id).length := by
    rw [includedTemplatesOf_perm_rows.count_eq, includedRows, List.map_filterMap, List.count_filterMap,
      List.countP_eq_length_filter, List.filter_filter]
    congr 1
    refine List.filter_congr fun inc _ => ?_
    have hgroup : templateById input.templates inc.includedTemplateId = some t ↔ inc.includedTemplateId = t.id :=
      ⟨fun h => (templateById_id h).symm, fun h => h ▸ ht⟩
    rw [Bool.eq_iff_iff]
    simp [hgroup, and_comm]
  unfold expand timesBrought
  rw [hpicked]
  simp only [List.count_cons, hpid, hrows, beq_iff_eq, hhead]
  exact Nat.add_comm _ _

theorem mem_expand_iff : t ∈ expand collate input id ↔ (templateById input.templates id).isSome ∧
    templateById input.templates t.id = some t ∧ 0 < timesBrought input id t.id := by
  constructor
  · intro h
    have hid : (templateById input.templates id).isSome := by
      unfold expand at h
      split at h
      · cases h
      · next hpicked => simp [hpicked]
    have ht := templateById_of_mem_expand h
    have hcount : (expand collate input id).count t = timesBrought input id t.id := count_expand hid ht
    exact ⟨hid, ht, hcount ▸ List.count_pos_iff.2 h⟩
  · rintro ⟨hid, ht, hpos⟩
    rw [← List.count_pos_iff, count_expand hid ht]
    exact hpos

theorem mem_broughtPositions (collate : String → κ) {x : ItemId} {p : TemplateItem} : p ∈ broughtPositions input id x ↔
    p ∈ input.templateItems ∧ p.itemId = x ∧ ∃ t ∈ expand collate input id, t.id = p.templateId := by
  simp only [broughtPositions, List.mem_filter, decide_eq_true_eq, mem_expand_iff]
  refine and_congr_right fun _ => and_congr_right fun _ => ?_
  constructor
  · rintro ⟨hid, ht, hpos⟩
    obtain ⟨t, ht⟩ := Option.isSome_iff_exists.1 ht
    have hsame := templateById_id ht
    exact ⟨t, ⟨hid, hsame ▸ ht, hsame ▸ hpos⟩, hsame⟩
  · rintro ⟨t, ⟨hid, ht, hpos⟩, hsame⟩
    exact ⟨hid, by simp [← hsame, ht], hsame ▸ hpos⟩

/-! ## The positions of an item -/

variable {order : List Template} {positions : List TemplateItem} {x : ItemId}

theorem itemPositions_eq : itemPositions order positions x = order.flatMap fun t =>
    (positions.filter fun p => p.itemId = x ∧ p.templateId = t.id).map (t, ·) := by
  unfold itemPositions contributions
  rw [List.filter_flatMap]
  refine List.flatMap_congr fun t _ => ?_
  rw [List.filter_map, List.filter_filter]
  congr 1
  refine List.filter_congr fun p _ => ?_
  simp [Function.comp]

theorem sum_itemPositions (f : TemplateItem → ℕ) : ((itemPositions order positions x).map (f ·.2)).sum =
    (order.map fun t => ((positions.filter fun p => p.itemId = x ∧ p.templateId = t.id).map f).sum).sum := by
  rw [itemPositions_eq]
  induction order with
  | nil => rfl
  | cons t order ih =>
    rw [List.flatMap_cons, List.map_append, List.sum_append, ih, List.map_cons, List.sum_cons, List.map_map]
    rfl

/-- What positions ask for adds up to the same with and without repetitions if those that come twice ask for
nothing. -/
theorem sum_itemPositions_eq_iff (collate : String → κ) (f : TemplateItem → ℕ) :
    ((itemPositions (Insertion.ofList (expand collate input id)) input.templateItems x).map (f ·.2)).sum =
        ((itemPositions (expand collate input id) input.templateItems x).map (f ·.2)).sum ↔
      ∀ p ∈ broughtPositions input id x, 1 < timesBrought input id p.templateId → f p = 0 := by
  rw [sum_itemPositions, sum_itemPositions, Insertion.sum_ofList_eq_iff]
  constructor
  · intro h p hp htwice
    obtain ⟨hp, hx, t, ht, hsame⟩ := (mem_broughtPositions collate).1 hp
    obtain ⟨hid, hknown, -⟩ := mem_expand_iff.1 ht
    have hzero := h t (by rwa [count_expand hid hknown, hsame])
    refine List.sum_eq_zero_iff.1 hzero _ (List.mem_map_of_mem (List.mem_filter.2 ⟨hp, ?_⟩))
    simp [hx, hsame]
  · intro h t htwice
    have ht : t ∈ expand collate input id := List.count_pos_iff.1 (by omega)
    obtain ⟨hid, hknown, -⟩ := mem_expand_iff.1 ht
    rw [count_expand hid hknown] at htwice
    refine List.sum_eq_zero_iff.2 fun a ha => ?_
    obtain ⟨p, hp, rfl⟩ := List.mem_map.1 ha
    obtain ⟨hp, hsame⟩ := List.mem_filter.1 hp
    simp only [Bool.decide_and, Bool.and_eq_true, decide_eq_true_eq] at hsame
    exact h p ((mem_broughtPositions collate).2 ⟨hp, hsame.1, t, ht, hsame.2.symm⟩) (by rwa [hsame.2])

/-- Blocks of rows with distinct keys are the rows with these keys. -/
theorem flatMap_filter_perm (hn : (order.map (·.id)).Nodup) :
    (order.flatMap fun t => positions.filter fun p => p.itemId = x ∧ p.templateId = t.id).Perm
      (positions.filter fun p => p.itemId = x ∧ p.templateId ∈ order.map (·.id)) := by
  induction order with
  | nil => simp
  | cons t order ih =>
    obtain ⟨hnew, hn⟩ := List.nodup_cons.1 hn
    rw [List.flatMap_cons]
    have hsplit := List.filter_append_perm (fun p : TemplateItem => decide (p.templateId = t.id))
      (positions.filter fun p => p.itemId = x ∧ p.templateId ∈ (t :: order).map (·.id))
    refine List.Perm.trans ?_ hsplit
    rw [List.filter_filter, List.filter_filter]
    refine List.Perm.append (.of_eq (List.filter_congr fun p _ => ?_))
      ((ih hn).trans (.of_eq (List.filter_congr fun p _ => ?_)))
    · rw [Bool.eq_iff_iff]
      simp only [Bool.and_eq_true, decide_eq_true_eq, List.map_cons, List.mem_cons]
      tauto
    · rw [Bool.eq_iff_iff]
      simp only [Bool.and_eq_true, decide_eq_true_eq, List.map_cons, List.mem_cons, Bool.not_eq_true',
        decide_eq_false_iff_not]
      constructor
      · rintro ⟨hx, hmem⟩
        refine ⟨fun he => hnew ?_, hx, .inr hmem⟩
        rwa [he] at hmem
      · rintro ⟨hne, hx, hmem⟩
        exact ⟨hx, hmem.resolve_left hne⟩

theorem nodup_ids_ofList_expand (collate : String → κ) (input : GenerationInput) (id : String) :
    ((Insertion.ofList (expand collate input id)).map (·.id)).Nodup := by
  refine (Insertion.nodup_ofList _).map_on fun t ht t' ht' hsame => ?_
  have hknown := templateById_of_mem_expand (Insertion.mem_ofList.1 ht)
  have hknown' := templateById_of_mem_expand (Insertion.mem_ofList.1 ht')
  exact Option.some.inj (hknown.symm.trans (hsame ▸ hknown'))

/-- Without repetitions, the positions of an item are those that are brought for it. -/
theorem itemPositions_perm (collate : String → κ) :
    ((itemPositions (Insertion.ofList (expand collate input id)) input.templateItems x).map (·.2)).Perm
      (broughtPositions input id x) := by
  rw [itemPositions_eq, List.map_flatMap]
  simp only [List.map_map, Function.comp_def, List.map_id']
  refine (flatMap_filter_perm (nodup_ids_ofList_expand collate input id)).trans
    (.of_eq (List.filter_congr fun p hp => ?_))
  rw [Bool.eq_iff_iff]
  have hmem : p ∈ broughtPositions input id x ↔ _ := mem_broughtPositions collate
  simp only [broughtPositions, List.mem_filter, hp, true_and] at hmem
  rw [hmem, decide_eq_true_eq]
  refine and_congr_right fun _ => ?_
  simp [Insertion.mem_ofList]

/-- With and without repetitions, an item has the same positions, and the same one first. -/
theorem mem_itemPositions_ofList {c : Template × TemplateItem} :
    c ∈ itemPositions (Insertion.ofList order) positions x ↔ c ∈ itemPositions order positions x := by
  simp only [itemPositions_eq, List.mem_flatMap, Insertion.mem_ofList]

theorem head?_itemPositions_ofList :
    (itemPositions (Insertion.ofList order) positions x).head? = (itemPositions order positions x).head? := by
  unfold itemPositions contributions
  rw [List.head?_filter, List.head?_filter, Insertion.find?_flatMap_ofList]

theorem itemPositions_ofList_eq_nil :
    itemPositions (Insertion.ofList order) positions x = [] ↔ itemPositions order positions x = [] := by
  rw [← List.head?_eq_none_iff, head?_itemPositions_ofList, List.head?_eq_none_iff]

/-! ## What the resolution lists -/

/-- The row of an item in the resolution. -/
def resolvedOf (x : ItemId) (cs : List (Template × TemplateItem)) : Option ResolvedPosition :=
  (Grouping.gather PositionEntry.first PositionEntry.push cs).map (·.resolved x)

theorem resolvedOf_cons (c : Template × TemplateItem) (cs : List (Template × TemplateItem)) :
    resolvedOf x (c :: cs) = some ⟨x, mergeAmount ((c :: cs).map (·.2.dedup)) ((c :: cs).map (·.2.quantity)),
      mergeStrategy ((c :: cs).map (·.2.dedup)), (c :: cs).map (·.1), c.2⟩ := by
  rw [resolvedOf, gather_positions]
  rfl

/-- The items that come up. -/
def itemsOf (order : List Template) (positions : List TemplateItem) : List ItemId :=
  Insertion.ofList ((contributions order positions).map (·.2.itemId))

theorem mem_itemsOf : x ∈ itemsOf order positions ↔ itemPositions order positions x ≠ [] := by
  unfold itemsOf itemPositions
  rw [Insertion.mem_ofList, List.mem_map, Ne, List.filter_eq_nil_iff]
  simp

/-- The rows of the resolution, before they are sorted. -/
def resolvedRows (order : List Template) (positions : List TemplateItem) : List ResolvedPosition :=
  (itemsOf order positions).filterMap fun x => resolvedOf x (itemPositions order positions x)

theorem byItem_resolved :
    (byItem order positions).map (fun e => e.2.resolved e.1) = resolvedRows order positions := by
  unfold byItem resolvedRows
  rw [Grouping.group_eq, List.map_filterMap]
  refine List.filterMap_congr fun x _ => ?_
  rw [Option.map_map]
  rfl

theorem itemId_of_resolvedOf {cs : List (Template × TemplateItem)} {p : ResolvedPosition}
    (h : resolvedOf x cs = some p) : p.itemId = x := by
  obtain ⟨e, -, rfl⟩ := Option.map_eq_some_iff.1 h
  rfl

theorem mem_resolvedRows {p : ResolvedPosition} : p ∈ resolvedRows order positions ↔
    resolvedOf p.itemId (itemPositions order positions p.itemId) = some p := by
  unfold resolvedRows
  rw [List.mem_filterMap]
  constructor
  · rintro ⟨x, -, h⟩
    rwa [itemId_of_resolvedOf h]
  · intro h
    refine ⟨_, mem_itemsOf.2 fun hnil => ?_, h⟩
    rw [hnil] at h
    cases h

theorem resolveTemplate_positions :
    (resolveTemplate collate id input.templates input.includes input.templateItems).positions.Perm
      (resolvedRows (expand collate input id) input.templateItems) := by
  unfold resolveTemplate expand
  cases hroot : templateById input.templates id with
  | none => exact .nil
  | some root =>
    dsimp only
    rw [templateById_id hroot, byItem_resolved]
    exact List.mergeSort_perm _ _

theorem resolveTemplate_merges :
    (resolveTemplate collate id input.templates input.includes input.templateItems).merges =
      (resolvedRows (expand collate input id) input.templateItems).filter (1 < ·.sources.length) := by
  unfold resolveTemplate expand
  cases hroot : templateById input.templates id with
  | none => rfl
  | some root =>
    dsimp only
    rw [templateById_id hroot, byItem_resolved]

theorem itemIds_resolvedRows : (resolvedRows order positions).map (·.itemId) = itemsOf order positions := by
  unfold resolvedRows
  rw [List.map_filterMap]
  refine (List.filterMap_congr fun x hx => ?_).trans List.filterMap_some
  obtain ⟨c, cs, hcs⟩ := List.exists_cons_of_ne_nil (mem_itemsOf.1 hx)
  rw [hcs, resolvedOf_cons]
  rfl

/-- What the resolution says of an item in its merge report. -/
theorem merges_resolvedRows (order : List Template) (positions : List TemplateItem)
    (masterItems : List CategorisedMasterItem) :
    ((resolvedRows order positions).filter (1 < ·.sources.length)).map
        (fun p => (itemName masterItems p.itemId, p.strategy)) =
      ((itemsOf order positions).filter fun x => 1 < (itemPositions order positions x).length).map fun x =>
        (itemName masterItems x, mergeStrategy ((itemPositions order positions x).map (·.2.dedup))) := by
  unfold resolvedRows
  rw [← List.filterMap_eq_filter, ← List.filterMap_eq_filter, List.filterMap_filterMap, List.map_filterMap,
    List.map_filterMap]
  refine List.filterMap_congr fun x hx => ?_
  obtain ⟨c, cs, hcs⟩ := List.exists_cons_of_ne_nil (mem_itemsOf.1 hx)
  have hrow : resolvedOf x (c :: cs) = some _ := resolvedOf_cons c cs
  rw [← hcs] at hrow
  rw [hrow]
  simp only [Option.bind_some, Option.guard, List.length_map]
  by_cases hlength : 1 < (itemPositions order positions x).length
  · simp [hlength]
  · simp [hlength]

/-! ## What generation places -/

theorem resolvedPositions_alone : resolvedPositions collate (input.alone id) =
    contributions (Insertion.ofList (expand collate input id)) input.templateItems := by
  unfold resolvedPositions
  rw [resolveSources_eq]
  have hpicked : (input.alone id).selectedTemplateIds.flatMap (expand collate (input.alone id)) =
      expand collate input id := List.flatMap_singleton _ _
  rw [hpicked]
  rfl

theorem mem_templateItems_of_resolved {c : Template × TemplateItem}
    (h : c ∈ resolvedPositions collate (input.alone id)) : c.2 ∈ input.templateItems := by
  obtain ⟨t, -, h⟩ := List.mem_flatMap.1 h
  obtain ⟨p, hp, rfl⟩ := List.mem_map.1 h
  exact (List.mem_filter.1 hp).1

theorem contributes_iff {p : TemplateItem} {k : ItemId × Option ℕ} (h : p.Plain input.masterItems) :
    p.Contributes (input.alone id) k ↔ p.itemId = k.1 ∧ k.2 = none := by
  have hholds : conditionFailure p.conditions (input.alone id).attributes = none := by
    simp [conditionFailure, h.unconditioned]
  constructor
  · rintro ⟨-, -, hx, ht⟩
    exact ⟨hx, by simpa [targets, h.tripGlobal] using ht⟩
  · rintro ⟨hx, ht⟩
    exact ⟨h.known, hholds, hx, by simp [targets, h.tripGlobal, ht]⟩

variable (hplain : ∀ p ∈ input.templateItems, p.Plain input.masterItems)
include hplain

/-- The contributions to an item are its positions, each taken once. -/
theorem contributionsTo_alone (collate : String → κ) (id : String) (x : ItemId) (t : Option ℕ) :
    (contributionsTo collate (input.alone id) (x, t)).map (fun c => (c.source, c.position)) =
      if t = none then itemPositions (Insertion.ofList (expand collate input id)) input.templateItems x else [] := by
  have hfilter : (contributionsTo collate (input.alone id) (x, t)).map (fun c => (c.source, c.position)) =
      (resolvedPositions collate (input.alone id)).filter fun c => c.2.itemId = x ∧ t = none := by
    rw [contributionsTo_eq, List.map_filterMap, ← List.filterMap_eq_filter]
    refine List.filterMap_congr fun c hc => ?_
    have hp := hplain _ (mem_templateItems_of_resolved hc)
    obtain ⟨master, hmaster⟩ := Option.isSome_iff_exists.1 hp.known
    have hmaster' : itemsByID (input.alone id).masterItems c.2.itemId = some master := hmaster
    unfold contribution
    by_cases hc : c.2.itemId = x ∧ t = none
    · rw [if_pos ((contributes_iff hp).2 hc), hmaster']
      simp [Option.guard, hc]
    · rw [if_neg fun h => hc ((contributes_iff hp).1 h)]
      simp [Option.guard, hc]
  rw [hfilter, resolvedPositions_alone]
  split
  · next ht => simp [itemPositions, ht]
  · next ht => simp [ht]

omit hplain in
theorem items_alone : (generateTripItems collate (input.alone id)).items = placedRows collate (input.alone id) := by
  rw [items_eq]
  exact List.append_nil _

/-- A row is that of an item with positions: the first one gives the attributes, all give the amount. -/
theorem row_alone {i : GeneratedItem} (h : i ∈ (generateTripItems collate (input.alone id)).items) :
    ∃ c cs, itemPositions (Insertion.ofList (expand collate input id)) input.templateItems i.sourceItemId = c :: cs ∧
      i.key = (i.sourceItemId, none) ∧ i.sourceTemplateId = some c.2.templateId ∧ i.mode = c.2.defaultMode ∧
      i.latePacker = c.2.latePacker ∧ i.quantity = mergeAmount ((c :: cs).map (·.2.dedup))
        ((c :: cs).map fun c => computeQuantity (some c.2.quantity)) := by
  rw [items_alone, mem_placedRows] at h
  have hpositions := contributionsTo_alone hplain collate id i.key.1 i.key.2
  rw [Prod.mk.eta] at hpositions
  cases hcs : contributionsTo collate (input.alone id) i.key with
  | nil => simp [hcs, rowOf_eq_none.2] at h
  | cons d ds =>
    rw [hcs] at hpositions h
    rw [rowOf_cons] at h
    split at hpositions
    · next ht =>
      have hkey : i.key = (i.sourceItemId, none) := Prod.ext rfl ht
      refine ⟨(d.source, d.position), ds.map fun c => (c.source, c.position), ?_, hkey, ?_⟩
      · rw [hkey] at hpositions
        exact hpositions.symm
      · rw [← Option.some.inj h]
        refine ⟨rfl, rfl, rfl, ?_⟩
        simp [Contribution.amount, Function.comp_def]
    · simp at hpositions

theorem exists_row_alone {x : ItemId}
    (h : itemPositions (Insertion.ofList (expand collate input id)) input.templateItems x ≠ []) :
    ∃ i ∈ (generateTripItems collate (input.alone id)).items, i.sourceItemId = x := by
  obtain ⟨c, hc⟩ := List.exists_mem_of_ne_nil _ h
  obtain ⟨hmem, hx⟩ := List.mem_filter.1 hc
  rw [← resolvedPositions_alone] at hmem
  have hp := hplain _ (mem_templateItems_of_resolved hmem)
  have hcontributes : c.2.Contributes (input.alone id) (x, none) :=
    (contributes_iff hp).2 ⟨of_decide_eq_true hx, rfl⟩
  obtain ⟨i, hi, hkey⟩ := exists_row hmem hcontributes
  exact ⟨i, mem_items_of_placed hi, congrArg Prod.fst hkey⟩

/-- What generation says of the items in its merge report. -/
theorem merged_alone : ((generateTripItems collate (input.alone id)).merged.map fun m => (m.itemName, m.strategy)).Perm
    (((itemsOf (expand collate input id) input.templateItems).filter fun x =>
        1 < (itemPositions (Insertion.ofList (expand collate input id)) input.templateItems x).length).map fun x =>
      (itemName input.masterItems x, mergeStrategy
        ((itemPositions (Insertion.ofList (expand collate input id)) input.templateItems x).map (·.2.dedup)))) := by
  have hkeys : (Insertion.ofList ((placedContributions collate (input.alone id)).map (·.key))).Perm
      ((itemsOf (expand collate input id) input.templateItems).map (·, none)) := by
    have hinj : Function.Injective fun x : ItemId => (x, (none : Option ℕ)) := fun x y h => congrArg Prod.fst h
    refine (List.perm_ext_iff_of_nodup (Insertion.nodup_ofList _) ((Insertion.nodup_ofList _).map hinj)).2 ?_
    rintro ⟨x, t⟩
    have hpositions := congrArg (· ≠ []) (contributionsTo_alone hplain collate id x t)
    simp only [ne_eq, List.map_eq_nil_iff] at hpositions
    rw [mem_keys_placed, ne_eq, hpositions, List.mem_map]
    cases t with
    | none =>
      rw [if_pos rfl, itemPositions_ofList_eq_nil, ← ne_eq, ← mem_itemsOf]
      refine ⟨fun h => ⟨x, h, rfl⟩, fun ⟨y, hy, heq⟩ => ?_⟩
      obtain rfl : y = x := congrArg Prod.fst heq
      exact hy
    | some n => simp
  have hmerged : (generateTripItems collate (input.alone id)).merged =
      (Insertion.ofList ((placedContributions collate (input.alone id)).map (·.key))).filterMap fun k =>
        (Grouping.gather (Contribution.entry input.travelers) PlacedEntry.merge
          (contributionsTo collate (input.alone id) k)).bind PlacedEntry.overlap := by
    unfold generateTripItems
    dsimp only
    rw [placed_eq, Grouping.group_eq, List.filterMap_filterMap]
    refine List.filterMap_congr fun k _ => ?_
    rw [Option.bind_map]
    rfl
  rw [hmerged, List.map_filterMap]
  refine (hkeys.filterMap _).trans (.of_eq ?_)
  rw [List.filterMap_map, ← List.filterMap_eq_filter, List.map_filterMap]
  refine List.filterMap_congr fun x _ => ?_
  have hpositions := contributionsTo_alone hplain collate id x none
  rw [if_pos rfl] at hpositions
  simp only [Function.comp]
  cases hcs : contributionsTo collate (input.alone id) (x, none) with
  | nil =>
    rw [hcs] at hpositions
    simp [← hpositions, Grouping.gather, Option.guard]
  | cons d ds =>
    have hd := mem_contributionsTo (hcs ▸ List.mem_cons_self : d ∈ contributionsTo collate (input.alone id) (x, none))
    have hname : itemName input.masterItems x = d.master.name := by
      have hx : d.position.itemId = x := hd.2.1.2.2.1
      have hmaster : itemsByID input.masterItems x = some d.master := hx ▸ hd.2.2
      simp [itemName, hmaster]
    rw [hcs] at hpositions
    rw [gather_contributions]
    simp only [Option.guard, ← hpositions, List.length_map, decide_eq_true_eq, Option.bind_some, PlacedEntry.overlap]
    by_cases hlength : 1 < (d :: ds).length
    · rw [if_pos hlength, if_pos hlength]
      simp only [Option.map_some, ← hpositions, hname, List.map_map]
      rfl
    · rw [if_neg hlength, if_neg hlength]
      rfl

omit hplain

/-! ## Amounts -/

/-- The whole amount of a position. -/
def amountOf (p : TemplateItem) : ℕ := computeQuantity (some p.quantity)

theorem amountOf_plain {masterItems : List CategorisedMasterItem} {p : TemplateItem} (h : p.Plain masterItems) :
    p.quantity = amountOf p := by
  obtain ⟨n, hn⟩ := h.whole
  simp [amountOf, computeQuantity, hn]

theorem mergeAmount_cast {dedups : List TemplateDedup} (l : List ℕ) :
    mergeAmount dedups (l.map (Nat.cast : ℕ → ℚ)) = (mergeAmount dedups l : ℕ) := by
  unfold mergeAmount
  cases mergeStrategy dedups with
  | sum => exact (Nat.cast_list_sum l).symm
  | max =>
    cases hl : l.max? with
    | none =>
      rw [List.max?_eq_none_iff.1 hl]
      simp
    | some n =>
      obtain ⟨hmem, hle⟩ := List.max?_eq_some_iff.1 hl
      have hmax : (l.map (Nat.cast : ℕ → ℚ)).max? = some (n : ℚ) := by
        refine List.max?_eq_some_iff.2 ⟨List.mem_map_of_mem hmem, fun q hq => ?_⟩
        obtain ⟨m, hm, rfl⟩ := List.mem_map.1 hq
        exact_mod_cast hle m hm
      rw [hmax]
      rfl

/-- Amounts of the same positions differ only if they are summed. -/
theorem mergeAmount_congr {α : Type*} [AddMonoid α] [LinearOrder α] {dedups dedups' : List TemplateDedup}
    {l l' : List α} (hd : ∀ d, d ∈ dedups ↔ d ∈ dedups') (hl : ∀ a, a ∈ l ↔ a ∈ l') :
    mergeAmount dedups l = mergeAmount dedups' l' ↔ (.sum ∈ dedups' → l.sum = l'.sum) := by
  have hmax : l.max? = l'.max? := Option.ext fun a => by simp only [List.max?_eq_some_iff, hl]
  unfold mergeAmount mergeStrategy
  by_cases hsum : TemplateDedup.sum ∈ dedups'
  · simp only [(hd _).2 hsum, hsum, if_true, true_imp_iff]
  · simp only [mt (hd _).1 hsum, hsum, if_false, hmax, false_imp_iff]

/-! ## When they agree -/

variable (collate input id x) in
/-- The positions of an item that the resolution merges. -/
def shownPositions : List (Template × TemplateItem) := itemPositions (expand collate input id) input.templateItems x

variable (collate input id x) in
/-- The positions of an item that generation merges. -/
def placedPositions : List (Template × TemplateItem) :=
  itemPositions (Insertion.ofList (expand collate input id)) input.templateItems x

theorem strategy_shown : mergeStrategy ((shownPositions collate input id x).map (·.2.dedup)) =
    mergeStrategy ((placedPositions collate input id x).map (·.2.dedup)) := by
  unfold mergeStrategy
  refine if_congr ?_ rfl rfl
  simp only [List.mem_map, shownPositions, placedPositions, mem_itemPositions_ofList]

/-- The amounts of an item agree if nothing is asked for twice where amounts are summed. -/
theorem amount_shown_iff :
    mergeAmount ((shownPositions collate input id x).map (·.2.dedup))
        ((shownPositions collate input id x).map fun c => amountOf c.2) =
      mergeAmount ((placedPositions collate input id x).map (·.2.dedup))
        ((placedPositions collate input id x).map fun c => amountOf c.2) ↔
    (.sum ∈ (broughtPositions input id x).map (·.dedup) →
      ∀ p ∈ broughtPositions input id x, 1 < timesBrought input id p.templateId → amountOf p = 0) := by
  have hdedups : ∀ d : TemplateDedup, d ∈ (placedPositions collate input id x).map (·.2.dedup) ↔
      d ∈ (broughtPositions input id x).map (·.dedup) := fun d => by
    rw [← ((itemPositions_perm collate).map (·.dedup)).mem_iff, List.map_map]
    rfl
  rw [mergeAmount_congr, hdedups, ← sum_itemPositions_eq_iff collate amountOf, eq_comm]
  · rfl
  · intro d
    simp only [List.mem_map, shownPositions, placedPositions, mem_itemPositions_ofList]
  · intro a
    simp only [List.mem_map, shownPositions, placedPositions, mem_itemPositions_ofList]

/-- An item has as many positions with repetitions as without exactly if none comes twice. -/
theorem length_shown_iff (collate : String → κ) :
    (placedPositions collate input id x).length = (shownPositions collate input id x).length ↔
      ∀ p ∈ broughtPositions input id x, ¬ 1 < timesBrought input id p.templateId := by
  have h : ((placedPositions collate input id x).map fun _ => 1).sum =
    ((shownPositions collate input id x).map fun _ => 1).sum ↔ _ := sum_itemPositions_eq_iff collate fun _ => 1
  simp only [List.map_const', List.sum_replicate, smul_eq_mul, mul_one, one_ne_zero, imp_false] at h
  exact h

theorem length_placed (collate : String → κ) :
    (placedPositions collate input id x).length = (broughtPositions input id x).length := by
  rw [← (itemPositions_perm collate).length_eq, List.length_map]
  rfl

theorem length_placed_le :
    (placedPositions collate input id x).length ≤ (shownPositions collate input id x).length := by
  have hlength : ∀ order : List Template, (itemPositions order input.templateItems x).length =
      (order.map fun t => ((input.templateItems.filter fun p => p.itemId = x ∧ p.templateId = t.id).map
        fun _ => 1).sum).sum := fun order => by
    rw [← sum_itemPositions]
    simp
  unfold placedPositions shownPositions
  rw [hlength, hlength]
  exact Insertion.sum_ofList_le _ _

end

section
variable {κ : Type*} [LinearOrder κ] {collate : String → κ} {input : GenerationInput} {id : String} {x : ItemId}
variable (hplain : ∀ p ∈ input.templateItems, p.Plain input.masterItems)
include hplain

/-- A row of the resolution is that of an item with positions. -/
theorem row_shown {p : ResolvedPosition}
    (h : p ∈ (resolveTemplate collate id input.templates input.includes input.templateItems).positions) :
    ∃ c cs, shownPositions collate input id p.itemId = c :: cs ∧ p.position = c.2 ∧
      p.quantity = (mergeAmount ((c :: cs).map (·.2.dedup)) ((c :: cs).map fun c => amountOf c.2) : ℕ) := by
  rw [resolveTemplate_positions.mem_iff, mem_resolvedRows] at h
  unfold shownPositions
  cases hcs : itemPositions (expand collate input id) input.templateItems p.itemId with
  | nil =>
    rw [hcs] at h
    cases h
  | cons c cs =>
    refine ⟨c, cs, rfl, ?_⟩
    have hquantities : (c :: cs).map (·.2.quantity) = ((c :: cs).map fun c => amountOf c.2).map Nat.cast := by
      rw [List.map_map]
      refine List.map_congr_left fun d hd => ?_
      rw [← hcs] at hd
      obtain ⟨t, -, hd⟩ := List.mem_flatMap.1 (List.mem_filter.1 hd).1
      obtain ⟨p, hp, rfl⟩ := List.mem_map.1 hd
      exact amountOf_plain (hplain p (List.mem_filter.1 hp).1)
    rw [hcs, resolvedOf_cons, hquantities, mergeAmount_cast] at h
    rw [← Option.some.inj h]
    exact ⟨rfl, rfl⟩

omit hplain in
theorem exists_row_shown (h : shownPositions collate input id x ≠ []) :
    ∃ p ∈ (resolveTemplate collate id input.templates input.includes input.templateItems).positions, p.itemId = x := by
  have hx := mem_itemsOf.2 h
  rw [← itemIds_resolvedRows, List.mem_map] at hx
  obtain ⟨p, hp, hx⟩ := hx
  exact ⟨p, resolveTemplate_positions.mem_iff.2 hp, hx⟩

omit hplain in
theorem shown_eq_nil : shownPositions collate input id x = [] ↔ placedPositions collate input id x = [] :=
  itemPositions_ofList_eq_nil.symm

/-- If its amounts agree, an item is listed with the same amount. -/
theorem amounts_iff (hamount : mergeAmount ((shownPositions collate input id x).map (·.2.dedup))
        ((shownPositions collate input id x).map fun c => amountOf c.2) =
      mergeAmount ((placedPositions collate input id x).map (·.2.dedup))
        ((placedPositions collate input id x).map fun c => amountOf c.2)) (q : ℚ) :
    (∃ p ∈ (resolveTemplate collate id input.templates input.includes input.templateItems).positions,
        p.itemId = x ∧ p.quantity = q) ↔
      ∃ i ∈ (generateTripItems collate (input.alone id)).items, i.sourceItemId = x ∧ (i.quantity : ℚ) = q := by
  constructor
  · rintro ⟨p, hp, rfl, rfl⟩
    obtain ⟨c, cs, hshown, -, hq⟩ := row_shown hplain hp
    have hne : placedPositions collate input id p.itemId ≠ [] := fun hnil => by simp [shown_eq_nil.2 hnil] at hshown
    obtain ⟨i, hi, hx⟩ := exists_row_alone hplain hne
    obtain ⟨d, ds, hplaced, -, -, -, -, hqi⟩ := row_alone hplain hi
    rw [hx] at hplaced
    refine ⟨i, hi, hx, ?_⟩
    rw [hq, hqi, ← hshown, ← hplaced]
    exact_mod_cast hamount.symm
  · rintro ⟨i, hi, rfl, rfl⟩
    obtain ⟨d, ds, hplaced, -, -, -, -, hqi⟩ := row_alone hplain hi
    have hne : shownPositions collate input id i.sourceItemId ≠ [] := fun hnil => by
      rw [shown_eq_nil, placedPositions, hplaced] at hnil
      cases hnil
    obtain ⟨p, hp, hx⟩ := exists_row_shown hne
    obtain ⟨c, cs, hshown, -, hq⟩ := row_shown hplain hp
    rw [hx] at hshown
    refine ⟨p, hp, hx, ?_⟩
    rw [hq, hqi, ← hshown, ← hplaced]
    exact_mod_cast hamount

omit hplain in
/-- **The two expansions of a template agree exactly if what comes twice does not show.** -/
theorem sameExpansion_iff (collate : String → κ) (input : GenerationInput) (id : String)
    (hplain : ∀ p ∈ input.templateItems, p.Plain input.masterItems) : SameExpansion input.masterItems
      (resolveTemplate collate id input.templates input.includes input.templateItems)
      (generateTripItems collate (input.alone id)) ↔ UnseenTwice input id := by
  have hmerges := merges_resolvedRows (expand collate input id) input.templateItems input.masterItems
  rw [← resolveTemplate_merges] at hmerges
  constructor
  · intro h p hp hbrought htwice
    have hplaced : placedPositions collate input id p.itemId ≠ [] := by
      rw [← List.length_pos_iff, length_placed]
      exact List.length_pos_of_mem hbrought
    have hshown : shownPositions collate input id p.itemId ≠ [] := fun hnil => hplaced (shown_eq_nil.1 hnil)
    constructor
    · -- The merge reports are of one length, so an overlap of the resolution is one of generation.
      have hreports := ((merged_alone hplain).symm.trans (h.overlaps.trans (.of_eq hmerges))).length_eq
      rw [List.length_map, List.length_map] at hreports
      have hsub := List.monotone_filter_right (itemsOf (expand collate input id) input.templateItems)
        (p := fun x => decide (1 < (placedPositions collate input id x).length))
        (q := fun x => decide (1 < (shownPositions collate input id x).length)) fun x hx => by
          simpa using lt_of_lt_of_le (of_decide_eq_true hx) length_placed_le
      have hsame := hsub.eq_of_length hreports
      have hmore : 1 < (shownPositions collate input id p.itemId).length := by
        have hne : (placedPositions collate input id p.itemId).length ≠
          (shownPositions collate input id p.itemId).length := mt (length_shown_iff collate).1 fun h => h p hbrought htwice
        have hle : (placedPositions collate input id p.itemId).length ≤
          (shownPositions collate input id p.itemId).length := length_placed_le
        have hpos := List.length_pos_iff.2 hplaced
        omega
      have hmem : p.itemId ∈ (itemsOf (expand collate input id) input.templateItems).filter fun x =>
          decide (1 < (shownPositions collate input id x).length) :=
        List.mem_filter.2 ⟨mem_itemsOf.2 hshown, decide_eq_true hmore⟩
      rw [← hsame] at hmem
      have hlt : 1 < (placedPositions collate input id p.itemId).length := of_decide_eq_true (List.mem_filter.1 hmem).2
      rwa [length_placed] at hlt
    · intro hsum
      obtain ⟨r, hr, hx⟩ := exists_row_shown hshown
      obtain ⟨c, cs, hcs, -, hq⟩ := row_shown hplain hr
      obtain ⟨i, hi, hix, hqi⟩ := (h.amounts _ _).1 ⟨r, hr, hx, rfl⟩
      obtain ⟨d, ds, hds, -, -, -, -, hamount⟩ := row_alone hplain hi
      rw [hx] at hcs
      rw [hix] at hds
      rw [hq, hamount, ← hcs, ← hds] at hqi
      have hzero := amount_shown_iff.1 (by exact_mod_cast hqi.symm) hsum p hbrought htwice
      rw [amountOf_plain (hplain p hp), hzero, Nat.cast_zero]
  · intro h
    have hamount : ∀ x, mergeAmount ((shownPositions collate input id x).map (·.2.dedup))
          ((shownPositions collate input id x).map fun c => amountOf c.2) =
        mergeAmount ((placedPositions collate input id x).map (·.2.dedup))
          ((placedPositions collate input id x).map fun c => amountOf c.2) := fun x => by
      refine amount_shown_iff.2 fun hsum p hp htwice => ?_
      obtain ⟨hp', rfl, -⟩ := (mem_broughtPositions collate).1 hp
      have hzero := (h p hp' hp htwice).2 hsum
      rw [amountOf_plain (hplain p hp')] at hzero
      exact_mod_cast hzero
    have hlength : ∀ x, 1 < (placedPositions collate input id x).length ↔
        1 < (shownPositions collate input id x).length := fun x => by
      refine ⟨fun hlt => hlt.trans_le length_placed_le, fun hlt => ?_⟩
      by_contra hone
      have hne : ¬ ∀ p ∈ broughtPositions input id x, ¬ 1 < timesBrought input id p.templateId :=
        fun hnone => hone ((length_shown_iff collate).2 hnone ▸ hlt)
      simp only [not_forall, not_not] at hne
      obtain ⟨p, hp, htwice⟩ := hne
      obtain ⟨hp', rfl, -⟩ := (mem_broughtPositions collate).1 hp
      have hbrought := (h p hp' hp htwice).1
      rw [← length_placed collate] at hbrought
      exact hone hbrought
    refine ⟨⟨?_, ?_⟩, fun x q => amounts_iff hplain (hamount x) q, ?_, ?_⟩
    · rw [(resolveTemplate_positions.map _).nodup_iff, itemIds_resolvedRows]
      exact Insertion.nodup_ofList _
    · have hkeys : (generateTripItems collate (input.alone id)).items.map (·.key) =
          ((generateTripItems collate (input.alone id)).items.map (·.sourceItemId)).map (·, none) := by
        rw [List.map_map]
        refine List.map_congr_left fun i hi => ?_
        obtain ⟨-, -, -, hkey, -⟩ := row_alone hplain hi
        exact hkey
      exact (hkeys ▸ nodup_keys_items).of_map _
    · intro p hp i hi hsame
      obtain ⟨c, cs, hcs, hposition, -⟩ := row_shown hplain hp
      obtain ⟨d, ds, hds, -, htemplate, hmode, hlate, -⟩ := row_alone hplain hi
      have hhead : (placedPositions collate input id i.sourceItemId).head? =
          (shownPositions collate input id p.itemId).head? := hsame ▸ head?_itemPositions_ofList
      rw [hcs, placedPositions, hds] at hhead
      obtain rfl : d = c := Option.some.inj hhead
      rw [hposition]
      exact ⟨htemplate, hmode, hlate⟩
    · refine (merged_alone hplain).trans (.of_eq (Eq.trans ?_ hmerges.symm))
      have hfilter : ((itemsOf (expand collate input id) input.templateItems).filter fun x =>
            decide (1 < (placedPositions collate input id x).length)) =
          (itemsOf (expand collate input id) input.templateItems).filter fun x =>
            decide (1 < (shownPositions collate input id x).length) :=
        List.filter_congr fun x _ => decide_eq_decide.2 (hlength x)
      exact (congrArg (List.map _) hfilter).trans
        (List.map_congr_left fun x _ => Prod.ext rfl strategy_shown.symm)

end

/-- A template includes a group, as many times as there are rows; the group has two batteries, to be summed. -/
def batteryGroup (rows : List String) : GenerationInput where
  templates := [⟨"a", "Hiking"⟩, ⟨"b", "Photos"⟩]
  selectedTemplateIds := []
  includes := rows.map (⟨·, "a", "b"⟩)
  templateItemTasks := []
  templateTasks := []
  templateItems := [⟨"p1", "b", .battery, 2, .tripGlobal, .sum, none, .pack, false⟩]
  masterItems := [⟨.battery, "Battery", none, none, none, none⟩]
  attributes := none
  travelers := []
  singleItemIds := []

/-- The position of the group. -/
def batteryPosition : TemplateItem := ⟨"p1", "b", .battery, 2, .tripGlobal, .sum, none, .pack, false⟩

theorem plain_batteryGroup (rows : List String) :
    ∀ p ∈ (batteryGroup rows).templateItems, p.Plain (batteryGroup rows).masterItems := by
  intro p hp
  obtain rfl := List.mem_singleton.1 hp
  exact ⟨rfl, rfl, rfl, 2, rfl⟩

/-- Included once, the group is expanded alike. -/
theorem sameExpansion_batteries : SameExpansion (batteryGroup ["i1"]).masterItems
    (resolveTemplate id "a" (batteryGroup ["i1"]).templates (batteryGroup ["i1"]).includes
      (batteryGroup ["i1"]).templateItems)
    (generateTripItems id ((batteryGroup ["i1"]).alone "a")) := by
  refine (sameExpansion_iff id (batteryGroup ["i1"]) "a" (plain_batteryGroup _)).2 ?_
  intro p hp _ htwice
  obtain rfl := List.mem_singleton.1 hp
  exact absurd htwice (by decide)

/-- Included twice, it shows four batteries and fills two into the trip. -/
theorem batteries_counted_twice : ¬ SameExpansion (batteryGroup ["i1", "i2"]).masterItems
    (resolveTemplate id "a" (batteryGroup ["i1", "i2"]).templates (batteryGroup ["i1", "i2"]).includes
      (batteryGroup ["i1", "i2"]).templateItems)
    (generateTripItems id ((batteryGroup ["i1", "i2"]).alone "a")) := by
  intro h
  have hexpand : expand id (batteryGroup ["i1", "i2"]) "a" = [⟨"a", "Hiking"⟩, ⟨"b", "Photos"⟩, ⟨"b", "Photos"⟩] := by
    have hrows : (includedTemplatesOf id "a" (batteryGroup ["i1", "i2"]).templates
        (batteryGroup ["i1", "i2"]).includes).Perm (List.replicate 2 ⟨"b", "Photos"⟩) := includedTemplatesOf_perm_rows
    exact congrArg (List.cons _) (List.perm_replicate.1 hrows)
  have hshown : shownPositions id (batteryGroup ["i1", "i2"]) "a" .battery =
      [(⟨"b", "Photos"⟩, batteryPosition), (⟨"b", "Photos"⟩, batteryPosition)] := by
    rw [shownPositions, hexpand]
    rfl
  have hplaced : placedPositions id (batteryGroup ["i1", "i2"]) "a" .battery =
      [(⟨"b", "Photos"⟩, batteryPosition)] := by
    rw [placedPositions, hexpand]
    rfl
  obtain ⟨p, hp, hx⟩ := exists_row_shown (by rw [hshown]; simp)
  obtain ⟨i, hi, hix, hamount⟩ := (h.amounts _ _).1 ⟨p, hp, hx, rfl⟩
  obtain ⟨c, cs, hcs, -, hq⟩ := row_shown (plain_batteryGroup _) hp
  obtain ⟨d, ds, hds, -, -, -, -, hqi⟩ := row_alone (plain_batteryGroup _) hi
  rw [hx, hshown] at hcs
  rw [hix] at hds
  rw [hq, hqi, ← hcs, hds.symm.trans hplaced] at hamount
  exact absurd (Nat.cast_injective hamount) (by decide +kernel)

end JitPack
