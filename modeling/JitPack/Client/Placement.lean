import JitPack.Client.Instantiate

/-!
# What generation places

Every position of the picked templates and of their groups ends up in a row, or the result says why it does not. A
row stands for the key under which its positions were merged (`keys_items`), which is the item and whom the row is for:
a traveler, or all of them.

The row shows another traveler, however: a row for all of them goes to the default assignee of its item. So what tells
two rows of one traveler apart is whether they come from a per-person position (`Apart`).
-/

namespace JitPack

/-! ## Companions -/

/-- `companionAsGenerated`, as the row of a generated list. -/
def companionItem (companion : ResolvedCompanion) : GeneratedItem :=
  { sourceItemId := companion.itemId, sourceTemplateId := none, name := companion.name
    categoryName := companion.categoryName, weightGrams := companion.weightGrams, valueCents := companion.valueCents
    quantity := companion.quantity, mode := .pack, latePacker := false, travelerIndex := none, perPerson := false
    tasks := [] }

/-- `withCompanions`. -/
def withCompanions (items : List GeneratedItem) (resolution : Resolution) (accepted : List ItemId) :
    List GeneratedItem :=
  items ++ resolution.required.map companionItem ++
    (resolution.suggested.filter (·.itemId ∈ accepted)).map fun s => companionItem s.toResolvedCompanion

/-! ## Review keys -/

theorem length_toDigits_ge {n : ℕ} (h : 10 ≤ n) : 1 < (Nat.toDigits 10 n).length := by
  have hpos := Nat.length_toDigits_pos (b := 10) (n := n / 10)
  rw [Nat.toDigits_of_base_le (by omega) h, List.length_append, List.length_singleton]
  omega

theorem toDigits_inj {m n : ℕ} (h : Nat.toDigits 10 m = Nat.toDigits 10 n) : m = n := by
  induction m using Nat.strongRecOn generalizing n with
  | ind m ih =>
    have hlength := congrArg List.length h
    obtain hm | hm := Nat.lt_or_ge m 10
    · obtain hn | hn := Nat.lt_or_ge n 10
      · rw [Nat.toDigits_of_lt_base hm, Nat.toDigits_of_lt_base hn] at h
        have hchar := congrArg Char.toNat (List.cons.inj h).1
        rw [Nat.toNat_digitChar_of_lt_ten hm, Nat.toNat_digitChar_of_lt_ten hn] at hchar
        omega
      · rw [Nat.toDigits_of_lt_base hm] at hlength
        exact absurd hlength (length_toDigits_ge hn).ne
    · obtain hn | hn := Nat.lt_or_ge n 10
      · rw [Nat.toDigits_of_lt_base hn] at hlength
        exact absurd hlength (length_toDigits_ge hm).ne'
      · rw [Nat.toDigits_of_base_le (by omega) hm, Nat.toDigits_of_base_le (by omega) hn] at h
        obtain ⟨hinit, hlast⟩ := List.append_inj' h rfl
        have hdiv := ih (m / 10) (by omega) hinit
        have hchar := congrArg Char.toNat (List.cons.inj hlast).1
        rw [Nat.toNat_digitChar_of_lt_ten (Nat.mod_lt _ (by omega)),
          Nat.toNat_digitChar_of_lt_ten (Nat.mod_lt _ (by omega))] at hchar
        omega

/-- What a review key says of the traveler. -/
def reviewTraveler (travelerIndex : Option ℕ) : String := travelerIndex.elim "group" toString

theorem toList_reviewTraveler (n : ℕ) : (reviewTraveler (some n)).toList = Nat.toDigits 10 n := Nat.toList_repr

theorem plain_reviewTraveler (travelerIndex : Option ℕ) : ':' ∉ (reviewTraveler travelerIndex).toList := by
  cases travelerIndex with
  | none => decide
  | some n =>
    rw [toList_reviewTraveler]
    intro h
    exact absurd (Nat.isDigit_of_mem_toDigits (by omega) (by omega) h) (by decide)

theorem reviewTraveler_inj {a b : Option ℕ} (h : reviewTraveler a = reviewTraveler b) : a = b := by
  have hgroup : ∀ n, reviewTraveler (some n) ≠ reviewTraveler none := fun n h => by
    have hg : 'g' ∈ Nat.toDigits 10 n := by
      rw [← toList_reviewTraveler, h]
      decide
    exact absurd (Nat.isDigit_of_mem_toDigits (by omega) (by omega) hg) (by decide)
  cases a with
  | none =>
    cases b with
    | none => rfl
    | some n => exact absurd h.symm (hgroup n)
  | some m =>
    cases b with
    | none => exact absurd h (hgroup m)
    | some n =>
      have hlist := congrArg String.toList h
      rw [toList_reviewTraveler, toList_reviewTraveler] at hlist
      exact congrArg some (toDigits_inj hlist)

/-- A text is cut at its last separator in one way. -/
theorem append_separator_inj {c : Char} {a b s t : List Char} (hs : c ∉ s) (ht : c ∉ t)
    (h : a ++ c :: s = b ++ c :: t) : a = b ∧ s = t := by
  obtain ⟨x, rfl, hx⟩ | ⟨x, rfl, hx⟩ := List.append_eq_append_iff.1 h
  · cases x with
    | nil => simpa using hx
    | cons d x => exact absurd ((List.cons.inj hx).2 ▸ by simp) hs
  · cases x with
    | nil => simpa [eq_comm] using hx
    | cons d x => exact absurd ((List.cons.inj hx).2 ▸ by simp) ht

theorem ItemId.ext_text {x y : ItemId} (h : x.text = y.text) : x = y := by
  cases x
  cases y
  cases h
  rfl

/-- A review key tells the item of a row and the traveler it shows. -/
theorem reviewKeyOf_inj {i j : GeneratedItem} (h : reviewKeyOf i = reviewKeyOf j) :
    i.sourceItemId = j.sourceItemId ∧ i.travelerIndex = j.travelerIndex := by
  have hlist : i.sourceItemId.text.toList ++ ':' :: (reviewTraveler i.travelerIndex).toList =
      j.sourceItemId.text.toList ++ ':' :: (reviewTraveler j.travelerIndex).toList := by
    simpa [reviewKeyOf, reviewTraveler] using congrArg String.toList h
  obtain ⟨hitem, htraveler⟩ :=
    append_separator_inj (plain_reviewTraveler _) (plain_reviewTraveler _) hlist
  exact ⟨ItemId.ext_text (String.toList_inj.1 hitem), reviewTraveler_inj (String.toList_inj.1 htraveler)⟩

/-! ## Keys -/

/-- Two rows that show the same item for the same traveler, or have the same review key, are a row of a per-person
position and one that is for all travelers. -/
def Apart (i j : GeneratedItem) : Prop :=
  (i.sourceItemId, i.travelerIndex) = (j.sourceItemId, j.travelerIndex) ∨ reviewKeyOf i = reviewKeyOf j →
    i.perPerson ≠ j.perPerson

theorem apart_of_key_ne {i j : GeneratedItem} (h : i.key ≠ j.key) : Apart i j := by
  intro hsame hperson
  have hparts : i.sourceItemId = j.sourceItemId ∧ i.travelerIndex = j.travelerIndex :=
    hsame.elim (fun h => Prod.ext_iff.1 h) reviewKeyOf_inj
  exact h (by simp only [GeneratedItem.key, hparts.1, hparts.2, hperson])

theorem pairwise_apart {items : List GeneratedItem} (h : (items.map (·.key)).Nodup) : items.Pairwise Apart :=
  (List.pairwise_map.1 h).imp apart_of_key_ne

section
variable {κ : Type*} [LinearOrder κ] {collate : String → κ} {input : GenerationInput}

theorem key_singleRow {ids : List ItemId} {x : ItemId} {i : GeneratedItem}
    (h : singleRow input ids x = some i) : i.key = (x, none) ∧ x ∉ ids := by
  unfold singleRow at h
  split at h
  · cases h
  · next hx =>
    obtain ⟨_, -, rfl⟩ := Option.map_eq_some_iff.1 h
    exact ⟨rfl, hx⟩

/-- **The keys of the rows are distinct.** -/
theorem nodup_keys_items : ((generateTripItems collate input).items.map (·.key)).Nodup := by
  rw [items_eq, List.map_append, keys_placedRows]
  refine (Insertion.nodup_ofList _).append ?_ ?_
  · have hsub : ((singleRows collate input).map (·.key)).Sublist
        ((Insertion.ofList input.singleItemIds).map fun x => (x, none)) := by
      unfold singleRows
      induction Insertion.ofList input.singleItemIds with
      | nil => exact .slnil
      | cons x l ih =>
        rw [List.filterMap_cons]
        cases hrow : singleRow input ((placedRows collate input).map (·.sourceItemId)) x with
        | none => exact ih.cons _
        | some i =>
          rw [List.map_cons, List.map_cons, (key_singleRow hrow).1]
          exact ih.cons_cons _
    exact hsub.nodup ((Insertion.nodup_ofList _).map fun x y h => congrArg Prod.fst h)
  · rw [← keys_placedRows]
    intro k hplaced hsingle
    obtain ⟨i, hi, rfl⟩ := List.mem_map.1 hplaced
    obtain ⟨j, hj, hkey⟩ := List.mem_map.1 hsingle
    obtain ⟨x, -, hrow⟩ := List.mem_filterMap.1 hj
    obtain ⟨hx, hnew⟩ := key_singleRow hrow
    exact hnew (List.mem_map.2 ⟨i, hi, congrArg Prod.fst (hkey.symm.trans hx)⟩)

/-! ## Contributions -/

theorem mem_contributionsTo {k : ItemId × Option ℕ} {c : Contribution} (h : c ∈ contributionsTo collate input k) :
    (c.source, c.position) ∈ resolvedPositions collate input ∧ c.position.Contributes input k ∧
      itemsByID input.masterItems c.position.itemId = some c.master := by
  rw [contributionsTo_eq] at h
  obtain ⟨⟨source, ti⟩, hmem, hc⟩ := List.mem_filterMap.1 h
  unfold contribution at hc
  split at hc
  · next hcontributes =>
    obtain ⟨master, hmaster, rfl⟩ := Option.map_eq_some_iff.1 hc
    exact ⟨hmem, hcontributes, hmaster⟩
  · cases hc

/-- The contributions to a key are those of the positions that contribute to it. -/
theorem positions_contributionsTo (collate : String → κ) (input : GenerationInput) (k : ItemId × Option ℕ) :
    (contributionsTo collate input k).map (·.position) =
      ((resolvedPositions collate input).map (·.2)).filter (·.Contributes input k) := by
  rw [contributionsTo_eq, List.map_filterMap, List.filter_map, ← List.filterMap_eq_filter, List.map_filterMap]
  refine List.filterMap_congr fun c _ => ?_
  unfold contribution
  by_cases hc : c.2.Contributes input k
  · obtain ⟨master, hmaster⟩ := Option.isSome_iff_exists.1 hc.1
    simp [hc, hmaster, Option.guard]
  · simp [hc, Option.guard]

theorem mem_items_of_placed {i : GeneratedItem} (h : i ∈ placedRows collate input) :
    i ∈ (generateTripItems collate input).items := by
  rw [items_eq]
  exact List.mem_append_left _ h

/-- A key that a position contributes to has a row. -/
theorem exists_row {c : Template × TemplateItem} {k : ItemId × Option ℕ} (h : c ∈ resolvedPositions collate input)
    (hc : c.2.Contributes input k) : ∃ i ∈ placedRows collate input, i.key = k := by
  cases hrow : rowOf input.travelers (contributionsTo collate input k) with
  | none =>
    have hnil := positions_contributionsTo collate input k
    rw [rowOf_eq_none.1 hrow, List.map_nil, eq_comm, List.filter_eq_nil_iff] at hnil
    exact absurd (decide_eq_true hc) (hnil c.2 (List.mem_map_of_mem h))
  | some i =>
    have hkey : i.key = k := key_of_rowOf hrow fun c hc => of_decide_eq_true (List.mem_filter.1 hc).2
    exact ⟨i, mem_placedRows.2 (hkey.symm ▸ hrow), hkey⟩

/-! ## Amounts -/

/-- The positions that contribute to a row, in the order of the sources. -/
def contributors (collate : String → κ) (input : GenerationInput) (i : GeneratedItem) : List TemplateItem :=
  ((resolvedPositions collate input).map (·.2)).filter (·.Contributes input i.key)

/-- The amount of merged positions: the sum of what they ask for if one of them is to be summed, else the greatest. -/
def MergedTo (positions : List TemplateItem) (q : ℕ) : Prop :=
  if ∃ p ∈ positions, p.dedup = .sum then q = (positions.map fun p => computeQuantity (some p.quantity)).sum
  else IsGreatest {a | ∃ p ∈ positions, a = computeQuantity (some p.quantity)} q

theorem mergedTo_mergeAmount {positions : List TemplateItem} (h : positions ≠ []) : MergedTo positions
    (mergeAmount (positions.map (·.dedup)) (positions.map fun p => computeQuantity (some p.quantity))) := by
  unfold MergedTo mergeAmount mergeStrategy
  by_cases hsum : ∃ p ∈ positions, p.dedup = .sum
  · have hmem : TemplateDedup.sum ∈ positions.map (·.dedup) := List.mem_map.2 hsum
    simp only [if_pos hsum, if_pos hmem]
  · have hmem : TemplateDedup.sum ∉ positions.map (·.dedup) := fun h => hsum (List.mem_map.1 h)
    simp only [if_neg hsum, if_neg hmem]
    have hne : (positions.map fun p => computeQuantity (some p.quantity)) ≠ [] := by simpa using h
    obtain ⟨q, hq⟩ := Option.isSome_iff_exists.1 (List.isSome_max?_of_ne_nil hne)
    obtain ⟨hin, hle⟩ := List.max?_eq_some_iff.1 hq
    rw [hq]
    refine ⟨?_, ?_⟩
    · obtain ⟨p, hp, heq⟩ := List.mem_map.1 hin
      exact ⟨p, hp, heq.symm⟩
    · rintro a ⟨p, hp, rfl⟩
      exact hle _ (List.mem_map_of_mem hp)

/-- The row of the templates that an item is, if positions contribute to it, takes its amount from all of them. -/
theorem amount_of_mem_placedRows {i : GeneratedItem} (h : i ∈ placedRows collate input) :
    contributors collate input i ≠ [] ∧ MergedTo (contributors collate input i) i.quantity := by
  have hrow := mem_placedRows.1 h
  have hpositions := positions_contributionsTo collate input i.key
  unfold contributors
  rw [← hpositions]
  cases hcs : contributionsTo collate input i.key with
  | nil => simp [hcs, rowOf_eq_none.2] at hrow
  | cons c cs =>
    rw [hcs, rowOf_cons] at hrow
    refine ⟨by simp, ?_⟩
    have hamount : MergedTo ((c :: cs).map (·.position)) _ := mergedTo_mergeAmount (by simp)
    rw [List.map_map, List.map_map] at hamount
    rw [← Option.some.inj hrow]
    exact hamount

/-- A single item is one that no position contributes to. -/
theorem contributors_of_mem_singleRows {i : GeneratedItem} (h : i ∈ singleRows collate input) :
    contributors collate input i = [] ∧ i.quantity = 1 ∧ i.sourceTemplateId = none ∧
      i.sourceItemId ∈ input.singleItemIds := by
  obtain ⟨x, hx, hrow⟩ := List.mem_filterMap.1 h
  obtain ⟨hkey, hnew⟩ := key_singleRow hrow
  refine ⟨List.filter_eq_nil_iff.2 fun ti hti hc => ?_, ?_⟩
  · obtain ⟨c, hmem, rfl⟩ := List.mem_map.1 hti
    obtain ⟨j, hj, hjkey⟩ := exists_row hmem (of_decide_eq_true hc)
    exact hnew (List.mem_map.2 ⟨j, hj, congrArg Prod.fst (hjkey.trans hkey)⟩)
  · have hid := sourceItemId_singleRow hrow
    unfold singleRow at hrow
    rw [if_neg hnew] at hrow
    obtain ⟨_, -, rfl⟩ := Option.map_eq_some_iff.1 hrow
    exact ⟨rfl, rfl, Insertion.mem_ofList.1 hx⟩

/-! ## Rows with companions -/

/-- The items that generation hands to the resolution of companions. -/
def listedItems (items : List GeneratedItem) : List (Option ItemId) := items.map fun i => some i.sourceItemId

/-- Companions get keys of their own, if no accepted suggestion is required as well. -/
theorem nodup_keys_withCompanions {items : List GeneratedItem} {masterItems : List CategorisedMasterItem}
    {ds : List ItemDependency} {accepted : List ItemId} (hkeys : (items.map (·.key)).Nodup)
    (hid : ∀ i ∈ items, i.sourceItemId.text ≠ "")
    (haccepted : ∀ x ∈ accepted, x ∉ (resolveDependencies masterItems ds (listedItems items)).added) :
    ((withCompanions items (resolveDependencies masterItems ds (listedItems items)) accepted).map (·.key)).Nodup := by
  have hlisted : ∀ i ∈ items, i.sourceItemId ∈ explicitIds (listedItems items) := fun i hi => by
    refine Insertion.mem_ofList.2 (List.mem_filter.2 ⟨?_, by simpa using hid i hi⟩)
    exact List.mem_filterMap.2 ⟨_, List.mem_map_of_mem hi, rfl⟩
  have hadded : (resolveDependencies masterItems ds (listedItems items)).added.Nodup := by
    rw [resolve_run.1]
    exact nodup_added_follows
  have hoffered : (resolveDependencies masterItems ds (listedItems items)).offered.Nodup := by
    rw [resolve_run.1]
    exact nodup_offered_follows
  have hinj : Function.Injective fun x : ItemId => (x, (none : Option ℕ)) := fun x y h => congrArg Prod.fst h
  have hrequired : ((resolveDependencies masterItems ds (listedItems items)).required.map companionItem).map
      (·.key) = (resolveDependencies masterItems ds (listedItems items)).added.map (·, none) := by
    simp [Resolution.added, companionItem, GeneratedItem.key, Function.comp_def]
  have hsuggested : (((resolveDependencies masterItems ds (listedItems items)).suggested.filter
      (·.itemId ∈ accepted)).map fun s => companionItem s.toResolvedCompanion).map (·.key) =
      ((resolveDependencies masterItems ds (listedItems items)).offered.filter (· ∈ accepted)).map (·, none) := by
    simp [Resolution.offered, companionItem, GeneratedItem.key, Function.comp_def, List.filter_map]
  rw [withCompanions, List.map_append, List.map_append, hrequired, hsuggested]
  refine List.Nodup.append (hkeys.append (hadded.map hinj) ?_) ((hoffered.filter _).map hinj) ?_
  · intro k hk hk'
    obtain ⟨i, hi, rfl⟩ := List.mem_map.1 hk
    obtain ⟨x, hx, heq⟩ := List.mem_map.1 hk'
    have hxi : x = i.sourceItemId := congrArg Prod.fst heq
    exact (mem_added.1 hx).1 (hxi ▸ hlisted i hi)
  · intro k hk hk'
    obtain ⟨x, hx, rfl⟩ := List.mem_map.1 hk'
    obtain ⟨hx, hxa⟩ := List.mem_filter.1 hx
    obtain hk | hk := List.mem_append.1 hk
    · obtain ⟨i, hi, heq⟩ := List.mem_map.1 hk
      have hxi : i.sourceItemId = x := congrArg Prod.fst heq
      exact (mem_offered.1 hx).1 (hxi ▸ hlisted i hi)
    · obtain ⟨y, hy, heq⟩ := List.mem_map.1 hk
      obtain rfl : y = x := congrArg Prod.fst heq
      exact haccepted y (of_decide_eq_true hxa) hy

/-! ## Generation as a whole -/

/-- Generation accounts for what it was given. -/
structure PlacedOnce (collate : String → κ) (input : GenerationInput) (r : GenerationResult) : Prop where
  apart : r.items.Pairwise Apart
  companions : (∀ i ∈ r.items, i.sourceItemId.text ≠ "") → ∀ ds accepted,
    (∀ x ∈ accepted, x ∉ (resolveDependencies input.masterItems ds (listedItems r.items)).added) →
    (withCompanions r.items (resolveDependencies input.masterItems ds (listedItems r.items)) accepted).Pairwise Apart
  amount : ∀ i ∈ r.items,
    if contributors collate input i = [] then
      i.quantity = 1 ∧ i.sourceTemplateId = none ∧ i.sourceItemId ∈ input.singleItemIds
    else MergedTo (contributors collate input i) i.quantity
  placed : ∀ c ∈ resolvedPositions collate input, ∀ k, c.2.Contributes input k → ∃ i ∈ r.items, i.key = k
  accounted : ∀ c ∈ resolvedPositions collate input, (itemsByID input.masterItems c.2.itemId).isSome →
    (∃ i ∈ r.items, c.2.Contributes input i.key) ∨ c.2.itemId ∈ r.items.map (·.sourceItemId) ∨
      (∃ e ∈ r.excluded, e.itemId = c.2.itemId ∧ e.templateId = c.2.templateId) ∨
      ∃ u ∈ r.unassignable, u.itemId = c.2.itemId
  excluded : ∀ e ∈ r.excluded, e.itemId ∉ r.items.map (·.sourceItemId)
  unassignable : ∀ u ∈ r.unassignable, u.itemId ∉ r.items.map (·.sourceItemId)

/-- A position of a known item contributes to a row unless the result names it. -/
theorem accounted {c : Template × TemplateItem} (h : c ∈ resolvedPositions collate input)
    (hknown : (itemsByID input.masterItems c.2.itemId).isSome) :
    (∃ i ∈ (generateTripItems collate input).items, c.2.Contributes input i.key) ∨
      c.2.itemId ∈ (generateTripItems collate input).items.map (·.sourceItemId) ∨
      (∃ e ∈ (generateTripItems collate input).excluded, e.itemId = c.2.itemId ∧ e.templateId = c.2.templateId) ∨
      ∃ u ∈ (generateTripItems collate input).unassignable, u.itemId = c.2.itemId := by
  rw [or_iff_not_imp_left, or_iff_not_imp_left]
  intro hrow hnew
  obtain ⟨master, hmaster⟩ := Option.isSome_iff_exists.1 hknown
  obtain hholds | ⟨failure, hfailure⟩ :=
    Option.eq_none_or_eq_some (conditionFailure c.2.conditions input.attributes)
  swap
  · refine .inl ⟨⟨c.2.itemId, master.name, c.2.templateId, failure⟩, mem_excluded.2 ⟨⟨c, h, ?_⟩, hnew⟩, rfl, rfl⟩
    simp [placing, hmaster, hfailure, Placing.excludedItem]
  by_cases hnobody : c.2.assignment = .perPerson ∧ input.travelers = []
  · right
    have hmem : (⟨c.2.itemId, master.name, c.2.templateId⟩ : UnassignableItem) ∈
        (resolvedPositions collate input).filterMap fun c => (placing input c.1 c.2).unassignableItem :=
      List.mem_filterMap.2 ⟨c, h, by simp [placing, hmaster, hholds, hnobody, Placing.unassignableItem]⟩
    have hfirst : (((resolvedPositions collate input).filterMap fun c =>
        (placing input c.1 c.2).unassignableItem).find? (·.itemId = c.2.itemId)).isSome :=
      List.find?_isSome.2 ⟨_, hmem, by simp⟩
    obtain ⟨u, hu⟩ := Option.isSome_iff_exists.1 hfirst
    have hid : u.itemId = c.2.itemId := by simpa using List.find?_some hu
    exact ⟨u, mem_unassignable.2 ⟨hid ▸ hu, hid ▸ hnew⟩, hid⟩
  · -- Some target is left, so the position has a row.
    have htarget : ∃ t, t ∈ targets c.2.assignment input.travelers := by
      cases hassignment : c.2.assignment with
      | perPerson =>
        have hpos : 0 < input.travelers.length := List.length_pos_iff.2 fun hnil => hnobody ⟨hassignment, hnil⟩
        exact ⟨some 0, List.mem_map_of_mem (List.mem_range.2 hpos)⟩
      | tripGlobal => exact ⟨none, List.mem_singleton_self _⟩
    obtain ⟨t, ht⟩ := htarget
    have hc : c.2.Contributes input (c.2.itemId, t) := ⟨hknown, hholds, rfl, ht⟩
    obtain ⟨i, hi, hkey⟩ := exists_row h hc
    exact absurd ⟨i, mem_items_of_placed hi, hkey.symm ▸ hc⟩ hrow

/-- **Generation places every need once**: rows of one item and traveler are a row of a per-person position and one
for all travelers, a row has the amount of the positions that contribute to it, and a position of a known item has a
row, or its item has, or the result names it. -/
theorem placed_once (collate : String → κ) (input : GenerationInput) :
    PlacedOnce collate input (generateTripItems collate input) where
  apart := pairwise_apart nodup_keys_items
  companions hid _ _ haccepted := pairwise_apart (nodup_keys_withCompanions nodup_keys_items hid haccepted)
  amount i hi := by
    rw [items_eq] at hi
    obtain hi | hi := List.mem_append.1 hi
    · obtain ⟨hne, hamount⟩ := amount_of_mem_placedRows hi
      rwa [if_neg hne]
    · obtain ⟨hnil, hrest⟩ := contributors_of_mem_singleRows hi
      rwa [if_pos hnil]
  placed c hc k hk := by
    obtain ⟨i, hi, hkey⟩ := exists_row hc hk
    exact ⟨i, mem_items_of_placed hi, hkey⟩
  accounted c hc := accounted hc
  excluded e he := (mem_excluded.1 he).2
  unassignable u hu := (mem_unassignable.1 hu).2

end

/-- Two groups bring the camera, one for Ann, whom it goes to by default, and one for everybody; a third one brings it
to the mountains only. -/
def cameraTwice : GenerationInput where
  templates := [⟨"a", "Hiking"⟩, ⟨"b", "Photos"⟩, ⟨"c", "Mountains"⟩]
  selectedTemplateIds := ["a", "b", "c"]
  includes := []
  templateItemTasks := []
  templateTasks := []
  templateItems :=
    [⟨"p1", "a", .camera, 1, .tripGlobal, .max, none, .pack, false⟩,
      ⟨"p2", "b", .camera, 1, .perPerson, .max, none, .pack, false⟩,
      ⟨"p3", "c", .camera, 1, .tripGlobal, .max, some [("place", .text "mountains")], .pack, false⟩]
  masterItems := [⟨.camera, "Camera", none, none, none, some "ann"⟩]
  attributes := none
  travelers := [⟨"Ann", some "ann"⟩]
  singleItemIds := []

/-- Ann has the camera twice, under one key, and nobody is told that it is not needed for the mountains. -/
theorem camera_placed_twice :
    ¬ ((generateTripItems id cameraTwice).items.map fun i => (i.sourceItemId, i.travelerIndex)).Nodup ∧
      ¬ ((generateTripItems id cameraTwice).items.map reviewKeyOf).Nodup ∧
      ∃ c ∈ resolvedPositions id cameraTwice,
        (∀ k, ¬ c.2.Contributes cameraTwice k) ∧ (generateTripItems id cameraTwice).excluded = [] ∧
          (generateTripItems id cameraTwice).unassignable = [] := by
  have hitems : (generateTripItems id cameraTwice).items.map (fun i => (i.sourceItemId, i.travelerIndex)) =
      [(.camera, some 0), (.camera, some 0)] := by decide +kernel
  have hkeys : (generateTripItems id cameraTwice).items.map reviewKeyOf = ["camera:0", "camera:0"] := by
    decide +kernel
  have hexcluded : (generateTripItems id cameraTwice).excluded = [] := by decide +kernel
  have hunassignable : (generateTripItems id cameraTwice).unassignable = [] := by decide +kernel
  refine ⟨by simp [hitems], by simp [hkeys],
    ⟨(⟨"c", "Mountains"⟩, ⟨"p3", "c", .camera, 1, .tripGlobal, .max, some [("place", .text "mountains")], .pack,
      false⟩), ?_, fun k hk => ?_, hexcluded, hunassignable⟩⟩
  · have hsources : resolveSources id cameraTwice = [⟨"a", "Hiking"⟩, ⟨"b", "Photos"⟩, ⟨"c", "Mountains"⟩] := by
      decide +kernel
    refine List.mem_flatMap.2 ⟨⟨"c", "Mountains"⟩, by simp [hsources], List.mem_map_of_mem ?_⟩
    simp [cameraTwice]
  · have hfails : conditionFailure (some [("place", .text "mountains")]) none ≠ none := by decide +kernel
    exact hfails hk.2.1

end JitPack
