import JitPack.Lib.Ranked
import JitPack.Lib.Keyed

/-!
# Hand order

Rows that a person has put in order carry a position each, or none. They are read with the ones never placed first, then
the others by their positions (`byHand`). A row that is let go in a gap of what is shown of its group goes next to the
shown rows of the gap, and the rows that are not shown keep their places relative to the others (`dropInto_spec`).
Writing the numbers that change is enough for the group to be read in the new order, in whatever order its rows are
stored (`byHand_renumber`).
-/

namespace JitPack

namespace HandOrder

variable {α κ : Type*} [DecidableEq κ]

/-! ## Reading and dropping -/

/-- `rank`: never placed is before every number. -/
def rank (positionOf : α → Option ℤ) (item : α) : WithBot ℤ := (positionOf item).elim ⊥ WithBot.some

/-- `byHand`. -/
def byHand (positionOf : α → Option ℤ) (items : List α) : List α := Ranked.byRank (rank positionOf) items

/-- `nextPosition`. -/
def nextPosition (positions : List (Option ℤ)) : ℤ :=
  positions.foldl (fun highest position => position.elim highest fun p => if p > highest then p else highest) (-1) + 1

section
variable (key : α → κ) (group shown : List α) (moved : α) (gap : ℕ)

/-- `rest`, `shownRest`: a list without the moved row. -/
def without (rows : List α) : List α := rows.filter (key · ≠ key moved)

/-- `at`: the gap, counted in the shown rows without the moved one. -/
def gapAt : ℕ :=
  match shown.findIdx? (key · = key moved) with
  | some shownIndex => if shownIndex < gap then gap - 1 else gap
  | none => gap

/-- `insertAt`. -/
def insertAt : ℕ :=
  let rest := without key moved group
  let shownRest := without key moved shown
  match shownRest[gapAt key shown moved gap]? with
  | some before => (rest.findIdx? (key · = key before)).getD rest.length
  | none =>
    match shownRest.getLast? with
    | some after => ((rest.findIdx? (key · = key after)).map (· + 1)).getD rest.length
    | none => rest.length

/-- `ordered`: the order a drop asks for. -/
def ordered : List α :=
  let rest := without key moved group
  let insertAt := insertAt key group shown moved gap
  rest.take insertAt ++ moved :: rest.drop insertAt

/-- `dropInto`. -/
def dropInto : Option (List α) :=
  let ordered := ordered key group shown moved gap
  if ordered.map key = group.map key then none else some ordered

end

/-- `Placement`. -/
structure Placement (α : Type*) where
  item : α
  position : ℤ

/-- `renumber`. -/
def renumber (ordered : List α) (positionOf : α → Option ℤ) : List (Placement α) :=
  ordered.zipIdx.filterMap fun (item, position) =>
    if positionOf item ≠ some (position : ℤ) then some ⟨item, position⟩ else none

/-- The positions after the placements are written. -/
def placed (key : α → κ) (positionOf : α → Option ℤ) (writes : List (Placement α)) (item : α) : Option ℤ :=
  match writes.find? (key ·.item = key item) with
  | some write => some write.position
  | none => positionOf item

/-! ## What a drop asks for -/

section
variable {key : α → κ} {group shown rows : List α} {moved x : α} {gap : ℕ}

theorem mem_without : x ∈ without key moved rows ↔ x ∈ rows ∧ key x ≠ key moved := by simp [without]

theorem without_sublist (h : shown.Sublist group) : (without key moved shown).Sublist (without key moved group) :=
  h.filter _

theorem without_append (rows rows' : List α) :
    without key moved (rows ++ rows') = without key moved rows ++ without key moved rows' := List.filter_append _ _

theorem without_eq_self (h : ∀ x ∈ rows, key x ≠ key moved) : without key moved rows = rows :=
  List.filter_eq_self.2 fun x hx => by simpa using h x hx

/-- A list of distinct rows around one of them. -/
theorem without_split {pre post : List α} (h : ((pre ++ x :: post).map key).Nodup) (hx : key x = key moved) :
    without key moved (pre ++ x :: post) = pre ++ post := by
  rw [List.map_append, List.map_cons, List.nodup_middle, List.nodup_cons, List.mem_append, not_or] at h
  have hpre : ∀ y ∈ pre, key y ≠ key moved := fun y hy he => h.1.1 (hx ▸ he ▸ List.mem_map_of_mem hy)
  have hpost : ∀ y ∈ post, key y ≠ key moved := fun y hy he => h.1.2 (hx ▸ he ▸ List.mem_map_of_mem hy)
  rw [without_append, without_eq_self hpre]
  refine congrArg _ ((List.filter_cons_of_neg (by simp [hx])).trans (without_eq_self hpost))

/-- Distinct rows are one of them and the others. -/
theorem perm_cons_without (h : (rows.map key).Nodup) (hmem : x ∈ rows) (hx : key x = key moved) :
    rows.Perm (x :: without key moved rows) := by
  obtain ⟨pre, post, rfl⟩ := List.append_of_mem hmem
  rw [without_split h hx]
  exact List.perm_middle

/-- The rows shown before the gap, without the moved one. -/
theorem take_gapAt (h : (shown.map key).Nodup) :
    (without key moved shown).take (gapAt key shown moved gap) = without key moved (shown.take gap) := by
  unfold gapAt
  cases hi : shown.findIdx? (key · = key moved) with
  | none =>
    have hall : ∀ x ∈ shown, key x ≠ key moved := by simpa using List.findIdx?_eq_none_iff.1 hi
    rw [without_eq_self hall, without_eq_self fun x hx => hall x (List.mem_of_mem_take hx)]
  | some i =>
    obtain ⟨hlt, hmoved, -⟩ := List.findIdx?_eq_some_iff_getElem.1 hi
    have hsplit : shown = shown.take i ++ shown[i] :: shown.drop (i + 1) := by simp
    have hlen : (shown.take i).length = i := List.length_take_of_le hlt.le
    generalize shown.take i = pre, shown.drop (i + 1) = post, shown[i] = m at *
    subst hsplit hlen
    rw [without_split h (of_decide_eq_true hmoved)]
    dsimp only
    split
    case isTrue hgap =>
      obtain ⟨n, rfl⟩ : ∃ n, gap = pre.length + (n + 1) := ⟨gap - pre.length - 1, by omega⟩
      have htake : ((pre ++ m :: post.take n).map key).Nodup := by
        refine List.Sublist.nodup (List.Sublist.map _ ?_) h
        exact (List.Sublist.refl pre).append ((List.take_sublist n post).cons_cons m)
      rw [List.take_length_add_append, List.take_succ_cons, without_split htake (of_decide_eq_true hmoved),
        ← List.take_length_add_append]
      rfl
    case isFalse hgap =>
      rw [List.take_append_of_le_length (not_lt.1 hgap), List.take_append_of_le_length (not_lt.1 hgap),
        without_eq_self]
      intro x hx he
      rw [List.map_append, List.map_cons, List.nodup_middle, List.nodup_cons, List.mem_append, not_or] at h
      exact h.1.1 ((of_decide_eq_true hmoved).trans he.symm ▸ List.mem_map_of_mem (List.mem_of_mem_take hx))

/-- The rows shown after the gap, without the moved one. -/
theorem drop_gapAt (h : (shown.map key).Nodup) :
    (without key moved shown).drop (gapAt key shown moved gap) = without key moved (shown.drop gap) := by
  have hparts : (without key moved shown).take (gapAt key shown moved gap) ++
      (without key moved shown).drop (gapAt key shown moved gap) =
      (without key moved shown).take (gapAt key shown moved gap) ++ without key moved (shown.drop gap) := by
    rw [List.take_append_drop, take_gapAt h, ← without_append, List.take_append_drop]
  exact List.append_cancel_left hparts

/-- The two sides of one element in a list and in a sublist of it. -/
theorem sublist_split {s₁ s₂ l₁ l₂ : List α} (h : (s₁ ++ x :: s₂).Sublist (l₁ ++ x :: l₂)) (hx₁ : x ∉ l₁) (hx₂ : x ∉ l₂) :
    s₁.Sublist l₁ ∧ s₂.Sublist l₂ := by
  obtain ⟨u, v, huv, hu, hv⟩ := List.sublist_append_iff.1 h
  have hxu : x ∉ u := fun hxu => hx₁ (hu.subset hxu)
  rcases List.append_eq_append_iff.1 huv with ⟨w, rfl, hw⟩ | ⟨w, rfl, rfl⟩
  · cases w with
    | nil =>
      obtain rfl : x :: s₂ = v := hw
      exact ⟨by simpa using hu, List.cons_sublist_cons.1 hv⟩
    | cons c w => cases hw; exact absurd (by simp) hxu
  · cases w with
    | nil => exact ⟨by simpa using hu, List.cons_sublist_cons.1 hv⟩
    | cons c w =>
      rcases List.sublist_cons_iff.1 hv with hv | ⟨r, hr, hv⟩
      · exact absurd (hv.subset (by simp)) hx₂
      · cases hr
        exact absurd (hv.subset (by simp)) hx₂

/-- Where a list is put together twice, and what one part holds is in the same part of the other, the parts agree. -/
theorem append_parts {l₁ l₂ pre post : List α} (h : l₁ ++ l₂ = pre ++ post) (hnodup : (pre ++ post).Nodup)
    (h₁ : ∀ x ∈ l₁, x ∈ pre) (h₂ : ∀ x ∈ l₂, x ∈ post) : l₁ = pre ∧ l₂ = post := by
  have hdisjoint := (List.nodup_append.1 hnodup).2.2
  rcases List.append_eq_append_iff.1 h with ⟨rest, rfl, rfl⟩ | ⟨rest, rfl, rfl⟩
  · have hnil : rest = [] := List.eq_nil_iff_forall_not_mem.2 fun x hx =>
      hdisjoint x (List.mem_append_right _ hx) x (h₂ x (List.mem_append_left _ hx)) rfl
    simp [hnil]
  · have hnil : rest = [] := List.eq_nil_iff_forall_not_mem.2 fun x hx =>
      hdisjoint x (h₁ x (List.mem_append_right _ hx)) x (List.mem_append_left _ hx) rfl
    simp [hnil]

/-- The place of a row among distinct ones. -/
theorem findIdx?_split {pre post : List α} (h : ((pre ++ x :: post).map key).Nodup) :
    (pre ++ x :: post).findIdx? (key · = key x) = some pre.length := by
  rw [List.map_append, List.map_cons, List.nodup_middle, List.nodup_cons, List.mem_append, not_or] at h
  rw [List.findIdx?_append, List.findIdx?_eq_none_iff.2, Option.none_or, List.findIdx?_cons]
  · simp
  · exact fun y hy => decide_eq_false fun he => h.1.1 (he ▸ List.mem_map_of_mem hy)

/-- The moved row goes in between the shown rows of the gap. -/
theorem insertAt_spec (hgroup : (group.map key).Nodup) (hshown : shown.Sublist group) :
    (∀ x ∈ (without key moved shown).take (gapAt key shown moved gap),
        x ∈ (without key moved group).take (insertAt key group shown moved gap)) ∧
      ∀ x ∈ (without key moved shown).drop (gapAt key shown moved gap),
        x ∈ (without key moved group).drop (insertAt key group shown moved gap) := by
  have hsub : (without key moved shown).Sublist (without key moved group) := without_sublist hshown
  have hnodup : ((without key moved group).map key).Nodup := (List.filter_sublist.map key).nodup hgroup
  unfold insertAt
  generalize without key moved group = rest, without key moved shown = shownRest, gapAt key shown moved gap = a at *
  dsimp only
  -- A row of the rest that is shown, and the two sides of it.
  have hsides : ∀ {s₁ s₂ : List α} {x : α}, shownRest = s₁ ++ x :: s₂ →
      ∃ l₁ l₂, rest = l₁ ++ x :: l₂ ∧ rest.findIdx? (key · = key x) = some l₁.length ∧ s₁.Sublist l₁ ∧ s₂.Sublist l₂ := by
    rintro s₁ s₂ x rfl
    obtain ⟨l₁, l₂, rfl⟩ := List.append_of_mem (hsub.subset (by simp : x ∈ s₁ ++ x :: s₂))
    have hx := hnodup.of_map key
    rw [List.nodup_middle, List.nodup_cons, List.mem_append, not_or] at hx
    obtain ⟨h₁, h₂⟩ := sublist_split hsub hx.1.1 hx.1.2
    exact ⟨l₁, l₂, rfl, findIdx?_split hnodup, h₁, h₂⟩
  split
  case h_1 before hbefore =>
    obtain ⟨hlt, hget⟩ := List.getElem?_eq_some_iff.1 hbefore
    have hsplit : shownRest = shownRest.take a ++ before :: shownRest.drop (a + 1) := by rw [← hget]; simp
    obtain ⟨l₁, l₂, rfl, hidx, h₁, h₂⟩ := hsides hsplit
    rw [hidx, Option.getD_some, List.take_left' rfl, List.drop_left' rfl, List.drop_eq_getElem_cons hlt, hget]
    exact ⟨fun x hx => h₁.subset hx, fun x hx => (h₂.cons_cons before).subset hx⟩
  case h_2 hnone =>
    rw [List.take_of_length_le (List.getElem?_eq_none_iff.1 hnone), List.drop_of_length_le (List.getElem?_eq_none_iff.1 hnone)]
    refine ⟨fun x hx => ?_, fun x hx => nomatch hx⟩
    cases hlast : shownRest.getLast? with
    | none => rw [List.getLast?_eq_none_iff.1 hlast] at hx; cases hx
    | some after =>
      obtain ⟨s, hs⟩ := List.getLast?_eq_some_iff.1 hlast
      obtain ⟨l₁, l₂, rfl, hidx, h₁, -⟩ := hsides hs
      dsimp only
      rw [hidx, Option.map_some, Option.getD_some, List.take_length_add_append, List.take_succ_cons, List.take_zero]
      rw [hs] at hx
      exact (h₁.append (List.Sublist.refl [after])).subset hx

/-- What a drop asks for: the moved row once, the others as they were, and the moved one between what is shown before
the gap and what is shown after it. -/
structure Dropped (key : α → κ) (group shown : List α) (moved : α) (gap : ℕ) (ordered : List α) : Prop where
  once : (ordered.map key).Nodup
  others : without key moved ordered = without key moved group
  between : ∃ pre post, ordered = pre ++ moved :: post ∧ (∀ x ∈ without key moved (shown.take gap), x ∈ pre) ∧
    ∀ x ∈ without key moved (shown.drop gap), x ∈ post

/-- What is shown of the new order: the moved row between the shown rows of the gap. -/
theorem Dropped.filter_eq {ordered : List α} {p : α → Bool} (h : Dropped key group shown moved gap ordered)
    (hshown : shown = group.filter p) : ordered.filter (fun x => p x ∨ key x = key moved) =
      without key moved (shown.take gap) ++ moved :: without key moved (shown.drop gap) := by
  obtain ⟨pre, post, rfl, hpre, hpost⟩ := h.between
  have honce := h.once
  rw [List.map_append, List.map_cons, List.nodup_middle, List.nodup_cons, ← List.map_append] at honce
  have hne : ∀ x ∈ pre ++ post, key x ≠ key moved := fun x hx he => honce.1 (he ▸ List.mem_map_of_mem hx)
  have hothers : ∀ rows : List α, (∀ x ∈ rows, key x ≠ key moved) →
      rows.filter (fun x => p x ∨ key x = key moved) = rows.filter p := by
    intro rows hrows
    refine List.filter_congr fun x hx => ?_
    simp [hrows x hx]
  have hall : ∀ x ∈ shown, p x := by
    rw [hshown]
    exact fun x hx => (List.mem_filter.1 hx).2
  have hparts : without key moved (shown.take gap) ++ without key moved (shown.drop gap) =
      pre.filter p ++ post.filter p := by
    rw [← without_append, List.take_append_drop, ← List.filter_append, ← without_split h.once rfl, h.others, hshown,
      without, without, List.filter_filter, List.filter_filter]
    exact List.filter_congr fun _ _ => Bool.and_comm _ _
  have hnodup : (pre.filter p ++ post.filter p).Nodup :=
    (honce.2.of_map key).sublist (List.filter_sublist.append List.filter_sublist)
  obtain ⟨htake, hdrop⟩ := append_parts hparts hnodup
    (fun x hx => List.mem_filter.2 ⟨hpre x hx, hall x (List.mem_of_mem_take (mem_without.1 hx).1)⟩)
    (fun x hx => List.mem_filter.2 ⟨hpost x hx, hall x (List.mem_of_mem_drop (mem_without.1 hx).1)⟩)
  rw [htake, hdrop, List.filter_append, List.filter_cons_of_pos (by simp),
    hothers pre fun x hx => hne x (List.mem_append_left _ hx),
    hothers post fun x hx => hne x (List.mem_append_right _ hx)]

theorem nodup_ordered (hgroup : (group.map key).Nodup) : ((ordered key group shown moved gap).map key).Nodup := by
  have hrest : ((without key moved group).map key).Nodup := (List.filter_sublist.map key).nodup hgroup
  unfold ordered
  dsimp only
  rw [List.map_append, List.map_cons, List.nodup_middle, List.nodup_cons, ← List.map_append, List.take_append_drop]
  refine ⟨fun hm => ?_, hrest⟩
  obtain ⟨x, hx, he⟩ := List.mem_map.1 hm
  exact (mem_without.1 hx).2 he

theorem ordered_dropped (hgroup : (group.map key).Nodup) (hshown : shown.Sublist group) :
    Dropped key group shown moved gap (ordered key group shown moved gap) where
  once := nodup_ordered hgroup
  others := by
    rw [ordered, without_split (nodup_ordered hgroup) rfl, List.take_append_drop]
  between := by
    have hkeys : (shown.map key).Nodup := (hshown.map key).nodup hgroup
    refine ⟨_, _, rfl, fun x hx => (insertAt_spec hgroup hshown).1 x ?_, fun x hx => (insertAt_spec hgroup hshown).2 x ?_⟩
    · rwa [take_gapAt hkeys]
    · rwa [drop_gapAt hkeys]

/-- A drop that gives the rows of the group in their order gives the group. -/
theorem ordered_eq_group (hgroup : (group.map key).Nodup) (hmoved : moved ∈ group ∨ key moved ∉ group.map key)
    (h : (ordered key group shown moved gap).map key = group.map key) : ordered key group shown moved gap = group := by
  have hmem : moved ∈ group := by
    refine hmoved.resolve_right (not_not_intro ?_)
    rw [← h]
    exact List.mem_map_of_mem (by simp [ordered])
  have hsub : ∀ x ∈ ordered key group shown moved gap, x ∈ group := by
    intro x hx
    unfold ordered at hx
    rcases List.mem_append.1 hx with hx | hx
    · exact (mem_without.1 (List.mem_of_mem_take hx)).1
    · rcases List.mem_cons.1 hx with rfl | hx
      · exact hmem
      · exact (mem_without.1 (List.mem_of_mem_drop hx)).1
  have hlen : (ordered key group shown moved gap).length = group.length := by simpa using congrArg List.length h
  refine List.ext_getElem hlen fun i hi hi' => ?_
  refine Keyed.eq_of_key hgroup (hsub _ (List.getElem_mem hi)) (List.getElem_mem hi') ?_
  have hget := congrArg (·[i]?) h
  simpa [hi, hi'] using hget

/-- **A drop answers nothing exactly if the group reads as it asks, and else the order that it asks for.** -/
theorem dropInto_spec (hgroup : (group.map key).Nodup) (hshown : shown.Sublist group)
    (hmoved : moved ∈ group ∨ key moved ∉ group.map key) :
    match dropInto key group shown moved gap with
    | none => Dropped key group shown moved gap group
    | some ordered => ordered ≠ group ∧ Dropped key group shown moved gap ordered := by
  have hdropped : Dropped key group shown moved gap (ordered key group shown moved gap) :=
    ordered_dropped hgroup hshown
  unfold dropInto
  dsimp only
  by_cases hsame : (ordered key group shown moved gap).map key = group.map key
  · rw [if_pos hsame]
    rw [ordered_eq_group hgroup hmoved hsame] at hdropped
    exact hdropped
  · rw [if_neg hsame]
    exact ⟨fun he => hsame (congrArg (List.map key) he), hdropped⟩

end

/-! ## Reading the new order back -/

section
variable {key : α → κ} {ordered stored : List α} {positionOf : α → Option ℤ} {x : α} {i : ℕ} {w : Placement α}

omit [DecidableEq κ] in
theorem mem_renumber : w ∈ renumber ordered positionOf ↔
    ∃ i : ℕ, ordered[i]? = some w.item ∧ w.position = i ∧ positionOf w.item ≠ some (i : ℤ) := by
  simp only [renumber, List.mem_filterMap, Prod.exists, List.mem_zipIdx_iff_getElem?, Option.ite_none_right_eq_some,
    Option.some_inj]
  constructor
  · rintro ⟨x, i, hx, hne, rfl⟩
    exact ⟨i, hx, rfl, hne⟩
  · rintro ⟨i, hx, hi, hne⟩
    exact ⟨w.item, i, hx, hne, by rw [← hi]⟩

/-- After the placements are written, every row stands at its place in the order. -/
theorem placed_renumber (hkeys : (ordered.map key).Nodup) (hx : ordered[i]? = some x) :
    placed key positionOf (renumber ordered positionOf) x = some (i : ℤ) := by
  unfold placed
  split
  case h_1 w hw =>
    obtain ⟨j, hj, hpos, -⟩ := mem_renumber.1 (List.mem_of_find?_eq_some hw)
    have hkey : key w.item = key x := by simpa using List.find?_some hw
    have hij : i = j := by
      obtain ⟨hi, rfl⟩ := List.getElem?_eq_some_iff.1 hx
      obtain ⟨hj, hwj⟩ := List.getElem?_eq_some_iff.1 hj
      have hget : (ordered.map key)[i]? = (ordered.map key)[j]? := by simp [hi, hj, hwj, hkey]
      exact (List.getElem?_inj (by simpa using hi) hkeys).1 hget
    rw [hpos, hij]
  case h_2 hnone =>
    by_contra hne
    have hwritten : (⟨x, i⟩ : Placement α) ∈ renumber ordered positionOf := mem_renumber.2 ⟨i, hx, rfl, hne⟩
    simpa using List.find?_eq_none.1 hnone _ hwritten

/-- The numbers rise along the order. -/
theorem pairwise_placed (hkeys : (ordered.map key).Nodup) : ordered.Pairwise fun a b =>
    rank (placed key positionOf (renumber ordered positionOf)) a <
      rank (placed key positionOf (renumber ordered positionOf)) b := by
  refine List.pairwise_iff_getElem.2 fun i j hi hj hij => ?_
  rw [rank, rank, placed_renumber hkeys (List.getElem?_eq_getElem hi), placed_renumber hkeys (List.getElem?_eq_getElem hj)]
  exact WithBot.coe_lt_coe.2 (by exact_mod_cast hij)

/-- **Writing the numbers that change makes the group read in the new order**, however its rows are stored. -/
theorem byHand_renumber (hkeys : (ordered.map key).Nodup) (hstored : stored.Perm ordered) :
    byHand (placed key positionOf (renumber ordered positionOf)) stored = ordered :=
  Ranked.byRank_eq_of_perm hstored (pairwise_placed hkeys)

end

/-- **Hand ordering.** The group is what is read of some stored rows. -/
theorem drop_and_renumber {key : α → κ} {rows shown : List α} {moved : α} {gap : ℕ} {positionOf : α → Option ℤ}
    (hrows : (rows.map key).Nodup) (hshown : shown.Sublist (byHand positionOf rows))
    (hmoved : moved ∈ rows ∨ key moved ∉ rows.map key) :
    match dropInto key (byHand positionOf rows) shown moved gap with
    | none => Dropped key (byHand positionOf rows) shown moved gap (byHand positionOf rows)
    | some ordered =>
      ordered ≠ byHand positionOf rows ∧ Dropped key (byHand positionOf rows) shown moved gap ordered ∧
        ∀ stored, stored.Perm ordered →
          byHand (placed key positionOf (renumber ordered positionOf)) stored = ordered := by
  have hperm := Ranked.byRank_perm (rank positionOf) rows
  have hkeys : ((byHand positionOf rows).map key).Nodup := (hperm.map key).nodup_iff.2 hrows
  have hgroup : moved ∈ byHand positionOf rows ∨ key moved ∉ (byHand positionOf rows).map key :=
    hmoved.imp hperm.mem_iff.2 fun hne hin => hne ((hperm.map key).mem_iff.1 hin)
  have hspec : match dropInto key (byHand positionOf rows) shown moved gap with
    | none => Dropped key (byHand positionOf rows) shown moved gap (byHand positionOf rows)
    | some ordered => ordered ≠ byHand positionOf rows ∧ Dropped key (byHand positionOf rows) shown moved gap ordered :=
    dropInto_spec hkeys hshown hgroup
  cases hdrop : dropInto key (byHand positionOf rows) shown moved gap with
  | none =>
    rw [hdrop] at hspec
    exact hspec
  | some ordered =>
    rw [hdrop] at hspec
    exact ⟨hspec.1, hspec.2, fun stored hstored => byHand_renumber hspec.2.once hstored⟩

/-- The third of three rows is let go before the first one that is shown. -/
theorem drop_to_the_top : ["milk", "eggs", "bread"] ≠ byHand (fun _ => none) ["milk", "bread", "eggs"] ∧
    Dropped id (byHand (fun _ => none) ["milk", "bread", "eggs"]) ["bread", "eggs"] "eggs" 0 ["milk", "eggs", "bread"] ∧
      ∀ stored : List String, stored.Perm ["milk", "eggs", "bread"] →
        byHand (placed id (fun _ => none) (renumber ["milk", "eggs", "bread"] fun _ => none)) stored =
          ["milk", "eggs", "bread"] := by
  have hdrop : dropInto id (byHand (fun _ => none) ["milk", "bread", "eggs"]) ["bread", "eggs"] "eggs" 0 =
      some ["milk", "eggs", "bread"] := by decide
  have hrows : (["milk", "bread", "eggs"].map id).Nodup := by decide
  have hshown : ["bread", "eggs"].Sublist (byHand (fun _ => none) ["milk", "bread", "eggs"]) := by decide
  have hspec := @drop_and_renumber _ _ _ id _ _ "eggs" 0 _ hrows hshown (.inl (by decide))
  rw [hdrop] at hspec
  exact hspec

end HandOrder

end JitPack
