import Mathlib

/-!
# Lists read by a rank

A list read by a rank is sorted by it, and what has the same rank keeps its order: `byRank`. Where the ranks tell the
elements apart, the first one read is the least (`head?_byRank`).
-/

namespace Ranked

variable {α κ : Type*} [LinearOrder κ] {rank : α → κ} {l l₁ l₂ : List α} {a : α}

/-- The list in the order of its ranks. -/
def byRank (rank : α → κ) (l : List α) : List α := l.insertionSort fun a b => rank a ≤ rank b

@[simp] theorem mem_byRank : a ∈ byRank rank l ↔ a ∈ l := List.mem_insertionSort _

theorem byRank_perm (rank : α → κ) (l : List α) : (byRank rank l).Perm l := List.perm_insertionSort _ l

theorem pairwise_byRank (rank : α → κ) (l : List α) : (byRank rank l).Pairwise fun a b => rank a ≤ rank b :=
  List.pairwise_insertionSort _ l

theorem head?_byRank_ne_none (h : a ∈ l) : (byRank rank l).head? ≠ none := by
  rw [Ne, List.head?_eq_none_iff]
  exact List.ne_nil_of_mem (mem_byRank.2 h)

/-- The first one read has the least rank. -/
theorem le_of_head?_byRank (h : (byRank rank l).head? = some a) : a ∈ l ∧ ∀ b ∈ l, rank a ≤ rank b := by
  obtain ⟨rest, hrest⟩ : ∃ rest, byRank rank l = a :: rest := List.head?_eq_some_iff.1 h
  refine ⟨mem_byRank.1 (hrest ▸ List.mem_cons_self), fun b hb => ?_⟩
  have hsorted := pairwise_byRank rank l
  rw [hrest] at hsorted
  have hb : b ∈ a :: rest := hrest ▸ mem_byRank.2 hb
  rcases List.mem_cons.1 hb with rfl | hb
  · exact le_rfl
  · exact List.rel_of_pairwise_cons hsorted hb

/-- Where the ranks are distinct, the first one read is the one with the least rank. -/
theorem head?_byRank (hl : ∀ a ∈ l, ∀ b ∈ l, rank a = rank b → a = b) :
    (byRank rank l).head? = some a ↔ a ∈ l ∧ ∀ b ∈ l, rank a ≤ rank b := by
  refine ⟨le_of_head?_byRank, fun ⟨ha, hle⟩ => ?_⟩
  cases hhead : (byRank rank l).head? with
  | none => exact absurd hhead (head?_byRank_ne_none ha)
  | some b =>
    obtain ⟨hb, hbl⟩ := le_of_head?_byRank hhead
    rw [hl b hb a ha (le_antisymm (hbl a ha) (hle b hb))]

/-- A list whose ranks rise is read as it is, in whatever order it is stored. -/
theorem byRank_eq_of_perm (hp : l₁.Perm l) (h : l.Pairwise fun a b => rank a < rank b) : byRank rank l₁ = l := by
  have hinj : (l.map rank).Nodup := List.pairwise_map.2 (h.imp fun hlt => hlt.ne)
  exact List.Perm.eq_of_pairwise
    (fun a b ha hb hab hba => List.inj_on_of_nodup_map hinj (hp.mem_iff.1 (mem_byRank.1 ha)) hb (le_antisymm hab hba))
    (pairwise_byRank rank l₁) (h.imp fun hlt => hlt.le) ((byRank_perm rank l₁).trans hp)

theorem byRank_map {β : Type*} (f : β → α) (l : List β) : byRank rank (l.map f) = (byRank (rank ∘ f) l).map f :=
  (List.map_insertionSort _ _ f l fun _ _ _ _ => Iff.rfl).symm

/-- The order depends on the ranks of the rows alone. -/
theorem byRank_congr {rank' : α → κ} (h : ∀ a ∈ l, rank a = rank' a) : byRank rank l = byRank rank' l := by
  have hsort := List.map_insertionSort (fun a b => rank a ≤ rank b) (fun a b => rank' a ≤ rank' b) id l
    fun a ha b hb => by rw [h a ha, h b hb]; rfl
  simpa [byRank] using hsort

/-- Inserting a row in order, seen through a filter. -/
theorem filter_orderedInsert (p : α → Bool) (h : l.Pairwise fun a b => rank a ≤ rank b) :
    (l.orderedInsert (fun a b => rank a ≤ rank b) a).filter p =
      if p a then (l.filter p).orderedInsert (fun a b => rank a ≤ rank b) a else l.filter p := by
  induction l with
  | nil => cases hp : p a <;> simp [hp]
  | cons b l ih =>
    obtain ⟨hb, hl⟩ := List.pairwise_cons.1 h
    rw [List.orderedInsert]
    split
    case isTrue hab =>
      -- every later row stands behind the new one as well
      have hfront : ∀ c ∈ (b :: l).filter p, rank a ≤ rank c := by
        intro c hc
        rcases List.mem_cons.1 (List.mem_filter.1 hc).1 with rfl | hc
        · exact hab
        · exact hab.trans (hb c hc)
      rw [List.filter_cons]
      split
      · cases hrest : (b :: l).filter p with
        | nil => rfl
        | cons c rest =>
          rw [hrest] at hfront
          rw [List.orderedInsert, if_pos (hfront c List.mem_cons_self)]
      · rfl
    case isFalse hab =>
      rw [List.filter_cons, ih hl]
      by_cases hpa : p a
      · by_cases hpb : p b
        · simp [hpa, hpb, hab]
        · simp [hpa, hpb]
      · by_cases hpb : p b
        · simp [hpa, hpb]
        · simp [hpa, hpb]

/-- Some of the rows read as they do among all. -/
theorem filter_byRank (p : α → Bool) (l : List α) : (byRank rank l).filter p = byRank rank (l.filter p) := by
  induction l with
  | nil => rfl
  | cons a l ih =>
    unfold byRank at ih ⊢
    rw [List.insertionSort_cons, filter_orderedInsert p (List.pairwise_insertionSort _ _), ih, List.filter_cons]
    split
    · rw [List.insertionSort_cons]
    · rfl

/-! ## A list in two parts -/

/-- If one element of a part is before all of the other part, the first one read is of that part. -/
theorem exists_head?_byRank (hl : ∀ x, x ∈ l ↔ x ∈ l₁ ∨ x ∈ l₂) (ha : a ∈ l₁) (h : ∀ b ∈ l₂, rank a < rank b) :
    ∃ x ∈ l₁, (byRank rank l).head? = some x := by
  cases hhead : (byRank rank l).head? with
  | none => exact absurd hhead (head?_byRank_ne_none ((hl a).2 (.inl ha)))
  | some x =>
    obtain ⟨hx, hle⟩ := le_of_head?_byRank hhead
    rcases (hl x).1 hx with hx | hx
    · exact ⟨x, hx, rfl⟩
    · exact absurd (hle a ((hl a).2 (.inl ha))) (not_le.2 (h x hx))

/-- If every element of a part comes after one of the other part, the first one read is that of the other part. -/
theorem head?_byRank_right (hinj : ∀ a ∈ l, ∀ b ∈ l, rank a = rank b → a = b) (hl : ∀ x, x ∈ l ↔ x ∈ l₁ ∨ x ∈ l₂)
    (h : ∀ a ∈ l₁, ∃ b ∈ l₂, rank b ≤ rank a) : (byRank rank l).head? = (byRank rank l₂).head? := by
  cases hhead : (byRank rank l₂).head? with
  | none =>
    have hnil : ∀ b, b ∉ l₂ := fun b hb => head?_byRank_ne_none hb hhead
    have hlnil : l = [] := by
      refine List.eq_nil_iff_forall_not_mem.2 fun a ha => ?_
      rcases (hl a).1 ha with ha | ha
      · obtain ⟨b, hb, -⟩ := h a ha
        exact hnil b hb
      · exact hnil a ha
    rw [hlnil]
    rfl
  | some b =>
    obtain ⟨hb, hle⟩ := le_of_head?_byRank hhead
    refine (head?_byRank hinj).2 ⟨(hl b).2 (.inr hb), fun a ha => ?_⟩
    rcases (hl a).1 ha with ha | ha
    · obtain ⟨c, hc, hca⟩ := h a ha
      exact (hle c hc).trans hca
    · exact hle a ha

/-- If one element of a kind is before all that are not, the first one read is the first one of the kind. -/
theorem head?_byRank_filter {p : α → Bool} (ha : a ∈ l) (hp : p a) (h : ∀ b ∈ l, ¬ p b → rank a < rank b) :
    (byRank rank l).head? = (byRank rank (l.filter p)).head? := by
  cases hhead : (byRank rank l).head? with
  | none => exact absurd hhead (head?_byRank_ne_none ha)
  | some x =>
    obtain ⟨hx, hle⟩ := le_of_head?_byRank hhead
    have hpx : p x := by
      by_contra hpx
      exact absurd (hle a ha) (not_le.2 (h x hx hpx))
    obtain ⟨rest, hrest⟩ : ∃ rest, byRank rank l = x :: rest := List.head?_eq_some_iff.1 hhead
    rw [← filter_byRank, hrest, List.filter_cons_of_pos hpx, List.head?_cons]

end Ranked
