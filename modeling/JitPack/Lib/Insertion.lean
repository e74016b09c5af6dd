import Mathlib

/-!
# Sets in the order of insertion

A set that keeps its elements in the order in which they were first added, as a list: adding an element that is there
changes nothing. The second half is about that order: which of two elements stands before the other (`Before`), also
in a list that is laid out block by block.
-/

namespace Insertion

variable {α : Type*} [DecidableEq α]

/-- The set with one more element. -/
def add (s : List α) (x : α) : List α := if x ∈ s then s else s ++ [x]

/-- The set of the elements of a list. -/
def ofList (l : List α) : List α := l.foldl add []

section
variable {s l l' : List α} {x y : α}

@[simp] theorem mem_add : y ∈ add s x ↔ y ∈ s ∨ y = x := by
  unfold add
  split
  · next h =>
    refine ⟨.inl, fun hy => hy.elim id ?_⟩
    rintro rfl
    exact h
  · simp

theorem nodup_add (h : s.Nodup) : (add s x).Nodup := by
  unfold add
  split
  · exact h
  · next hx => exact h.append (List.nodup_singleton x) (by simpa using hx)

@[simp] theorem ofList_nil : ofList ([] : List α) = [] := rfl

theorem ofList_append_singleton : ofList (l ++ [x]) = add (ofList l) x := by simp [ofList]

@[simp] theorem mem_ofList : y ∈ ofList l ↔ y ∈ l := by
  induction l using List.reverseRecOn with
  | nil => simp
  | append_singleton l x ih => simp [ofList_append_singleton, ih]

@[simp] theorem mem_foldl_add : y ∈ l.foldl add s ↔ y ∈ s ∨ y ∈ l := by
  induction l generalizing s with
  | nil => simp
  | cons x l ih => rw [List.foldl_cons, ih, mem_add, List.mem_cons, or_assoc]

theorem nodup_ofList (l : List α) : (ofList l).Nodup := by
  induction l using List.reverseRecOn with
  | nil => exact List.nodup_nil
  | append_singleton l x ih =>
    rw [ofList_append_singleton]
    exact nodup_add ih

/-- Lists with the same elements are the same set in two orders. -/
theorem ofList_perm (h : ∀ x, x ∈ l' ↔ x ∈ l) : (ofList l').Perm (ofList l) :=
  (List.perm_ext_iff_of_nodup (nodup_ofList l') (nodup_ofList l)).2 fun x => by rw [mem_ofList, mem_ofList, h]

/-- The first element stays in front. -/
theorem ofList_cons (x : α) (l : List α) : ∃ rest, ofList (x :: l) = x :: rest := by
  induction l using List.reverseRecOn with
  | nil => exact ⟨[], rfl⟩
  | append_singleton l y ih =>
    obtain ⟨rest, hrest⟩ := ih
    rw [← List.cons_append, ofList_append_singleton, hrest]
    unfold add
    split
    · exact ⟨rest, rfl⟩
    · exact ⟨rest ++ [y], rfl⟩

/-- What is found first in the blocks of a list is found first in those of its set. -/
theorem find?_flatMap_ofList {β : Type*} (f : α → List β) (p : β → Bool) (l : List α) :
    ((ofList l).flatMap f).find? p = (l.flatMap f).find? p := by
  induction l using List.reverseRecOn with
  | nil => rfl
  | append_singleton l x ih =>
    rw [ofList_append_singleton, List.flatMap_append, List.flatMap_singleton, List.find?_append, ← ih]
    unfold add
    split
    · next hx =>
      cases hfirst : ((ofList l).flatMap f).find? p with
      | some b => rfl
      | none =>
        have hnone : (f x).find? p = none :=
          List.find?_eq_none.2 fun b hb => List.find?_eq_none.1 hfirst b (List.mem_flatMap.2 ⟨x, hx, hb⟩)
        rw [hnone, Option.or_none]
    · rw [List.flatMap_append, List.flatMap_singleton, List.find?_append]

/-- A sum over a set leaves out what the list has again. -/
theorem sum_ofList_le (f : α → ℕ) (l : List α) : ((ofList l).map f).sum ≤ (l.map f).sum := by
  induction l using List.reverseRecOn with
  | nil => exact le_rfl
  | append_singleton l x ih =>
    rw [ofList_append_singleton, List.map_append, List.sum_append]
    unfold add
    split
    · exact ih.trans (Nat.le_add_right _ _)
    · rw [List.map_append, List.sum_append]
      exact Nat.add_le_add_right ih _

theorem sum_ofList_eq_iff (f : α → ℕ) (l : List α) :
    ((ofList l).map f).sum = (l.map f).sum ↔ ∀ x, 1 < l.count x → f x = 0 := by
  induction l using List.reverseRecOn with
  | nil => simp
  | append_singleton l x ih =>
    have hle := sum_ofList_le f l
    rw [ofList_append_singleton, List.map_append, List.sum_append]
    unfold add
    split
    · next hx =>
      have hcount : 0 < l.count x := List.count_pos_iff.2 (mem_ofList.1 hx)
      simp only [List.map_cons, List.map_nil, List.sum_cons, List.sum_nil, Nat.add_zero, List.count_append]
      constructor
      · intro heq y hy
        by_cases hyx : y = x
        · subst hyx
          omega
        · refine ih.1 (by omega) y ?_
          simpa [Ne.symm hyx] using hy
      · intro h
        have hzero : f x = 0 := h x (by simpa using hcount)
        rw [hzero, Nat.add_zero, ih]
        exact fun y hy => h y (by omega)
    · next hx =>
      have hcount : l.count x = 0 := List.count_eq_zero.2 fun h => hx (mem_ofList.2 h)
      rw [List.map_append, List.sum_append, Nat.add_right_cancel_iff, ih]
      refine forall_congr' fun y => ?_
      by_cases hyx : y = x
      · subst hyx
        simp [hcount]
      · simp [Ne.symm hyx]

end

/-! ## The order of a list -/

/-- `x` stands in the list at or before `y`. -/
def Before {α : Type*} (l : List α) (x y : α) : Prop := ∃ pre post, l = pre ++ x :: post ∧ y ∈ x :: post

section
variable {α β : Type*} {l l' pre post : List α} {x y : α}

theorem before_refl (h : x ∈ l) : Before l x x := by
  obtain ⟨pre, post, rfl⟩ := List.append_of_mem h
  exact ⟨pre, post, rfl, List.mem_cons_self⟩

theorem Before.right_mem (h : Before l x y) : y ∈ l := by
  obtain ⟨pre, post, rfl, hy⟩ := h
  exact List.mem_append_right _ hy

theorem before_cons_head (h : y ∈ x :: l) : Before (x :: l) x y := ⟨[], l, rfl, h⟩

theorem Before.cons (h : Before l x y) (z : α) : Before (z :: l) x y := by
  obtain ⟨pre, post, rfl, hy⟩ := h
  exact ⟨z :: pre, post, rfl, hy⟩

theorem before_total (hx : x ∈ l) (hy : y ∈ l) : Before l x y ∨ Before l y x := by
  induction l with
  | nil => cases hx
  | cons z l ih =>
    obtain rfl | hx' := List.mem_cons.1 hx
    · exact .inl (before_cons_head hy)
    obtain rfl | hy' := List.mem_cons.1 hy
    · exact .inr (before_cons_head hx)
    · exact (ih hx' hy').imp (·.cons z) (·.cons z)

/-- In a list without repetitions, what stands at or after an element is in the rest of any split at it. -/
theorem Before.mem_rest (h : Before l x y) (hl : l.Nodup) (hsplit : l = pre ++ x :: post) : y ∈ x :: post := by
  obtain ⟨pre', post', heq, hy⟩ := h
  have hnot : x ∉ pre := fun hx => by
    rw [hsplit] at hl
    exact (List.nodup_append.1 hl).2.2 x hx x List.mem_cons_self rfl
  have hnot' : x ∉ pre' := fun hx => by
    rw [heq] at hl
    exact (List.nodup_append.1 hl).2.2 x hx x List.mem_cons_self rfl
  obtain ⟨rfl, hpost⟩ : pre = pre' ∧ x :: post = x :: post' := by
    obtain ⟨a, rfl, ha⟩ | ⟨a, rfl, ha⟩ := List.append_eq_append_iff.1 (hsplit.symm.trans heq)
    · cases a with
      | nil => simpa using ha
      | cons z a =>
        obtain rfl : x = z := (List.cons.inj ha).1
        exact absurd (List.mem_append_right _ List.mem_cons_self) hnot'
    · cases a with
      | nil => simpa using ha.symm
      | cons z a =>
        obtain rfl : x = z := (List.cons.inj ha).1
        exact absurd (List.mem_append_right _ List.mem_cons_self) hnot
  exact hpost ▸ hy

/-- What stands at or before an element of the first part is in the first part. -/
theorem Before.mem_first (h : Before (l ++ l') x y) (hy : y ∉ l') : x ∈ l := by
  obtain ⟨pre, post, heq, hmem⟩ := h
  obtain ⟨a, rfl, ha⟩ | ⟨a, rfl, ha⟩ := List.append_eq_append_iff.1 heq
  · exact absurd (ha ▸ List.mem_append_right a hmem) hy
  · cases a with
    | nil => exact absurd ((by simpa using ha : x :: post = l') ▸ hmem) hy
    | cons z a =>
      obtain rfl : x = z := (List.cons.inj ha).1
      simp

/-- The order of two elements of the second part. -/
theorem Before.second (h : Before (l ++ l') x y) (hx : x ∉ l) : Before l' x y := by
  obtain ⟨pre, post, heq, hmem⟩ := h
  obtain ⟨a, rfl, ha⟩ | ⟨a, rfl, ha⟩ := List.append_eq_append_iff.1 heq
  · exact ⟨a, post, ha, hmem⟩
  · cases a with
    | nil => exact ⟨[], post, by simpa using ha.symm, hmem⟩
    | cons z a =>
      obtain rfl : x = z := (List.cons.inj ha).1
      exact absurd (List.mem_append_right _ List.mem_cons_self) hx

/-- The order of a list is that of the blocks it is laid out in. -/
theorem before_of_flatMap {f : α → List β} {source : β → α} (hf : ∀ a ∈ l, ∀ b ∈ f a, source b = a)
    {first second : List β} (h : l.flatMap f = first ++ second) {b b' : β} (hb : b ∈ first) (hb' : b' ∈ second) :
    Before l (source b) (source b') := by
  induction l generalizing first with
  | nil =>
    obtain ⟨rfl, -⟩ := List.append_eq_nil_iff.1 h.symm
    cases hb
  | cons a l ih =>
    have hrest : ∀ c ∈ l.flatMap f, source c ∈ l := fun c hc => by
      obtain ⟨a', ha', hc⟩ := List.mem_flatMap.1 hc
      exact hf a' (List.mem_cons_of_mem _ ha') c hc ▸ ha'
    have hhead : ∀ c ∈ f a, source c = a := hf a List.mem_cons_self
    rw [List.flatMap_cons] at h
    obtain ⟨c, rfl, hc⟩ | ⟨c, hc, rfl⟩ := List.append_eq_append_iff.1 h
    · obtain hb | hb := List.mem_append.1 hb
      · rw [hhead b hb]
        exact before_cons_head (List.mem_cons_of_mem _ (hrest _ (hc ▸ List.mem_append_right _ hb')))
      · exact (ih (fun a' ha' => hf a' (List.mem_cons_of_mem _ ha')) hc hb).cons a
    · rw [hhead b (hc ▸ List.mem_append_left _ hb)]
      refine before_cons_head ?_
      obtain hb' | hb' := List.mem_append.1 hb'
      · exact hhead b' (hc ▸ List.mem_append_right _ hb') ▸ List.mem_cons_self
      · exact List.mem_cons_of_mem _ (hrest b' hb')

end

end Insertion
