import Mathlib

/-!
# Neighbours in a list

An element stands next to another where it comes directly before it. Others can be taken out of the list, and one can be
put in at another place, and the two still do (`Next.filter`, `Next.after`, `Next.before`).
-/

namespace Neighbours

variable {α κ : Type*} [DecidableEq κ] {key : α → κ} {l pre post : List α} {a b x y : α} {n : ℕ} {p : α → Bool}

/-- The first directly before the second. -/
def Next (l : List α) (a b : α) : Prop := [a, b] <:+: l

/-- An element put in at a place. -/
def insertAt (l : List α) (n : ℕ) (x : α) : List α := l.take n ++ x :: l.drop n

omit [DecidableEq κ] in
theorem insertAt_perm (l : List α) (n : ℕ) (x : α) : (insertAt l n x).Perm (x :: l) := by
  have hparts : (l.take n ++ x :: l.drop n).Perm (x :: (l.take n ++ l.drop n)) := List.perm_middle
  rwa [List.take_append_drop] at hparts

theorem filter_insertAt (h : p x = false) : (insertAt l n x).filter p = l.filter p := by
  rw [insertAt, List.filter_append, List.filter_cons_of_neg (by simp [h]), ← List.filter_append, List.take_append_drop]

theorem findIdx_split (h : ((pre ++ y :: post).map key).Nodup) :
    (pre ++ y :: post).findIdx (key · = key y) = pre.length := by
  rw [List.map_append, List.map_cons, List.nodup_middle, List.nodup_cons, List.mem_append, not_or] at h
  rw [List.findIdx_append, if_neg, List.findIdx_cons]
  · simp
  · rw [List.findIdx_lt_length]
    rintro ⟨z, hz, hkey⟩
    exact h.1.1 (of_decide_eq_true hkey ▸ List.mem_map_of_mem hz)

/-- Put in behind an element. -/
theorem insertAt_after (h : ((pre ++ y :: post).map key).Nodup) :
    insertAt (pre ++ y :: post) ((pre ++ y :: post).findIdx (key · = key y) + 1) x = pre ++ y :: x :: post := by
  rw [findIdx_split h, insertAt, List.take_length_add_append, List.drop_length_add_append]
  simp

/-- Put in before an element. -/
theorem insertAt_before (h : ((pre ++ y :: post).map key).Nodup) :
    insertAt (pre ++ y :: post) ((pre ++ y :: post).findIdx (key · = key y)) x = pre ++ x :: y :: post := by
  rw [findIdx_split h, insertAt, List.take_left' rfl, List.drop_left' rfl]

theorem next_after : Next (pre ++ y :: x :: post) y x := ⟨pre, post, by simp⟩

theorem Next.filter (h : Next l a b) (ha : p a) (hb : p b) : Next (l.filter p) a b := by
  have hpair := List.IsInfix.filter p h
  rwa [List.filter_cons_of_pos ha, List.filter_cons_of_pos hb] at hpair

/-- One is put in behind an element that is not the first of the two. -/
theorem Next.after (h : Next (pre ++ y :: post) a b) (hne : a ≠ y) (x : α) : Next (pre ++ y :: x :: post) a b := by
  induction pre with
  | nil =>
    rcases List.infix_cons_iff.1 h with hhead | htail
    · exact absurd (List.cons_prefix_cons.1 hhead).1 hne
    · exact (htail.trans (List.infix_cons (List.infix_refl _))).trans (List.infix_cons (List.infix_refl _))
  | cons c pre ih =>
    rcases List.infix_cons_iff.1 h with hhead | htail
    · obtain ⟨rfl, hb⟩ := List.cons_prefix_cons.1 hhead
      refine (List.cons_prefix_cons.2 ⟨rfl, ?_⟩).isInfix
      cases pre with
      | nil => exact List.cons_prefix_cons.2 ⟨(List.cons_prefix_cons.1 hb).1, List.nil_prefix⟩
      | cons d pre => exact List.cons_prefix_cons.2 ⟨(List.cons_prefix_cons.1 hb).1, List.nil_prefix⟩
    · exact (ih htail).trans (List.infix_cons (List.infix_refl _))

/-- One is put in before an element that is not the second of the two. -/
theorem Next.before (h : Next (pre ++ y :: post) a b) (hne : b ≠ y) (x : α) : Next (pre ++ x :: y :: post) a b := by
  induction pre with
  | nil => exact h.trans (List.infix_cons (List.infix_refl _))
  | cons c pre ih =>
    rcases List.infix_cons_iff.1 h with hhead | htail
    · obtain ⟨rfl, hb⟩ := List.cons_prefix_cons.1 hhead
      refine (List.cons_prefix_cons.2 ⟨rfl, ?_⟩).isInfix
      cases pre with
      | nil => exact absurd (List.cons_prefix_cons.1 hb).1 hne
      | cons d pre => exact List.cons_prefix_cons.2 ⟨(List.cons_prefix_cons.1 hb).1, List.nil_prefix⟩
    · exact (ih htail).trans (List.infix_cons (List.infix_refl _))

end Neighbours
