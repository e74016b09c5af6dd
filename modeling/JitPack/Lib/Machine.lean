import Mathlib

/-!
# Machines and their runs

A machine takes inputs one at a time; each input gives an output and a new state. This module has
the runs of a machine over a list of inputs and the rules the verification of a machine rests on: an
invariant of the steps is an invariant of the runs (`after_invariant`), what a step says about its
output and its state is kept along a run (`outputs_related`), and an output is the output of one
step from a state the run reached (`exists_of_outputs_eq`).

A condition on the steps of a run is a relation `ok` between the state before a step and its input;
`Legal ok` asks it of every step of the run.
-/

/-- A property of every element of a list and of what stands before it. -/
theorem List.forall_split_cons {α : Type*} {P : List α → α → Prop} {a : α} {as : List α} :
    (∀ pre b post, a :: as = pre ++ b :: post → P pre b) ↔
      P [] a ∧ ∀ pre b post, as = pre ++ b :: post → P (a :: pre) b := by
  constructor
  · intro h
    exact ⟨h [] a as rfl, fun pre b post hb => h (a :: pre) b post (by rw [hb, List.cons_append])⟩
  · rintro ⟨h, hs⟩ pre b post hb
    cases pre with
    | nil => cases hb; exact h
    | cons a' pre =>
      rw [List.cons_append, List.cons.injEq] at hb
      obtain ⟨rfl, hb⟩ := hb
      exact hs pre b post hb

/-- A machine with states `σ`, inputs `ι` and outputs `ο`. -/
structure Machine (σ ι ο : Type*) where
  step : σ → ι → ο × σ

namespace Machine

variable {σ ι ο : Type*} (M : Machine σ ι ο) {s : σ} {i : ι} {is js : List ι}

/-- The state after a list of inputs. -/
def after (s : σ) (is : List ι) : σ := is.foldl (fun s i => (M.step s i).2) s

/-- The outputs of a list of inputs. -/
def outputs : σ → List ι → List ο
  | _, [] => []
  | s, i :: is => (M.step s i).1 :: outputs (M.step s i).2 is

/-- The run changed `f` for the last time when it took `i` after `pre`. -/
def ChangedLast {β : Type*} (f : σ → β) (s : σ) (is pre : List ι) (i : ι) : Prop :=
  f (M.after s (pre ++ [i])) ≠ f (M.after s pre) ∧ ∃ post, is = pre ++ i :: post ∧
    ∀ q r, post = q ++ r → f (M.after s (pre ++ i :: q)) = f (M.after s is)

/-- Every step of the run meets the condition `ok` in the state it starts from. -/
def Legal (ok : σ → ι → Prop) (s : σ) (is : List ι) : Prop :=
  ∀ pre i post, is = pre ++ i :: post → ok (M.after s pre) i

@[simp] theorem after_nil : M.after s [] = s := rfl

@[simp] theorem after_cons : M.after s (i :: is) = M.after (M.step s i).2 is := rfl

theorem after_append : M.after s (is ++ js) = M.after (M.after s is) js := List.foldl_append

@[simp] theorem outputs_nil : M.outputs s [] = [] := rfl

@[simp] theorem outputs_cons :
    M.outputs s (i :: is) = (M.step s i).1 :: M.outputs (M.step s i).2 is := rfl

theorem outputs_append :
    M.outputs s (is ++ js) = M.outputs s is ++ M.outputs (M.after s is) js := by
  induction is generalizing s with
  | nil => rfl
  | cons i is ih => simp [ih]

variable {M} {ok ok' : σ → ι → Prop}

@[simp] theorem legal_nil : M.Legal ok s [] := fun pre _ _ h => by cases pre <;> cases h

theorem legal_cons : M.Legal ok s (i :: is) ↔ ok s i ∧ M.Legal ok (M.step s i).2 is :=
  List.forall_split_cons

theorem Legal.append_left (h : M.Legal ok s (is ++ js)) : M.Legal ok s is := by
  rintro pre i post rfl
  exact h pre i (post ++ js) (by simp)

theorem Legal.append_right (h : M.Legal ok s (is ++ js)) : M.Legal ok (M.after s is) js := by
  rintro pre i post rfl
  rw [← after_append]
  exact h (is ++ pre) i post (List.append_assoc ..).symm

theorem Legal.and (h : M.Legal ok s is) (h' : M.Legal ok' s is) :
    M.Legal (fun s i => ok s i ∧ ok' s i) s is :=
  fun pre i post hi => ⟨h pre i post hi, h' pre i post hi⟩

/-- A condition on the inputs alone. -/
theorem Legal.of_forall_mem {p : ι → Prop} (h : ∀ i ∈ is, p i) : M.Legal (fun _ i => p i) s is := by
  rintro pre i post rfl
  exact h i (by simp)

/-- **The invariant rule.** -/
theorem after_invariant {I : σ → Prop} (hstep : ∀ s i, ok s i → I s → I (M.step s i).2)
    (hs : I s) (h : M.Legal ok s is) : I (M.after s is) := by
  induction is generalizing s with
  | nil => exact hs
  | cons i is ih =>
    rw [legal_cons] at h
    exact ih (hstep s i h.1 hs) h.2

/-- Where the steps that keep an invariant are known exactly, so are the runs that have it throughout. -/
theorem invariant_iff_legal {I : σ → Prop} (hstep : ∀ s i, I s → (I (M.step s i).2 ↔ ok s i)) :
    (∀ pre, pre <+: is → I (M.after s pre)) ↔ I s ∧ M.Legal ok s is := by
  induction is generalizing s with
  | nil => simp
  | cons i is ih =>
    rw [legal_cons]
    constructor
    · intro h
      have hs : I s := h [] List.nil_prefix
      have hrest := (ih (s := (M.step s i).2)).1 fun pre hpre => h (i :: pre) (List.prefix_cons_inj i |>.2 hpre)
      exact ⟨hs, (hstep s i hs).1 hrest.1, hrest.2⟩
    · rintro ⟨hs, hi, his⟩ pre hpre
      cases pre with
      | nil => exact hs
      | cons j pre =>
        obtain ⟨rfl, htail⟩ := List.cons_prefix_cons.1 hpre
        exact ih.2 ⟨(hstep s j hs).2 hi, his⟩ pre htail

/-- An invariant that every step keeps. -/
theorem after_of_step {I : σ → Prop} (hstep : ∀ s i, I s → I (M.step s i).2) (hs : I s)
    (is : List ι) : I (M.after s is) := by
  induction is generalizing s with
  | nil => exact hs
  | cons i is ih => exact ih (hstep s i hs)

section
variable {β : Type*} {f : σ → β} {pre : List ι}

/-- A step that changes `f` is the last one so far. -/
theorem changedLast_of_ne (h : f (M.after s (is ++ [i])) ≠ f (M.after s is)) :
    M.ChangedLast f s (is ++ [i]) is i := by
  refine ⟨h, [], rfl, fun q r hq => ?_⟩
  obtain rfl : q = [] := (List.append_eq_nil_iff.1 hq.symm).1
  rfl

/-- A step that leaves `f` alone takes nothing from the last one that did not. -/
theorem ChangedLast.append {j : ι} (h : M.ChangedLast f s is pre j)
    (hsame : f (M.after s (is ++ [i])) = f (M.after s is)) : M.ChangedLast f s (is ++ [i]) pre j := by
  obtain ⟨hchange, post, rfl, hkept⟩ := h
  refine ⟨hchange, post ++ [i], by simp, fun q r hq => ?_⟩
  rw [hsame]
  rcases List.eq_nil_or_concat r with rfl | ⟨r, k, rfl⟩
  · rw [List.append_nil] at hq
    rw [← hq, ← hsame, List.append_assoc, List.cons_append]
  · rw [List.concat_eq_append, ← List.append_assoc] at hq
    exact hkept q r (List.append_inj_left' hq rfl)

/-- What a run has changed was changed last by one of its steps. -/
theorem exists_changedLast (h : f (M.after s is) ≠ f s) : ∃ pre i, M.ChangedLast f s is pre i := by
  induction is using List.reverseRecOn with
  | nil => exact absurd rfl h
  | append_singleton is i ih =>
    by_cases hlast : f (M.after s (is ++ [i])) = f (M.after s is)
    · obtain ⟨pre, j, hj⟩ := ih (hlast ▸ h)
      exact ⟨pre, j, hj.append hlast⟩
    · exact ⟨is, i, changedLast_of_ne hlast⟩

end

/-- **The history rule.** A relation between outputs and states that a step gives for its own output
and keeps for the earlier ones holds between every output of a run and the state it ends in. -/
theorem outputs_related {R : ο → σ → Prop}
    (hnew : ∀ s i, ok s i → R (M.step s i).1 (M.step s i).2)
    (hkeep : ∀ s i o, ok s i → R o s → R o (M.step s i).2) (h : M.Legal ok s is) :
    ∀ o ∈ M.outputs s is, R o (M.after s is) := by
  induction is generalizing s with
  | nil => simp
  | cons i is ih =>
    rw [legal_cons] at h
    intro o ho
    rw [outputs_cons, List.mem_cons] at ho
    rcases ho with rfl | ho
    · rw [after_cons]
      exact after_invariant (fun s' j hok => hkeep s' j _ hok) (hnew s i h.1) h.2
    · exact ih h.2 o ho

/-- An output of a run is the output of one of its steps. -/
theorem exists_of_outputs_eq {pre post : List ο} {o : ο} (h : M.outputs s is = pre ++ o :: post) :
    ∃ is₁ i is₂, is = is₁ ++ i :: is₂ ∧ M.outputs s is₁ = pre ∧ (M.step (M.after s is₁) i).1 = o := by
  induction is generalizing s pre with
  | nil => cases pre <;> cases h
  | cons i is ih =>
    cases pre with
    | nil => exact ⟨[], i, is, rfl, rfl, (List.cons.inj h).1⟩
    | cons o' pre =>
      rw [outputs_cons, List.cons_append, List.cons.injEq] at h
      obtain ⟨is₁, j, is₂, rfl, hpre, ho⟩ := ih h.2
      exact ⟨i :: is₁, j, is₂, rfl, by rw [outputs_cons, h.1, hpre], ho⟩

end Machine
