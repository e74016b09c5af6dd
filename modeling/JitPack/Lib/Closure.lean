import Mathlib

/-!
# The closure of a finite relation

`closure r univ s` lists the members of `s` and everything that can be reached from them along the
decidable relation `r` inside the list `univ`. It is computed by growing the list, as many rounds as
`univ` is long: a round that finds nothing leaves a closed list, and a round that finds something
has fewer elements left to find (`closed_iterate`). Membership is then reachability
(`mem_closure`).
-/

namespace Closure

variable {α : Type*} [DecidableEq α] (r : α → α → Bool) (univ : List α)

/-- What one round finds: the elements not yet listed that some listed element leads to. -/
def found (s : List α) : List α := univ.filter fun y => y ∉ s ∧ s.any (r · y)

def grow (s : List α) : List α := s ++ found r univ s

/-- Everything that can be reached from `s` inside `univ`. -/
def closure (s : List α) : List α := (grow r univ)^[univ.length] s

/-- One step of the relation inside `univ`. -/
def Leads (x y : α) : Prop := y ∈ univ ∧ r x y = true

/-- Nothing in `univ` is left that an element of `s` leads to. -/
def Closed (s : List α) : Prop := ∀ x ∈ s, ∀ y, Leads r univ x y → y ∈ s

section
variable {r univ} {s : List α} {x y : α}

theorem mem_found : y ∈ found r univ s ↔ y ∉ s ∧ ∃ x ∈ s, Leads r univ x y := by
  simp only [found, Leads, List.mem_filter, List.any_eq_true, decide_eq_true_eq]
  tauto

theorem closed_iff_found : Closed r univ s ↔ found r univ s = [] := by
  rw [List.eq_nil_iff_forall_not_mem]
  constructor
  · intro h y hy
    obtain ⟨hns, x, hx, hxy⟩ := mem_found.1 hy
    exact hns (h x hx y hxy)
  · intro h x hx y hxy
    by_contra hns
    exact h y (mem_found.2 ⟨hns, x, hx, hxy⟩)

theorem grow_of_closed (h : Closed r univ s) : grow r univ s = s := by
  rw [grow, closed_iff_found.1 h, List.append_nil]

/-- A round that finds something leaves fewer elements of `univ` unlisted. -/
theorem unlisted_grow_lt (h : ¬ Closed r univ s) :
    (univ.filter (· ∉ grow r univ s)).length < (univ.filter (· ∉ s)).length := by
  obtain ⟨y, hy⟩ := List.exists_mem_of_ne_nil _ (fun he => h (closed_iff_found.2 he))
  obtain ⟨hns, x, hx, hxy⟩ := mem_found.1 hy
  have hsub : univ.filter (· ∉ grow r univ s) = (univ.filter (· ∉ s)).filter (· ∉ grow r univ s) := by
    rw [List.filter_filter]
    congr 1
    funext z
    simp only [grow, List.mem_append, not_or, Bool.decide_and]
    cases decide (z ∉ s) <;> simp
  rw [hsub]
  refine List.length_filter_lt_length_iff_exists.2 ⟨y, ?_, ?_⟩
  · exact List.mem_filter.2 ⟨hxy.1, by simpa using hns⟩
  · simp [grow, hy]

/-- After as many rounds as elements are unlisted, the list is closed. -/
theorem closed_iterate (n : Nat) (h : (univ.filter (· ∉ s)).length ≤ n) :
    Closed r univ ((grow r univ)^[n] s) := by
  induction n generalizing s with
  | zero =>
    intro x _ y hxy
    by_contra hns
    have hy : y ∈ univ.filter (· ∉ s) := List.mem_filter.2 ⟨hxy.1, by simpa using hns⟩
    exact List.ne_nil_of_mem hy (List.length_eq_zero_iff.1 (Nat.le_zero.1 h))
  | succ n ih =>
    by_cases hc : Closed r univ s
    · rw [Function.iterate_fixed (grow_of_closed hc)]
      exact hc
    · rw [Function.iterate_succ_apply]
      exact ih (Nat.le_of_lt_succ (lt_of_lt_of_le (unlisted_grow_lt hc) h))

theorem subset_iterate (n : Nat) : s ⊆ (grow r univ)^[n] s := by
  induction n generalizing s with
  | zero => exact fun _ h => h
  | succ n ih =>
    rw [Function.iterate_succ_apply]
    exact fun x hx => ih (List.mem_append_left _ hx)

/-- Whatever is listed can be reached. -/
theorem reached_of_mem_iterate (n : Nat) (h : y ∈ (grow r univ)^[n] s) :
    ∃ x ∈ s, Relation.ReflTransGen (Leads r univ) x y := by
  induction n generalizing s with
  | zero => exact ⟨y, h, .refl⟩
  | succ n ih =>
    rw [Function.iterate_succ_apply] at h
    obtain ⟨x, hx, hxy⟩ := ih h
    rcases List.mem_append.1 hx with hx | hx
    · exact ⟨x, hx, hxy⟩
    · obtain ⟨-, w, hw, hwx⟩ := mem_found.1 hx
      exact ⟨w, hw, .head hwx hxy⟩

theorem closed_closure : Closed r univ (closure r univ s) :=
  closed_iterate _ (List.length_filter_le ..)

theorem subset_closure : s ⊆ closure r univ s := subset_iterate _

/-- The closure lists what can be reached. -/
theorem mem_closure :
    y ∈ closure r univ s ↔ ∃ x ∈ s, Relation.ReflTransGen (Leads r univ) x y := by
  constructor
  · exact reached_of_mem_iterate _
  · rintro ⟨x, hx, hxy⟩
    induction hxy with
    | refl => exact subset_closure hx
    | tail _ hyz ih => exact closed_closure _ ih _ hyz

end

end Closure
