import Mathlib

/-!
# A search along a queue

What can be reached from a source is found by taking one element after another from a queue, and by putting what it
leads to at the end of the queue unless that was seen before. Nothing leads out of a finite universe, so the search ends
(`search`), and it finds what can be reached (`mem_search`).
-/

namespace Worklist

variable {α : Type*} [DecidableEq α]

/-- What was found beside the source, and what is still to be looked at. -/
structure State (α : Type*) where
  out : List α
  queue : List α

/-- One element that the current one leads to. -/
def State.push (source : α) (s : State α) (y : α) : State α :=
  if y = source ∨ y ∈ s.out then s else ⟨s.out ++ [y], s.queue ++ [y]⟩

/-- How much there is left to do. -/
def State.ahead (univ : List α) (s : State α) : ℕ := s.queue.length + (univ.filter (· ∉ s.out)).length

section
variable {source x y : α} {univ ys : List α} {s : State α}

theorem ahead_push (hy : y ∈ univ) : (s.push source y).ahead univ ≤ s.ahead univ := by
  unfold State.push
  split
  · exact le_rfl
  · next hnew =>
    have hless : (univ.filter (· ∉ s.out ++ [y])).length < (univ.filter (· ∉ s.out)).length := by
      have hsub : univ.filter (· ∉ s.out ++ [y]) = (univ.filter (· ∉ s.out)).filter (· ≠ y) := by
        rw [List.filter_filter]
        refine List.filter_congr fun z _ => ?_
        simp [and_comm]
      rw [hsub]
      refine List.length_filter_lt_length_iff_exists.2 ⟨y, ?_, by simp⟩
      exact List.mem_filter.2 ⟨hy, by simpa using fun hmem => hnew (.inr hmem)⟩
    simp only [State.ahead, List.length_append, List.length_singleton]
    omega

theorem ahead_foldl_push (hys : ys ⊆ univ) : (ys.foldl (State.push source) s).ahead univ ≤ s.ahead univ := by
  induction ys generalizing s with
  | nil => exact le_rfl
  | cons y ys ih =>
    obtain ⟨hy, hys⟩ := List.cons_subset.1 hys
    exact (ih hys).trans (ahead_push hy)

end

/-- The search from where it stands. -/
def run (next : α → List α) (univ : List α) (hclosed : ∀ x, next x ⊆ univ) (source : α) (s : State α) : List α :=
  match _hq : s.queue with
  | [] => s.out
  | x :: rest => run next univ hclosed source ((next x).foldl (State.push source) ⟨s.out, rest⟩)
termination_by s.ahead univ
decreasing_by
  refine (ahead_foldl_push (hclosed x)).trans_lt ?_
  simp only [State.ahead, _hq, List.length_cons]
  omega

/-- The elements that are found from a source. -/
def search (next : α → List α) (univ : List α) (hclosed : ∀ x, next x ⊆ univ) (source : α) : List α :=
  run next univ hclosed source ⟨[], [source]⟩

/-- One step of the search. -/
def Leads (next : α → List α) (x y : α) : Prop := y ∈ next x

/-- Where a search stands: what it found can be reached, and it has looked at all of it but the queue, and but what is
`left` of the current element. -/
structure Underway (next : α → List α) (source current : α) (left : List α) (s : State α) : Prop where
  reached : ∀ y, y = source ∨ y ∈ s.out → Relation.ReflTransGen (Leads next) source y
  new : source ∉ s.out
  queued : ∀ x ∈ s.queue, x = source ∨ x ∈ s.out
  looked : ∀ x, x = source ∨ x ∈ s.out →
    x ∈ s.queue ∨ ∀ y ∈ next x, (y = source ∨ y ∈ s.out) ∨ x = current ∧ y ∈ left

section
variable {next : α → List α} {univ : List α} {hclosed : ∀ x, next x ⊆ univ} {source current x y : α}
  {ys left : List α} {s : State α}

omit [DecidableEq α] in
theorem Underway.start : Underway next source current [] ⟨[], [source]⟩ := by
  constructor <;> simp +contextual [Relation.ReflTransGen.refl]

omit [DecidableEq α] in
/-- An element is taken from the queue. -/
theorem Underway.pop {rest : List α} (h : Underway next source current [] s) (hq : s.queue = x :: rest) :
    Underway next source x (next x) ⟨s.out, rest⟩ where
  reached := h.reached
  new := h.new
  queued := fun y hy => h.queued y (hq ▸ List.mem_cons_of_mem _ hy)
  looked := by
    intro z hz
    by_cases hzx : z = x
    · subst hzx
      exact .inr fun y hy => .inr ⟨rfl, hy⟩
    · rcases h.looked z hz with hqueue | hall
      · exact .inl ((List.mem_cons.1 (hq ▸ hqueue)).resolve_left hzx)
      · exact .inr fun y hy => .inl ((hall y hy).resolve_right fun hnone => nomatch hnone.2)

/-- An element that the current one leads to is put in the queue. -/
theorem Underway.push (h : Underway next source current (y :: left) s)
    (hcurrent : Relation.ReflTransGen (Leads next) source current) (hy : y ∈ next current) :
    Underway next source current left (s.push source y) := by
  unfold State.push
  split
  · next hold =>
    refine { h with looked := fun x hx => (h.looked x hx).imp_right fun hall z hz => ?_ }
    rcases hall z hz with hseen | ⟨hx', hmem⟩
    · exact .inl hseen
    · rcases List.mem_cons.1 hmem with rfl | hleft
      · exact .inl hold
      · exact .inr ⟨hx', hleft⟩
  · next hnew =>
    refine
      { reached := ?_
        new := ?_
        queued := ?_
        looked := ?_ }
    · rintro z (hz | hz)
      · exact h.reached z (.inl hz)
      · rcases List.mem_append.1 hz with hz | hz
        · exact h.reached z (.inr hz)
        · rw [List.mem_singleton.1 hz]
          exact hcurrent.tail hy
    · rw [List.mem_append, List.mem_singleton, not_or]
      exact ⟨h.new, fun heq => hnew (.inl heq.symm)⟩
    · intro z hz
      rcases List.mem_append.1 hz with hz | hz
      · exact (h.queued z hz).imp_right (List.mem_append_left _)
      · exact .inr (List.mem_append_right _ hz)
    · intro x hx
      have hx' : (x = source ∨ x ∈ s.out) ∨ x = y := by
        rcases hx with hx | hx
        · exact .inl (.inl hx)
        · rcases List.mem_append.1 hx with hx | hx
          · exact .inl (.inr hx)
          · exact .inr (List.mem_singleton.1 hx)
      rcases hx' with hx | rfl
      · rcases h.looked x hx with hqueue | hall
        · exact .inl (List.mem_append_left _ hqueue)
        · refine .inr fun z hz => ?_
          rcases hall z hz with hseen | ⟨hxc, hmem⟩
          · exact .inl (hseen.imp_right (List.mem_append_left _))
          · rcases List.mem_cons.1 hmem with rfl | hleft
            · exact .inl (.inr (List.mem_append_right _ (List.mem_singleton_self _)))
            · exact .inr ⟨hxc, hleft⟩
      · exact .inl (List.mem_append_right _ (List.mem_singleton_self _))

theorem Underway.foldl_push (h : Underway next source current ys s)
    (hcurrent : Relation.ReflTransGen (Leads next) source current) (hys : ys ⊆ next current) :
    Underway next source current [] (ys.foldl (State.push source) s) := by
  induction ys generalizing s with
  | nil => exact h
  | cons y ys ih =>
    obtain ⟨hy, hys⟩ := List.cons_subset.1 hys
    exact ih (h.push hcurrent hy) hys

/-- The search ends with all that it has to look at. -/
theorem Underway.mem_run (h : Underway next source current [] s) :
    y ∈ run next univ hclosed source s ↔ y ≠ source ∧ Relation.ReflTransGen (Leads next) source y := by
  induction s using run.induct next univ hclosed source generalizing current with
  | case1 s hq =>
    rw [run, hq]
    constructor
    · exact fun hy => ⟨fun heq => h.new (heq ▸ hy), h.reached y (.inr hy)⟩
    · rintro ⟨hne, hreach⟩
      refine Or.resolve_left ?_ hne
      clear hne
      induction hreach with
      | refl => exact .inl rfl
      | tail _ hstep ih =>
        rcases h.looked _ ih with hqueue | hall
        · rw [hq] at hqueue
          cases hqueue
        · exact (hall _ hstep).resolve_right fun hnone => nomatch hnone.2
  | case2 s x rest hq ih =>
    rw [run, hq]
    have hx : Relation.ReflTransGen (Leads next) source x := h.reached x (h.queued x (hq ▸ List.mem_cons_self))
    exact ih ((h.pop hq).foldl_push hx (List.Subset.refl _))

/-- **The search finds what can be reached.** -/
theorem mem_search : y ∈ search next univ hclosed source ↔ y ≠ source ∧ Relation.ReflTransGen (Leads next) source y :=
  (Underway.start : Underway next source source [] _).mem_run

end

end Worklist
