import Mathlib

/-!
# Numbered snapshots

A state has a version, and snapshots of it are sent to receivers by senders that overtake each other. A sender
takes a number for its snapshot, and a receiver takes no snapshot with a number at most the greatest it has taken.
Where the numbers are given out in the order of the versions (`Numbering.Ordered`), a receiver sees the versions
in their order (`Guarded.pairwise_view`), and once a snapshot of the present version has been offered to it, the
last one that it has taken is of that version (`Guarded.reached`, `Guarded.getLast_view`).
-/

namespace JitPack

/-- The numbers given out so far, and the version of the state that each one was given to. -/
structure Numbering where
  gen : Nat
  viewOf : Nat → Nat

namespace Numbering

variable {n n' : Numbering} {version version' view : Nat}

/-- The next number is given to a snapshot of a version. -/
def give (n : Numbering) (view : Nat) : Numbering := ⟨n.gen + 1, Function.update n.viewOf (n.gen + 1) view⟩

/-- Later numbers went to no older versions, and none to one that is still to come. -/
structure Ordered (n : Numbering) (version : Nat) : Prop where
  mono : ∀ g g', g ≤ g' → g' ≤ n.gen → n.viewOf g ≤ n.viewOf g'
  le : ∀ g ≤ n.gen, n.viewOf g ≤ version

/-- More numbers are given out. -/
structure Extends (n n' : Numbering) : Prop where
  le : n.gen ≤ n'.gen
  same : ∀ g ≤ n.gen, n'.viewOf g = n.viewOf g

theorem Extends.refl (n : Numbering) : n.Extends n := ⟨le_rfl, fun _ _ => rfl⟩

theorem extends_give : n.Extends (n.give view) := by
  refine ⟨Nat.le_succ _, fun g hg => ?_⟩
  exact Function.update_of_ne (by omega) _ _

theorem viewOf_give : (n.give view).viewOf (n.gen + 1) = view := Function.update_self _ _ _

theorem Ordered.later (h : n.Ordered version) (hle : version ≤ version') : n.Ordered version' :=
  ⟨h.mono, fun g hg => (h.le g hg).trans hle⟩

theorem Ordered.give (h : n.Ordered version) (hview : n.viewOf n.gen ≤ view) (hle : view ≤ version) :
    (n.give view).Ordered version := by
  have hold {g : Nat} (hg : g ≤ n.gen) : (n.give view).viewOf g = n.viewOf g := extends_give.same g hg
  have hcases {g : Nat} (hg : g ≤ n.gen + 1) : g ≤ n.gen ∨ g = n.gen + 1 := by omega
  constructor
  · intro g g' hgg hg'
    rcases hcases hg' with hg' | rfl
    · rw [hold hg', hold (hgg.trans hg')]
      exact h.mono g g' hgg hg'
    · rw [viewOf_give]
      rcases hcases hgg with hg | rfl
      · rw [hold hg]
        exact (h.mono g n.gen hg le_rfl).trans hview
      · rw [viewOf_give]
  · intro g hg
    rcases hcases hg with hg | rfl
    · rw [hold hg]
      exact h.le g hg
    · rwa [viewOf_give]

end Numbering

/-! ## What a receiver has taken -/

section
variable {α : Type} {gen view : α → Nat} {n n' : Numbering} {taken version : Nat} {frames : List α} {lost : Bool}

/-- The frames that a receiver has taken, the greatest number it has been offered, and whether one was lost. -/
structure Guarded (gen view : α → Nat) (n : Numbering) (taken : Nat) (frames : List α) (lost : Bool) : Prop where
  le : taken ≤ n.gen
  views : ∀ f ∈ frames, gen f ≤ taken ∧ view f = n.viewOf (gen f)
  sorted : frames.Pairwise fun f f' => gen f ≤ gen f'
  newest : lost = false → taken ≠ 0 → ∃ f ∈ frames, gen f = taken

theorem Guarded.nil : Guarded gen view n 0 [] lost := ⟨Nat.zero_le _, nofun, .nil, fun _ h => absurd rfl h⟩

theorem Guarded.extends (h : Guarded gen view n taken frames lost) (hn : n.Extends n') :
    Guarded gen view n' taken frames lost := by
  refine ⟨h.le.trans hn.le, fun f hf => ⟨(h.views f hf).1, ?_⟩, h.sorted, h.newest⟩
  rw [hn.same _ ((h.views f hf).1.trans h.le)]
  exact (h.views f hf).2

/-- The receiver may go. -/
theorem Guarded.gone (h : Guarded gen view n taken frames lost) {lost' : Bool} (hlost : lost' = false → lost = false) :
    Guarded gen view n taken frames lost' :=
  ⟨h.le, h.views, h.sorted, fun hl => h.newest (hlost hl)⟩

/-- A newer frame is offered and taken. -/
theorem Guarded.take (h : Guarded gen view n taken frames lost) {f : α} (hnew : taken < gen f) (hle : gen f ≤ n.gen)
    (hview : view f = n.viewOf (gen f)) : Guarded gen view n (gen f) (frames ++ [f]) lost := by
  refine ⟨hle, fun f' hf' => ?_, ?_, fun _ _ => ⟨f, by simp, rfl⟩⟩
  · rcases List.mem_append.1 hf' with hf' | hf'
    · exact ⟨(h.views f' hf').1.trans hnew.le, (h.views f' hf').2⟩
    · rw [List.mem_singleton.1 hf']
      exact ⟨le_rfl, hview⟩
  · rw [List.pairwise_append]
    refine ⟨h.sorted, List.pairwise_singleton .., fun f' hf' g hg => ?_⟩
    rw [List.mem_singleton.1 hg]
    exact (h.views f' hf').1.trans hnew.le

/-- A newer frame is offered and lost. -/
theorem Guarded.lose (h : Guarded gen view n taken frames lost) {g : Nat} (hnew : taken ≤ g) (hle : g ≤ n.gen) :
    Guarded gen view n g frames true :=
  ⟨hle, fun f hf => ⟨(h.views f hf).1.trans hnew, (h.views f hf).2⟩, h.sorted, nofun⟩

/-- A receiver sees the versions in their order. -/
theorem Guarded.pairwise_view (h : Guarded gen view n taken frames lost) (hn : n.Ordered version) :
    frames.Pairwise fun f f' => view f ≤ view f' := by
  refine h.sorted.imp_of_mem fun hf hf' hle => ?_
  rw [(h.views _ hf).2, (h.views _ hf').2]
  exact hn.mono _ _ hle ((h.views _ hf').1.trans h.le)

/-- A frame of the present version that is refused comes after another one of that version. -/
theorem Guarded.reached (h : Guarded gen view n taken frames false) (hn : n.Ordered version) {g : Nat} (hpos : 0 < g)
    (hrefused : g ≤ taken) (hview : n.viewOf g = version) : ∃ f ∈ frames, view f = version := by
  obtain ⟨f, hf, hgen⟩ := h.newest rfl (by omega)
  refine ⟨f, hf, le_antisymm ?_ ?_⟩
  · rw [(h.views f hf).2, hgen]
    exact hn.le _ h.le
  · rw [(h.views f hf).2, hgen, ← hview]
    exact hn.mono _ _ hrefused h.le

/-- After a frame of the present version no other comes. -/
theorem Guarded.getLast_view (h : Guarded gen view n taken frames lost) (hn : n.Ordered version)
    (hex : ∃ f ∈ frames, view f = version) : ∃ f, frames.getLast? = some f ∧ view f = version := by
  obtain ⟨f, hf, hview⟩ := hex
  obtain ⟨last, hlast⟩ := Option.isSome_iff_exists.1 (List.getLast?_isSome.2 (List.ne_nil_of_mem hf))
  have hmem : last ∈ frames := List.mem_of_getLast? hlast
  refine ⟨last, hlast, le_antisymm ?_ ?_⟩
  · rw [(h.views last hmem).2]
    exact hn.le _ ((h.views last hmem).1.trans h.le)
  · obtain ⟨pre, rfl⟩ := List.getLast?_eq_some_iff.1 hlast
    rcases List.mem_append.1 hf with hf | hf
    · rw [← hview]
      exact (List.pairwise_append.1 (h.pairwise_view hn)).2.2 f hf last (List.mem_singleton_self _)
    · rw [← List.mem_singleton.1 hf, hview]

end

end JitPack
