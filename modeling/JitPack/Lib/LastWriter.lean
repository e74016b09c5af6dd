import Mathlib

/-!
# Last-writer-wins cells

A cell holds a value and the clock of the write that set it. A write takes the cell over exactly if
its clock is greater. Writes with different clocks commute (`Cell.put_comm`), so what a list of
writes leaves in a cell does not depend on their order (`Cell.foldl_put_perm`), and it is the write
with the greatest clock, or the first content if that is at least as new (`Cell.foldl_put_of_max`).

A state of many cells converges the same way, as long as the steps commute in the states an
invariant describes: `foldl_perm_of_invariant`.
-/

namespace LastWriter

/-- Steps that commute wherever an invariant holds, and keep it, may be taken in any order. -/
theorem foldl_perm_of_invariant {σ ι : Type*} {I : σ → Prop} {f : σ → ι → σ} {l l' : List ι}
    (hp : l.Perm l') (hI : ∀ s, I s → ∀ i ∈ l, I (f s i))
    (hcomm : ∀ s, I s → ∀ i ∈ l, ∀ j ∈ l, f (f s i) j = f (f s j) i) {s : σ} (hs : I s) :
    l.foldl f s = l'.foldl f s := by
  induction hp generalizing s with
  | nil => rfl
  | cons i hp ih =>
    rw [List.foldl_cons, List.foldl_cons]
    exact ih (fun s hs j hj => hI s hs j (.tail _ hj))
      (fun s hs j hj k hk => hcomm s hs j (.tail _ hj) k (.tail _ hk)) (hI s hs i (.head _))
  | swap i j l =>
    simp only [List.foldl_cons]
    rw [hcomm s hs j (.head _) i (.tail _ (.head _))]
  | trans hp hp' ih ih' =>
    rw [ih hI hcomm hs]
    refine ih' (fun s hs i hi => hI s hs i (hp.mem_iff.2 hi)) ?_ hs
    exact fun s hs i hi j hj => hcomm s hs i (hp.mem_iff.2 hi) j (hp.mem_iff.2 hj)

variable {C V : Type*} [LinearOrder C]

/-- A value with the clock of the write that set it. -/
@[ext] structure Cell (C V : Type*) where
  clock : C
  value : V

/-- A write is a clock and a value. It takes the cell over if it is newer. -/
def Cell.put (x : Cell C V) (w : C × V) : Cell C V := if x.clock < w.1 then ⟨w.1, w.2⟩ else x

namespace Cell

variable {x : Cell C V} {w w' : C × V} {ws ws' : List (C × V)}

theorem put_of_lt (h : x.clock < w.1) : x.put w = ⟨w.1, w.2⟩ := if_pos h

theorem put_of_le (h : w.1 ≤ x.clock) : x.put w = x := if_neg h.not_gt

@[simp] theorem clock_put : (x.put w).clock = max x.clock w.1 := by
  unfold put
  split
  case isTrue h => exact (max_eq_right h.le).symm
  case isFalse h => exact (max_eq_left (not_lt.1 h)).symm

/-- Two writes with different clocks commute. -/
theorem put_comm (h : w.1 ≠ w'.1) : (x.put w).put w' = (x.put w').put w := by
  rcases lt_or_gt_of_ne h with h | h <;> unfold put <;> grind

/-- **What writes with distinct clocks leave in a cell does not depend on their order.** -/
theorem foldl_put_perm (hd : ws.Pairwise fun w w' => w.1 ≠ w'.1) (hp : ws.Perm ws') :
    ws.foldl put x = ws'.foldl put x := by
  have : Std.Symm fun w w' : C × V => w.1 ≠ w'.1 := ⟨fun _ _ => Ne.symm⟩
  refine hp.foldl_eq' (fun w hw w' hw' x => ?_) x
  by_cases h : w = w'
  · rw [h]
  · exact put_comm (hd.forall hw hw' h)

/-- A cell is not changed by writes that are not newer. -/
theorem foldl_put_of_le (h : ∀ w ∈ ws, w.1 ≤ x.clock) : ws.foldl put x = x := by
  induction ws with
  | nil => rfl
  | cons w ws ih =>
    rw [List.foldl_cons, put_of_le (h w (.head _))]
    exact ih fun w' hw' => h w' (.tail _ hw')

/-- **The write with the greatest clock is what stays**, unless the cell was already as new. -/
theorem foldl_put_of_max (hd : ws.Pairwise fun w w' => w.1 ≠ w'.1) (hw : w ∈ ws)
    (hmax : ∀ w' ∈ ws, w'.1 ≤ w.1) :
    ws.foldl put x = if x.clock < w.1 then ⟨w.1, w.2⟩ else x := by
  obtain ⟨ws₁, ws₂, rfl⟩ := List.append_of_mem hw
  rw [foldl_put_perm hd List.perm_middle, List.foldl_cons]
  have hle : ∀ w' ∈ ws₁ ++ ws₂, w'.1 ≤ w.1 := fun w' hw' =>
    hmax w' (List.perm_middle.mem_iff.2 (.tail _ hw'))
  change (ws₁ ++ ws₂).foldl put (x.put w) = x.put w
  exact foldl_put_of_le fun w' hw' => (hle w' hw').trans (by rw [clock_put]; exact le_max_right _ _)

end Cell

end LastWriter
