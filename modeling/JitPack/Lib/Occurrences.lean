import Mathlib.Data.List.Infix

/-!
# The occurrences of a text in a text

A scan that goes on behind what it has found meets the occurrences of a needle from the left and without overlaps.
`rests` is what stands behind each of them.
-/

namespace JitPack

namespace Occurrences

variable {α : Type*} [DecidableEq α] {needle text post : List α}

/-- What stands behind each occurrence of `needle`, where the first `skip` elements belong to the one before. -/
def restsFrom (needle : List α) : ℕ → List α → List (List α)
  | _, [] => []
  | skip + 1, _ :: cs => restsFrom needle skip cs
  | 0, c :: cs =>
    if needle <+: c :: cs then (c :: cs).drop needle.length :: restsFrom needle (needle.length - 1) cs
    else restsFrom needle 0 cs

/-- What stands behind each occurrence of `needle`, counted from the left without overlaps. -/
def rests (needle text : List α) : List (List α) := restsFrom needle 0 text

@[simp] theorem rests_nil : rests needle [] = [] := rfl

theorem restsFrom_eq_drop (skip : ℕ) (text : List α) : restsFrom needle skip text = rests needle (text.drop skip) := by
  induction skip generalizing text with
  | zero => rfl
  | succ skip ih =>
    cases text with
    | nil => rfl
    | cons c cs => simpa [restsFrom] using ih cs

theorem rests_cons_of_not {c : α} {cs : List α} (h : ¬ needle <+: c :: cs) :
    rests needle (c :: cs) = rests needle cs := by
  simp [rests, restsFrom, h]

/-- Past elements at which the needle does not start, nothing is found. -/
theorem rests_append_of_not {pre : List α} (h : ∀ s, s <:+ pre → s ≠ [] → ¬ needle <+: s ++ text) :
    rests needle (pre ++ text) = rests needle text := by
  induction pre with
  | nil => rfl
  | cons c pre ih =>
    have hc : ¬ needle <+: c :: (pre ++ text) := h (c :: pre) (List.suffix_refl _) (by simp)
    rw [List.cons_append, rests_cons_of_not hc]
    exact ih fun s hs hne => h s (hs.trans (List.suffix_cons c pre)) hne

/-- At an occurrence the scan reads what stands behind it and goes on from there. -/
theorem rests_at (hn : needle ≠ []) (h : needle ++ post = text) :
    rests needle text = post :: rests needle post := by
  obtain ⟨a, as, rfl⟩ := List.exists_cons_of_ne_nil hn
  subst h
  have hpre : a :: as <+: a :: (as ++ post) := ⟨post, rfl⟩
  have hskip : restsFrom (a :: as) as.length (as ++ post) = rests (a :: as) post := by
    rw [restsFrom_eq_drop, List.drop_left]
  simp only [rests, List.cons_append, restsFrom, if_pos hpre]
  simpa [rests] using hskip

/-- What the scan reads stands behind an occurrence. -/
theorem exists_of_mem_rests (hn : needle ≠ []) (h : post ∈ rests needle text) :
    ∃ pre, text = pre ++ (needle ++ post) := by
  induction hlen : text.length using Nat.strong_induction_on generalizing text with
  | _ n ih =>
    subst hlen
    cases text with
    | nil => simp at h
    | cons c cs =>
      by_cases hpre : needle <+: c :: cs
      · obtain ⟨behind, hbehind⟩ := hpre
        rw [rests_at hn hbehind, List.mem_cons] at h
        obtain rfl | h := h
        · exact ⟨[], hbehind.symm⟩
        · have hlt : behind.length < (c :: cs).length := by
            rw [← hbehind, List.length_append]
            have := List.length_pos_of_ne_nil hn
            omega
          obtain ⟨pre, hpre⟩ := ih _ hlt h rfl
          exact ⟨needle ++ pre, by rw [← hbehind, List.append_assoc, ← hpre]⟩
      · rw [rests_cons_of_not hpre] at h
        obtain ⟨pre, hpre⟩ := ih _ (by simp) h rfl
        exact ⟨c :: pre, by rw [hpre, List.cons_append]⟩

end Occurrences

end JitPack
