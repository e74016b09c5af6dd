import Mathlib

/-!
# Changing many entries of an association list

`filterMap f s` drops the entries of `s` for which `f` answers nothing and changes the others. Each
entry is treated by itself, so a lookup afterwards is the lookup before, changed
(`lookup_filterMap`).
-/

namespace Assoc

variable {α : Type*} {β : α → Type*}

theorem nodupKeys_filterMap {es : List (Sigma β)} (h : es.NodupKeys)
    (f : ∀ a, β a → Option (β a)) :
    (es.filterMap fun e => (f e.1 e.2).map (Sigma.mk e.1)).NodupKeys := by
  have hsub : (es.filterMap fun e => (f e.1 e.2).map (Sigma.mk e.1)).keys.Sublist es.keys := by
    clear h
    induction es with
    | nil => exact .slnil
    | cons e es ih =>
      rw [List.filterMap_cons]
      cases f e.1 e.2 with
      | none => exact ih.cons _
      | some b => exact ih.cons_cons _
  exact hsub.nodup h

/-- The entries that `f` keeps, with the values it gives them. -/
def filterMap (f : ∀ a, β a → Option (β a)) (s : AList β) : AList β :=
  ⟨s.entries.filterMap fun e => (f e.1 e.2).map (Sigma.mk e.1), nodupKeys_filterMap s.nodupKeys f⟩

variable [DecidableEq α]

theorem dlookup_filterMap {es : List (Sigma β)} (h : es.NodupKeys) (f : ∀ a, β a → Option (β a))
    (a : α) :
    (es.filterMap fun e => (f e.1 e.2).map (Sigma.mk e.1)).dlookup a =
      (es.dlookup a).bind (f a) := by
  induction es with
  | nil => rfl
  | cons e es ih =>
    obtain ⟨a', b⟩ := e
    rw [List.nodupKeys_cons] at h
    rw [List.filterMap_cons]
    by_cases ha : a = a'
    · subst ha
      rw [List.dlookup_cons_eq]
      cases hf : f a b with
      | none =>
        have hn : es.dlookup a = none := List.dlookup_eq_none.2 h.1
        simpa [hf, hn] using ih h.2
      | some c => simp [hf]
    · rw [List.dlookup_cons_ne _ _ ha]
      cases hf : f a' b with
      | none => simpa [hf] using ih h.2
      | some c =>
        have hc := List.dlookup_cons_ne (es.filterMap fun e => (f e.1 e.2).map (Sigma.mk e.1))
          (⟨a', c⟩ : Sigma β) ha
        simpa [hf, hc] using ih h.2

@[simp] theorem lookup_filterMap (f : ∀ a, β a → Option (β a)) (s : AList β) (a : α) :
    (filterMap f s).lookup a = (s.lookup a).bind (f a) :=
  dlookup_filterMap s.nodupKeys f a

/-- The entries of an association list are what can be looked up. -/
theorem mem_entries {s : AList β} {a : α} {b : β a} : ⟨a, b⟩ ∈ s.entries ↔ s.lookup a = some b :=
  AList.mem_lookup_iff.symm

end Assoc
