import Mathlib

/-!
# Rows by key

A list of rows read as a map from their keys, in which a key that repeats keeps its last row (`last`). Where the keys
are distinct this is the row of the key, in whatever order the rows come (`last_eq_some_iff`, `last_perm`).

Writing a row replaces that of its key (`put`), and a key can be taken out (`drop`). What the rows are after several
writes is said by `mem_puts` and `mem_drops`.
-/

namespace Keyed

variable {α κ : Type*} [DecidableEq κ] {key : α → κ} {rows rows' : List α} {k : κ} {a b : α}

/-- The last row of a key. -/
def last (key : α → κ) (rows : List α) (k : κ) : Option α := rows.reverse.find? (key · = k)

theorem mem_of_last (h : last key rows k = some a) : a ∈ rows ∧ key a = k :=
  ⟨List.mem_reverse.1 (List.mem_of_find?_eq_some h), by simpa using List.find?_some h⟩

theorem last_eq_none_iff : last key rows k = none ↔ ∀ a ∈ rows, key a ≠ k := by
  simp [last]

omit [DecidableEq κ] in
/-- Rows with distinct keys are one row for each key. -/
theorem eq_of_key (h : (rows.map key).Nodup) (ha : a ∈ rows) (hb : b ∈ rows) (hk : key a = key b) : a = b :=
  List.inj_on_of_nodup_map h ha hb hk

theorem last_eq_some_iff (h : (rows.map key).Nodup) : last key rows k = some a ↔ a ∈ rows ∧ key a = k := by
  refine ⟨mem_of_last, fun ⟨ha, hk⟩ => ?_⟩
  cases hl : last key rows k with
  | none => exact absurd hk (last_eq_none_iff.1 hl a ha)
  | some b =>
    obtain ⟨hb, hkb⟩ := mem_of_last hl
    rw [eq_of_key h hb ha (hkb.trans hk.symm)]

theorem last_perm (h : (rows.map key).Nodup) (hp : rows'.Perm rows) : last key rows' k = last key rows k := by
  have h' : (rows'.map key).Nodup := (hp.map key).nodup_iff.2 h
  refine Option.ext fun a => ?_
  rw [last_eq_some_iff h, last_eq_some_iff h', hp.mem_iff]

/-- The row of a key is one of those that have it. -/
theorem last_congr (h : rows'.filter (key · = k) = rows.filter (key · = k)) : last key rows' k = last key rows k := by
  have hlast : ∀ l : List α, last key l k = (l.filter (key · = k)).reverse.head? := fun l => by
    rw [← List.filter_reverse, List.head?_filter, last]
  rw [hlast, hlast, h]

/-! ## Writing rows -/

/-- The rows after a row is written: it replaces that of its key. -/
def put (key : α → κ) (rows : List α) (a : α) : List α :=
  if key a ∈ rows.map key then rows.map fun b => if key b = key a then a else b else rows ++ [a]

/-- The rows after a key is taken out. -/
def drop (key : α → κ) (rows : List α) (k : κ) : List α := rows.filter (key · ≠ k)

theorem mem_put : b ∈ put key rows a ↔ b = a ∨ b ∈ rows ∧ key b ≠ key a := by
  unfold put
  split
  · next hmem =>
    rw [List.mem_map]
    constructor
    · rintro ⟨c, hc, rfl⟩
      split
      · exact .inl rfl
      · next hne => exact .inr ⟨hc, hne⟩
    · rintro (rfl | ⟨hb, hne⟩)
      · obtain ⟨c, hc, hkey⟩ := List.mem_map.1 hmem
        exact ⟨c, hc, if_pos hkey⟩
      · exact ⟨b, hb, if_neg hne⟩
  · next hmem =>
    rw [List.mem_append, List.mem_singleton, or_comm]
    refine or_congr_right ⟨fun hb => ⟨hb, fun hkey => hmem (List.mem_map.2 ⟨b, hb, hkey⟩)⟩, And.left⟩

theorem mem_drop : b ∈ drop key rows k ↔ b ∈ rows ∧ key b ≠ k := by
  simp [drop]

theorem map_put : (put key rows a).map key =
    if key a ∈ rows.map key then rows.map key else rows.map key ++ [key a] := by
  unfold put
  split
  · rw [List.map_map]
    refine List.map_congr_left fun b _ => ?_
    simp only [Function.comp]
    split
    · next hkey => exact hkey.symm
    · rfl
  · rw [List.map_append, List.map_singleton]

theorem nodup_put (h : (rows.map key).Nodup) : ((put key rows a).map key).Nodup := by
  rw [map_put]
  split
  · exact h
  · next hmem => exact List.Nodup.append h (List.nodup_singleton _) (by simpa using hmem)

theorem nodup_drop (h : (rows.map key).Nodup) : ((drop key rows k).map key).Nodup :=
  h.sublist (List.filter_sublist.map key)

omit [DecidableEq κ] in
/-- Dropping rows and changing them under their keys. -/
theorem nodup_filterMap {f : α → Option α} (hf : ∀ a b, f a = some b → key b = key a) (h : (rows.map key).Nodup) :
    ((rows.filterMap f).map key).Nodup := by
  refine List.Sublist.nodup ?_ h
  clear h
  induction rows with
  | nil => exact .slnil
  | cons a rows ih =>
    rw [List.filterMap_cons]
    cases hb : f a with
    | none => exact ih.cons _
    | some b =>
      rw [List.map_cons, List.map_cons, hf a b hb]
      exact ih.cons_cons _

omit [DecidableEq κ] in
/-- A change that leaves the rows of a kind alone, and makes no others of this kind. -/
theorem filter_map_of_fix {f : α → α} {p : α → Bool} (hp : ∀ a ∈ rows, p (f a) = p a)
    (hf : ∀ a ∈ rows, p a → f a = a) : (rows.map f).filter p = rows.filter p := by
  have hsame : rows.filter (p ∘ f) = rows.filter p := List.filter_congr hp
  rw [List.filter_map, hsame]
  refine (List.map_congr_left fun a ha => ?_).trans (List.map_id _)
  obtain ⟨ha, hpa⟩ := List.mem_filter.1 ha
  exact hf a ha hpa

/-- The rows of the other keys stay as they are. -/
theorem filter_put (h : key a ≠ k) : (put key rows a).filter (key · = k) = rows.filter (key · = k) := by
  unfold put
  split
  · refine filter_map_of_fix (fun b _ => ?_) fun b _ hb => if_neg fun hkey => h ?_
    · split
      · next hkey => rw [hkey]
      · rfl
    · rw [← hkey, of_decide_eq_true hb]
  · simp [h]

theorem filter_drop {k' : κ} (h : k' ≠ k) : (drop key rows k').filter (key · = k) = rows.filter (key · = k) := by
  rw [drop, List.filter_filter]
  refine List.filter_congr fun b _ => ?_
  by_cases hk : key b = k
  · simp [hk, h.symm]
  · simp [hk]

theorem mem_puts {as : List α} (h : (as.map key).Nodup) :
    b ∈ as.foldl (put key) rows ↔ b ∈ as ∨ b ∈ rows ∧ key b ∉ as.map key := by
  induction as generalizing rows with
  | nil => simp
  | cons a as ih =>
    obtain ⟨hnew, hrest⟩ := List.nodup_cons.1 h
    rw [List.foldl_cons, ih hrest, mem_put]
    constructor
    · rintro (hb | ⟨rfl | ⟨hb, hne⟩, hnot⟩)
      · exact .inl (List.mem_cons_of_mem _ hb)
      · exact .inl List.mem_cons_self
      · exact .inr ⟨hb, by simpa using ⟨hne, by simpa using hnot⟩⟩
    · rintro (hb | ⟨hb, hnot⟩)
      · obtain rfl | hb := List.mem_cons.1 hb
        · exact .inr ⟨.inl rfl, hnew⟩
        · exact .inl hb
      · rw [List.map_cons, List.mem_cons, not_or] at hnot
        exact .inr ⟨.inr ⟨hb, hnot.1⟩, hnot.2⟩

theorem mem_drops {ks : List κ} : b ∈ ks.foldl (drop key) rows ↔ b ∈ rows ∧ key b ∉ ks := by
  induction ks generalizing rows with
  | nil => simp
  | cons k ks ih =>
    rw [List.foldl_cons, ih, mem_drop, and_assoc, List.mem_cons, not_or]

theorem nodup_puts {as : List α} (h : (rows.map key).Nodup) : ((as.foldl (put key) rows).map key).Nodup := by
  induction as generalizing rows with
  | nil => exact h
  | cons a as ih => exact ih (nodup_put h)

theorem nodup_drops {ks : List κ} (h : (rows.map key).Nodup) : ((ks.foldl (drop key) rows).map key).Nodup := by
  induction ks generalizing rows with
  | nil => exact h
  | cons k ks ih => exact ih (nodup_drop h)

omit [DecidableEq κ] in
/-- Changes to all rows, one after another. -/
theorem foldl_map {ω : Type*} (f : ω → α → α) (ws : List ω) (rows : List α) :
    ws.foldl (fun rows w => rows.map (f w)) rows = rows.map fun a => ws.foldl (fun a w => f w a) a := by
  induction ws generalizing rows with
  | nil => simp
  | cons w ws ih => simp [ih, Function.comp_def]

/-- Writes to a row of which all that name it agree. -/
theorem foldl_agree {ω : Type*} {name : ω → κ} {f : ω → α → α} {ws : List ω} {w₀ : ω} (hkey : ∀ w a, key (f w a) = key a)
    (hf : f w₀ (f w₀ a) = f w₀ a) (h : ∀ w ∈ ws, name w = key a → w = w₀) :
    ws.foldl (fun a w => if key a = name w then f w a else a) a = if ∃ w ∈ ws, name w = key a then f w₀ a else a := by
  have hdone : ∀ ws : List ω, (∀ w ∈ ws, name w = key a → w = w₀) →
      ws.foldl (fun a w => if key a = name w then f w a else a) (f w₀ a) = f w₀ a := by
    intro ws h
    induction ws with
    | nil => rfl
    | cons w ws ih =>
      have hrest := ih fun w' hw' => h w' (List.mem_cons_of_mem _ hw')
      rw [List.foldl_cons, hkey]
      split
      · next hw => rwa [h w List.mem_cons_self hw.symm, hf]
      · exact hrest
  induction ws with
  | nil => simp
  | cons w ws ih =>
    rw [List.foldl_cons]
    by_cases hw : name w = key a
    · rw [if_pos hw.symm, if_pos ⟨w, List.mem_cons_self, hw⟩, h w List.mem_cons_self hw]
      exact hdone ws fun w' hw' => h w' (List.mem_cons_of_mem _ hw')
    · rw [if_neg (Ne.symm hw), ih fun w' hw' => h w' (List.mem_cons_of_mem _ hw')]
      simp [hw]

/-! ## Orders -/

/-- Rows with distinct sort keys have one order. -/
theorem mergeSort_perm {β : Type*} [LinearOrder β] (f : α → β) (h : rows'.Perm rows)
    (hf : ∀ a ∈ rows, ∀ b ∈ rows, f a = f b → a = b) :
    rows'.mergeSort (fun a b => decide (f a ≤ f b)) = rows.mergeSort fun a b => decide (f a ≤ f b) := by
  have hsorted : ∀ l : List α,
      (l.mergeSort fun a b => decide (f a ≤ f b)).Pairwise fun a b => decide (f a ≤ f b) = true := by
    refine List.pairwise_mergeSort (fun a b c hab hbc => ?_) fun a b => ?_
    · exact decide_eq_true ((of_decide_eq_true hab).trans (of_decide_eq_true hbc))
    · simpa using le_total (f a) (f b)
  refine List.Perm.eq_of_pairwise (fun a b ha hb hab hba => ?_) (hsorted rows') (hsorted rows)
    (((List.mergeSort_perm _ _).trans h).trans (List.mergeSort_perm _ _).symm)
  exact hf a (h.mem_iff.1 (List.mem_mergeSort.1 ha)) b (List.mem_mergeSort.1 hb)
    (le_antisymm (of_decide_eq_true hab) (of_decide_eq_true hba))

theorem max?_perm {β : Type*} [LinearOrder β] {l l' : List β} (h : l'.Perm l) : l'.max? = l.max? := by
  refine Option.ext fun b => ?_
  simp only [List.max?_eq_some_iff, h.mem_iff]

end Keyed
