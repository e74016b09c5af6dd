import JitPack.Lib.Insertion

/-!
# Grouping by key

A map that keeps its keys in the order in which they were set, as a list of entries, and the loop that files values
into it: the first value of a key starts an entry, every later one is merged into it (`group`). An entry is the fold
over the values of its key (`group_eq`), so what it is does not depend on the values of the other keys.
-/

namespace Grouping

variable {γ κ ν : Type*} [DecidableEq κ]

/-- The map in which the value of a key is changed, or set if it has none. -/
def upsert (start : ν) (more : ν → ν) (k : κ) (m : List (κ × ν)) : List (κ × ν) :=
  if k ∈ m.map Prod.fst then m.map fun e => if e.1 = k then (e.1, more e.2) else e else m ++ [(k, start)]

variable (key : γ → κ) (start : γ → ν) (more : ν → γ → ν)

/-- The map of a list of values. -/
def group (cs : List γ) : List (κ × ν) := cs.foldl (fun m c => upsert (start c) (more · c) (key c) m) []

/-- The entry of the values of one key. -/
def gather : List γ → Option ν
  | [] => none
  | c :: cs => some (cs.foldl more (start c))

variable {key start more}

theorem gather_append_singleton (cs : List γ) (c : γ) :
    gather start more (cs ++ [c]) = some ((gather start more cs).elim (start c) (more · c)) := by
  cases cs with
  | nil => rfl
  | cons d cs => simp [gather]

@[simp] theorem gather_eq_none {cs : List γ} : gather start more cs = none ↔ cs = [] := by
  cases cs <;> simp [gather]

theorem group_append_singleton (cs : List γ) (c : γ) :
    group key start more (cs ++ [c]) = upsert (start c) (more · c) (key c) (group key start more cs) := by
  simp [group]

@[simp] theorem keys_upsert (a : ν) (f : ν → ν) (k : κ) (m : List (κ × ν)) :
    (upsert a f k m).map Prod.fst = Insertion.add (m.map Prod.fst) k := by
  unfold upsert Insertion.add
  split
  · rw [List.map_map]
    refine List.map_congr_left fun e _ => ?_
    simp only [Function.comp]
    split <;> rfl
  · simp

/-- The keys are those of the values. -/
theorem keys_group (cs : List γ) : (group key start more cs).map Prod.fst = Insertion.ofList (cs.map key) := by
  induction cs using List.reverseRecOn with
  | nil => rfl
  | append_singleton cs c ih =>
    rw [group_append_singleton, keys_upsert, ih, List.map_append, List.map_singleton,
      Insertion.ofList_append_singleton]

theorem gather_eq_some_of_mem {cs : List γ} {c : γ} (h : c ∈ cs) : ∃ v, gather start more cs = some v := by
  rw [← Option.isSome_iff_exists, Option.isSome_iff_ne_none]
  exact fun hnone => List.ne_nil_of_mem h (gather_eq_none.1 hnone)

/-- The map has the keys of the values, each once, and with each key the entry of its values. -/
theorem group_eq (cs : List γ) : group key start more cs =
    (Insertion.ofList (cs.map key)).filterMap fun k => (gather start more (cs.filter (key · = k))).map (k, ·) := by
  induction cs using List.reverseRecOn with
  | nil => rfl
  | append_singleton cs c ih =>
    rw [group_append_singleton, List.map_append, List.map_singleton, Insertion.ofList_append_singleton]
    unfold upsert Insertion.add
    rw [keys_group]
    split
    · next hold =>
      -- The entry of the key takes in the new value, the others do not see it.
      rw [ih, List.map_filterMap]
      refine List.filterMap_congr fun k _ => ?_
      rw [List.filter_append]
      by_cases hk : key c = k
      · subst hk
        obtain ⟨d, hd, hdk⟩ := List.mem_map.1 (Insertion.mem_ofList.1 hold)
        have hmem : d ∈ cs.filter (key · = key c) := List.mem_filter.2 ⟨hd, decide_eq_true hdk⟩
        obtain ⟨v, hv⟩ : ∃ v, gather start more (cs.filter (key · = key c)) = some v := gather_eq_some_of_mem hmem
        simp [gather_append_singleton, hv]
      · have hnot : ∀ v, (if k = key c then (k, more v c) else (k, v)) = (k, v) := fun v => if_neg (Ne.symm hk)
        simp [hk, hnot, Function.comp_def]
    · next hnew =>
      rw [List.filterMap_append, ih]
      congr 1
      · refine List.filterMap_congr fun k hk => ?_
        have hne : key c ≠ k := fun he => hnew (he ▸ hk)
        simp [hne]
      · have hnone : cs.filter (key · = key c) = [] := by
          refine List.filter_eq_nil_iff.2 fun d hd hdk => ?_
          exact hnew (Insertion.mem_ofList.2 (List.mem_map.2 ⟨d, hd, of_decide_eq_true hdk⟩))
        simp [hnone, gather]

theorem mem_group {cs : List γ} {k : κ} {v : ν} :
    (k, v) ∈ group key start more cs ↔ gather start more (cs.filter (key · = k)) = some v := by
  rw [group_eq, List.mem_filterMap]
  constructor
  · rintro ⟨k', -, h⟩
    obtain ⟨v', hv', heq⟩ := Option.map_eq_some_iff.1 h
    cases heq
    exact hv'
  · intro h
    refine ⟨k, ?_, by rw [h]; rfl⟩
    have hne : cs.filter (key · = k) ≠ [] := fun hnil => by simp [hnil, gather] at h
    obtain ⟨c, hc⟩ := List.exists_mem_of_ne_nil _ hne
    obtain ⟨hc, hck⟩ := List.mem_filter.1 hc
    exact Insertion.mem_ofList.2 (List.mem_map.2 ⟨c, hc, of_decide_eq_true hck⟩)

theorem nodup_keys_group (cs : List γ) : ((group key start more cs).map Prod.fst).Nodup := by
  rw [keys_group]
  exact Insertion.nodup_ofList _

/-- The map without the values of a key is the map without the key. -/
theorem group_filter_ne (cs : List γ) (k : κ) :
    group key start more (cs.filter (key · ≠ k)) = (group key start more cs).filter (·.1 ≠ k) := by
  induction cs using List.reverseRecOn with
  | nil => rfl
  | append_singleton cs c ih =>
    rw [List.filter_append, group_append_singleton]
    by_cases hc : key c = k
    · have hmap : ∀ m : List (κ × ν), (upsert (start c) (more · c) (key c) m).filter (·.1 ≠ k) = m.filter (·.1 ≠ k) := by
        intro m
        unfold upsert
        split
        · rw [List.filter_map]
          have hsame : ((fun e : κ × ν => decide (e.1 ≠ k)) ∘ fun e => if e.1 = key c then (e.1, more e.2 c) else e) =
              fun e : κ × ν => decide (e.1 ≠ k) := by
            funext e
            simp only [Function.comp]
            split <;> rfl
          rw [hsame]
          refine (List.map_congr_left fun e he => ?_).trans (List.map_id _)
          have hne := of_decide_eq_true (List.mem_filter.1 he).2
          exact if_neg fun heq => hne (heq.trans hc)
        · simp [hc]
      rw [hmap, ← ih]
      simp [hc]
    · have hsingle : [c].filter (key · ≠ k) = [c] := by simp [hc]
      rw [hsingle, group_append_singleton, ih]
      unfold upsert
      have hmem : key c ∈ ((group key start more cs).filter (·.1 ≠ k)).map Prod.fst ↔
          key c ∈ (group key start more cs).map Prod.fst := by
        simp [hc]
      by_cases hold : key c ∈ (group key start more cs).map Prod.fst
      · rw [if_pos (hmem.2 hold), if_pos hold, List.filter_map]
        congr 1
        refine List.filter_congr fun e _ => ?_
        simp only [Function.comp]
        split <;> rfl
      · rw [if_neg fun h => hold (hmem.1 h), if_neg hold, List.filter_append]
        simp [hc]

/-! ## Rows by a home -/

/-- Rows put together by what they have for a home are all the rows. -/
theorem flatMap_filter_perm {α η : Type*} [DecidableEq η] (home : α → η) {keys : List η} {rows : List α}
    (hkeys : keys.Nodup) (h : ∀ row ∈ rows, home row ∈ keys) :
    (keys.flatMap fun key => rows.filter (home · = key)).Perm rows := by
  induction keys generalizing rows with
  | nil =>
    obtain rfl : rows = [] := List.eq_nil_iff_forall_not_mem.2 fun row hrow => nomatch h row hrow
    exact .nil
  | cons key keys ih =>
    obtain ⟨hnew, hkeys⟩ := List.nodup_cons.1 hkeys
    have hrest : (keys.flatMap fun k => rows.filter (home · = k)) =
        keys.flatMap fun k => (rows.filter (home · ≠ key)).filter (home · = k) := by
      refine List.flatMap_congr fun k hk => ?_
      rw [List.filter_filter]
      refine List.filter_congr fun row _ => ?_
      by_cases hrow : home row = k
      · have hne : home row ≠ key := fun he => hnew (he ▸ hrow ▸ hk)
        simp [hrow, hrow ▸ hne]
      · simp [hrow]
    rw [List.flatMap_cons, hrest]
    refine (List.Perm.append_left _ (ih hkeys fun row hrow => ?_)).trans ?_
    · obtain ⟨hrow, hne⟩ := List.mem_filter.1 hrow
      exact (List.mem_cons.1 (h row hrow)).resolve_left (of_decide_eq_true hne)
    · simpa using List.filter_append_perm (fun row => decide (home row = key)) rows

/-- The rows whose home is one of the keys, put together by it. -/
theorem flatMap_filter_perm_filter {α η : Type*} [DecidableEq η] (home : α → η) {keys : List η} (rows : List α)
    (hkeys : keys.Nodup) :
    (keys.flatMap fun key => rows.filter (home · = key)).Perm (rows.filter (home · ∈ keys)) := by
  have hsame : (keys.flatMap fun key => rows.filter (home · = key)) =
      keys.flatMap fun key => (rows.filter (home · ∈ keys)).filter (home · = key) := by
    refine List.flatMap_congr fun key hkey => ?_
    rw [List.filter_filter]
    refine List.filter_congr fun row _ => ?_
    by_cases hrow : home row = key
    · simp [hrow, hkey]
    · simp [hrow]
  rw [hsame]
  exact flatMap_filter_perm home hkeys fun row hrow => of_decide_eq_true (List.mem_filter.1 hrow).2

end Grouping
