import Mathlib

/-!
# Directed graphs

Acyclic relations and what one more edge does to them, distances from a set of nodes, and a depth-first search for a
path that keeps one set of visited nodes for the whole search. The search is a recursion on a depth; where the depth exceeds the number of
nodes, it finds a path exactly if there is one (`search_isSome_iff`). What a search that fails leaves visited is
closed (`search_none`): that carries the proof, since a later search does not enter it again.
-/

namespace Digraph

variable {α : Type*}

/-! ## Acyclic relations -/

/-- No way leads from a node back to it. -/
def Acyclic (r : α → α → Prop) : Prop := ∀ x, ¬ Relation.TransGen r x x

/-- The relation with one more edge. -/
def addEdge (r : α → α → Prop) (a b : α) (x y : α) : Prop := r x y ∨ x = a ∧ y = b

section
variable {r : α → α → Prop} {a b x y : α}

theorem Acyclic.mono {r' : α → α → Prop} (h : Acyclic r) (hsub : ∀ x y, r' x y → r x y) : Acyclic r' :=
  fun x hx => h x (Relation.TransGen.mono hsub _ _ hx)

theorem addEdge_of (h : r x y) : addEdge r a b x y := .inl h

/-- A way in the graph with the new edge that does not close a cycle takes the edge once at most. -/
theorem transGen_addEdge (hclosed : ¬ Relation.ReflTransGen r b a)
    (h : Relation.TransGen (addEdge r a b) x y) :
    Relation.TransGen r x y ∨ Relation.ReflTransGen r x a ∧ Relation.ReflTransGen r b y := by
  induction h with
  | single h =>
    obtain h | ⟨rfl, rfl⟩ := h
    · exact .inl (.single h)
    · exact .inr ⟨.refl, .refl⟩
  | tail _ h ih =>
    obtain h | ⟨rfl, rfl⟩ := h
    · exact ih.imp (·.tail h) fun ih => ⟨ih.1, ih.2.tail h⟩
    · obtain ih | ih := ih
      · exact .inr ⟨ih.to_reflTransGen, .refl⟩
      · exact absurd ih.2 hclosed

/-- A new edge leaves an acyclic graph acyclic exactly if no way leads from its end to its start. -/
theorem acyclic_addEdge (h : Acyclic r) : Acyclic (addEdge r a b) ↔ ¬ Relation.ReflTransGen r b a := by
  constructor
  · intro hadd hback
    refine hadd a (.trans_left (.single (.inr ⟨rfl, rfl⟩)) ?_)
    exact Relation.ReflTransGen.mono (fun _ _ => addEdge_of) _ _ hback
  · intro hclosed x hx
    obtain hx | ⟨hxa, hbx⟩ := transGen_addEdge hclosed hx
    · exact h x hx
    · exact hclosed (hbx.trans hxa)

/-- An edge into the start of a way leads nowhere new. -/
theorem reflTransGen_addEdge_start :
    Relation.ReflTransGen (addEdge r a b) b y ↔ Relation.ReflTransGen r b y := by
  refine ⟨fun h => ?_, Relation.ReflTransGen.mono (fun _ _ => addEdge_of) _ _⟩
  induction h with
  | refl => exact .refl
  | tail _ h ih =>
    obtain h | ⟨-, rfl⟩ := h
    · exact ih.tail h
    · exact .refl

/-- An edge out of the end of a way comes from nowhere new. -/
theorem reflTransGen_addEdge_end :
    Relation.ReflTransGen (addEdge r a b) x a ↔ Relation.ReflTransGen r x a := by
  refine ⟨fun h => ?_, Relation.ReflTransGen.mono (fun _ _ => addEdge_of) _ _⟩
  induction h using Relation.ReflTransGen.head_induction_on with
  | refl => exact .refl
  | head h _ ih =>
    obtain h | ⟨rfl, -⟩ := h
    · exact ih.head h
    · exact .refl

end

/-! ## Distances -/

/-- The node is reached from `s` in at most `n` steps. -/
def Within (r : α → α → Prop) (s : α → Prop) : ℕ → α → Prop
  | 0, y => s y
  | n + 1, y => Within r s n y ∨ ∃ x, Within r s n x ∧ r x y

section
variable {r : α → α → Prop} {s : α → Prop} {x y : α} {n k : ℕ}

theorem Within.mono (h : Within r s n y) (hle : n ≤ k) : Within r s k y := by
  induction hle with
  | refl => exact h
  | step _ ih => exact .inl ih

/-- What can be reached is reached in some number of steps. -/
theorem exists_within_iff : (∃ n, Within r s n y) ↔ ∃ x, s x ∧ Relation.ReflTransGen r x y := by
  constructor
  · rintro ⟨n, h⟩
    induction n generalizing y with
    | zero => exact ⟨y, h, .refl⟩
    | succ n ih =>
      obtain h | ⟨x, hx, hxy⟩ := h
      · exact ih h
      · obtain ⟨z, hz, hzx⟩ := ih hx
        exact ⟨z, hz, hzx.tail hxy⟩
  · rintro ⟨x, hx, h⟩
    induction h with
    | refl => exact ⟨0, hx⟩
    | tail _ hxy ih =>
      obtain ⟨n, hn⟩ := ih
      exact ⟨n + 1, .inr ⟨_, hn, hxy⟩⟩

/-- The node is reached in `n` steps and no fewer. -/
def At (r : α → α → Prop) (s : α → Prop) (n : ℕ) (y : α) : Prop := Within r s n y ∧ ∀ k < n, ¬ Within r s k y

theorem exists_at (h : Within r s n y) : ∃ k ≤ n, At r s k y := by
  classical
  have hex : ∃ k, Within r s k y := ⟨n, h⟩
  exact ⟨Nat.find hex, Nat.find_min' hex h, Nat.find_spec hex, fun k hk => Nat.find_min hex hk⟩

/-- A node at a distance has a node before it, one step nearer. -/
theorem At.pred (h : At r s (n + 1) y) : ∃ x, At r s n x ∧ r x y := by
  obtain hn | ⟨x, hx, hxy⟩ := h.1
  · exact absurd hn (h.2 n (Nat.lt_succ_self n))
  · refine ⟨x, ⟨hx, fun k hk hkx => h.2 (k + 1) (by omega) (.inr ⟨x, hkx, hxy⟩)⟩, hxy⟩

end

/-! ## Depth-first search -/

section
variable [DecidableEq α] (next : α → List α) (target : α)

/-- Tries one node after the other until a search succeeds; `visit` is the search from a node. -/
def tryEach (visit : α → List α → Option (List α) × List α) (source : α) :
    List α → List α → Option (List α) × List α
  | [], visited => (none, visited)
  | y :: ys, visited =>
    match visit y visited with
    | (some path, visited) => (some (source :: path), visited)
    | (none, visited) => tryEach visit source ys visited

/-- The search from a node, to a depth: the path to the target if one is found, and the nodes visited then. -/
def search : Nat → α → List α → Option (List α) × List α
  | 0, _, visited => (none, visited)
  | depth + 1, source, visited =>
    if source = target then (some [source], visited)
    else if source ∈ visited then (none, visited)
    else tryEach (search depth) source (next source) (source :: visited)

/-- The relation that the search goes along. -/
def Leads (x y : α) : Prop := y ∈ next x

/-- The nodes added to `visited` are not the target, and everything that they lead to is there too. -/
structure Exhausted (visited visited' : List α) : Prop where
  subset : visited ⊆ visited'
  closed : ∀ x ∈ visited', x ∉ visited → x ≠ target ∧ ∀ y ∈ next x, y ∈ visited'

section
variable {next target} {source : α} {visited visited' path ys : List α} {depth : Nat} {univ : List α}
variable {visit : α → List α → Option (List α) × List α}

omit [DecidableEq α] in
theorem Exhausted.refl (visited : List α) : Exhausted next target visited visited :=
  ⟨List.Subset.refl _, fun _ h hn => absurd h hn⟩

theorem Exhausted.trans {visited'' : List α} (h : Exhausted next target visited visited')
    (h' : Exhausted next target visited' visited'') : Exhausted next target visited visited'' := by
  refine ⟨List.Subset.trans h.subset h'.subset, fun x hx hn => ?_⟩
  by_cases hx' : x ∈ visited'
  · exact (h.closed x hx' hn).imp_right fun hall y hy => h'.subset (hall y hy)
  · exact h'.closed x hx hx'

/-- The path found is one of the graph, from the source to the target. -/
theorem search_some (h : search next target depth source visited = (some path, visited')) :
    path.head? = some source ∧ path.getLast? = some target ∧ path.IsChain (Leads next) := by
  induction depth generalizing source visited path visited' with
  | zero => cases h
  | succ depth ih =>
    unfold search at h
    split at h
    · next he =>
      cases h
      exact ⟨rfl, by simp [he], .singleton _⟩
    split at h
    · cases h
    have key (ys visited) (hys : ys ⊆ next source)
        (h : tryEach (search next target depth) source ys visited = (some path, visited')) :
        path.head? = some source ∧ path.getLast? = some target ∧ path.IsChain (Leads next) := by
      induction ys generalizing visited with
      | nil => cases h
      | cons y ys ihys =>
        unfold tryEach at h
        split at h
        · next rest visited₁ hsearch =>
          cases h
          obtain ⟨hhead, hlast, hchain⟩ := ih hsearch
          obtain ⟨tail, rfl⟩ : ∃ tail, rest = y :: tail := by
            cases rest with
            | nil => cases hhead
            | cons z tail => exact ⟨tail, by rw [Option.some.inj hhead]⟩
          exact ⟨rfl, by rwa [List.getLast?_cons_cons], .cons_cons (hys List.mem_cons_self) hchain⟩
        · exact ihys _ (fun y hy => hys (List.mem_cons_of_mem _ hy)) h
    exact key _ _ (List.Subset.refl _) h

/-- A search that fails has visited its source and everything behind it, if it may go deeper than there are nodes. -/
theorem search_none (hclosed : ∀ x ∈ univ, next x ⊆ univ) (hsource : source ∈ univ)
    (hdepth : (univ.filter (· ∉ visited)).length < depth)
    (h : search next target depth source visited = (none, visited')) :
    source ∈ visited' ∧ Exhausted next target visited visited' := by
  induction depth generalizing source visited visited' with
  | zero => exact absurd hdepth (Nat.not_lt_zero _)
  | succ depth ih =>
    unfold search at h
    split at h
    · cases h
    next htarget =>
    split at h
    · next hvisited =>
      cases h
      exact ⟨hvisited, .refl _⟩
    next hnew =>
    -- The nodes tried in turn end up visited, with what is behind them.
    have key (ys : List α) (now : List α) (hys : ys ⊆ next source) (hnow : source :: visited ⊆ now)
        (h : tryEach (search next target depth) source ys now = (none, visited')) :
        ys ⊆ visited' ∧ Exhausted next target now visited' := by
      induction ys generalizing now with
      | nil =>
        cases h
        exact ⟨List.nil_subset _, .refl _⟩
      | cons y ys ihys =>
        unfold tryEach at h
        split at h
        · cases h
        next now' hsearch =>
        have hless : (univ.filter (· ∉ now)).length < depth := by
          refine lt_of_lt_of_le ?_ (Nat.le_of_lt_succ hdepth)
          have hsub : (univ.filter (· ∉ now)).Sublist ((univ.filter (· ∉ visited)).filter (· ≠ source)) := by
            rw [List.filter_filter]
            refine List.monotone_filter_right _ fun z hz => ?_
            simp only [decide_eq_true_eq] at hz
            have hz' := fun hmem => hz (hnow hmem)
            simp only [List.mem_cons] at hz'
            simpa using hz'
          refine lt_of_le_of_lt hsub.length_le ?_
          refine List.length_filter_lt_length_iff_exists.2 ⟨source, ?_, by simp⟩
          exact List.mem_filter.2 ⟨hsource, by simpa using hnew⟩
        obtain ⟨hy, hex⟩ := ih (hclosed source hsource (hys List.mem_cons_self)) hless hsearch
        obtain ⟨hrest, hex'⟩ := ihys now' (fun z hz => hys (List.mem_cons_of_mem _ hz)) (List.Subset.trans hnow hex.subset) h
        exact ⟨List.cons_subset.2 ⟨hex'.subset hy, hrest⟩, hex.trans hex'⟩
    obtain ⟨hall, hex⟩ := key _ _ (List.Subset.refl _) (List.Subset.refl _) h
    refine ⟨hex.subset List.mem_cons_self, fun z hz => hex.subset (List.mem_cons_of_mem _ hz), fun x hx hn => ?_⟩
    by_cases hxs : x = source
    · subst hxs
      exact ⟨htarget, hall⟩
    · exact hex.closed x hx (by simp [hxs, hn])

variable (univ) in
/-- **The search is sound and complete**: from a node of a finite graph, to a depth above the number of its nodes,
it finds a path exactly if the target can be reached. -/
theorem search_isSome_iff (hclosed : ∀ x ∈ univ, next x ⊆ univ) (hsource : source ∈ univ)
    (hdepth : univ.length < depth) :
    (search next target depth source []).1.isSome ↔ Relation.ReflTransGen (Leads next) source target := by
  rcases h : search next target depth source [] with ⟨_ | path, visited'⟩
  · refine iff_of_false (by simp) fun hreach => ?_
    obtain ⟨hmem, -, hex⟩ := search_none hclosed hsource (by simpa using hdepth) h
    have hall : ∀ x, Relation.ReflTransGen (Leads next) source x → x ∈ visited' := by
      intro x hx
      induction hx with
      | refl => exact hmem
      | tail _ hxy ih => exact (hex _ ih (List.not_mem_nil)).2 _ hxy
    exact (hex target (hall target hreach) List.not_mem_nil).1 rfl
  · refine iff_of_true rfl ?_
    obtain ⟨hhead, hlast, hchain⟩ := search_some h
    cases path with
    | nil => cases hhead
    | cons z tail =>
      obtain rfl : z = source := Option.some.inj hhead
      exact List.relationReflTransGen_of_exists_isChain_cons tail hchain
        (by rwa [List.getLast?_eq_getLast_of_ne_nil (List.cons_ne_nil _ _), Option.some.injEq] at hlast)

end

end

end Digraph
