import Mathlib

/-!
# Post-order

The walk from a root of a directed graph that enters each node once and lists it when everything below it has been
entered. The walk is a recursion to a depth, and answers nothing if the depth is used up; where the depth exceeds the
number of nodes, it lists exactly what can be reached from the root (`walk_spec`).

A node that the walk comes upon again, before it is listed, lies above the node it is at. So unless the nodes listed are
on a cycle, each is listed after the ones it leads to (`Walked.after`). The root itself is never listed, and a cycle
through the root does not count.
-/

namespace PostOrder

variable {α : Type*} [DecidableEq α] (next : α → List α)

/-- The nodes entered, and the nodes listed. -/
structure State (α : Type*) where
  placed : List α
  ordered : List α

/-- Enters a node that has not been entered, and lists it after that; `visit` is the walk from a node. -/
def enter (visit : α → State α → Option (State α)) (s : State α) (y : α) : Option (State α) :=
  if y ∈ s.placed then some s
  else (visit y { s with placed := y :: s.placed }).map fun s => { s with ordered := s.ordered ++ [y] }

/-- The walk from a node, to a depth. -/
def place : ℕ → α → State α → Option (State α)
  | 0, _, _ => none
  | depth + 1, x, s => (next x).foldlM (enter (place depth)) s

/-- What is listed by the walk from a root. -/
def walk (depth : ℕ) (root : α) : Option (List α) := (place next depth root ⟨[root], []⟩).map (·.ordered)

/-- An edge that the walk goes along. -/
def Leads (x y : α) : Prop := y ∈ next x

/-- An edge away from the root. -/
def Below (root x y : α) : Prop := y ∈ next x ∧ x ≠ root ∧ y ≠ root

/-- The root has been entered, and what has been entered is listed or lies above the node the walk is at. -/
structure Entered (root x : α) (s : State α) : Prop where
  entered : root ∈ s.placed
  listed : s.ordered ⊆ s.placed
  above : ∀ p ∈ s.placed, p ∈ s.ordered ∨ p = root ∨ Relation.ReflTransGen (Below next root) p x

/-- What the walk from `x` adds: `new` is listed, each of it once, is below `x`, and leads to what has been entered. -/
structure Added (root x : α) (s s' : State α) (new : List α) : Prop where
  ordered : s'.ordered = s.ordered ++ new
  placed : ∀ y, y ∈ s'.placed ↔ y ∈ s.placed ∨ y ∈ new
  nodup : new.Nodup
  fresh : ∀ y ∈ new, y ∉ s.placed
  reached : ∀ y ∈ new, Relation.TransGen (Leads next) x y
  closed : ∀ y ∈ new, ∀ z ∈ next y, z ∈ s'.placed
  after : ∀ pre y post, new = pre ++ y :: post → ∀ z ∈ next y,
    z ∈ s.ordered ++ pre ∨ z = root ∨ Relation.ReflTransGen (Below next root) z y

section
variable {next} {root x y : α} {s s' s'' : State α} {new new' : List α}

omit [DecidableEq α] in
theorem Added.refl : Added next root x s s [] where
  ordered := by simp
  placed := by simp
  nodup := List.nodup_nil
  fresh := by simp
  reached := by simp
  closed := by simp
  after := by simp

omit [DecidableEq α] in
theorem Added.trans (h : Added next root x s s' new) (h' : Added next root x s' s'' new') :
    Added next root x s s'' (new ++ new') where
  ordered := by rw [h'.ordered, h.ordered, List.append_assoc]
  placed y := by rw [h'.placed, h.placed, List.mem_append, or_assoc]
  nodup := by
    refine List.nodup_append'.2 ⟨h.nodup, h'.nodup, fun y hy hy' => ?_⟩
    exact h'.fresh y hy' ((h.placed y).2 (.inr hy))
  fresh y hy := by
    rcases List.mem_append.1 hy with hy | hy
    · exact h.fresh y hy
    · exact fun hs => h'.fresh y hy ((h.placed y).2 (.inl hs))
  reached y hy := (List.mem_append.1 hy).elim (h.reached y) (h'.reached y)
  closed y hy z hz := by
    rcases List.mem_append.1 hy with hy | hy
    · exact (h'.placed z).2 (.inl (h.closed y hy z hz))
    · exact h'.closed y hy z hz
  after pre y post hsplit z hz := by
    rcases List.append_eq_append_iff.1 hsplit with ⟨pre', rfl, hnew'⟩ | ⟨post', rfl, hpost⟩
    · have := h'.after pre' y post hnew' z hz
      rwa [h.ordered, List.append_assoc] at this
    · cases post' with
      | nil =>
        have := h'.after [] y post (by simpa using hpost.symm) z hz
        rw [h.ordered] at this
        simpa using this
      | cons y' post' =>
        cases hpost
        exact h.after pre y post' rfl z hz

omit [DecidableEq α] in
theorem Entered.of_added (he : Entered next root x s) (h : Added next root x s s' new) : Entered next root x s' where
  entered := (h.placed _).2 (.inl he.entered)
  listed y hy := by
    rw [h.ordered] at hy
    exact (h.placed y).2 ((List.mem_append.1 hy).imp_left fun hy => he.listed hy)
  above p hp := by
    rw [h.ordered, List.mem_append]
    rcases (h.placed p).1 hp with hp | hp
    · exact (he.above p hp).imp_left .inl
    · exact .inl (.inr hp)

omit [DecidableEq α] in
/-- What lies above a node lies above what the node leads to. -/
theorem Entered.child (he : Entered next root x s) (hxy : y ∈ next x) (hy : y ∉ s.placed) :
    Entered next root y { s with placed := y :: s.placed } where
  entered := List.mem_cons_of_mem _ he.entered
  listed z hz := List.mem_cons_of_mem _ (he.listed hz)
  above p hp := by
    rcases List.mem_cons.1 hp with rfl | hp
    · exact .inr (.inr .refl)
    rcases he.above p hp with hp | hp | hp
    · exact .inl hp
    · exact .inr (.inl hp)
    · by_cases hx : x = root
      · rcases hp.cases_tail with rfl | ⟨_, -, hlast⟩
        · exact .inr (.inl hx)
        · exact absurd hx hlast.2.2
      · exact .inr (.inr (hp.tail ⟨hxy, hx, fun hr => hy (hr ▸ he.entered)⟩))

omit [DecidableEq α] in
/-- A node is listed after the walk from it. -/
theorem Added.list (he : Entered next root x s) (hxy : y ∈ next x) (hy : y ∉ s.placed)
    (h : Added next root y { s with placed := y :: s.placed } s' new) (hall : ∀ z ∈ next y, z ∈ s'.placed) :
    Added next root x s { s' with ordered := s'.ordered ++ [y] } (new ++ [y]) where
  ordered := by simp [h.ordered]
  placed z := by
    rw [h.placed, List.mem_cons, List.mem_append, List.mem_singleton]
    tauto
  nodup := by
    refine List.nodup_append'.2 ⟨h.nodup, List.nodup_singleton y, fun z hz hzy => ?_⟩
    exact h.fresh z hz (List.mem_singleton.1 hzy ▸ List.mem_cons_self)
  fresh z hz := by
    rcases List.mem_append.1 hz with hz | hz
    · exact fun hs => h.fresh z hz (List.mem_cons_of_mem _ hs)
    · exact List.mem_singleton.1 hz ▸ hy
  reached z hz := by
    rcases List.mem_append.1 hz with hz | hz
    · exact .head hxy (h.reached z hz)
    · exact List.mem_singleton.1 hz ▸ .single hxy
  closed z hz := by
    rcases List.mem_append.1 hz with hz | hz
    · exact h.closed z hz
    · exact List.mem_singleton.1 hz ▸ hall
  after pre w post hsplit z hz := by
    rcases List.append_eq_append_iff.1 hsplit with ⟨pre', rfl, hlast⟩ | ⟨post', rfl, hpost⟩
    · -- `y` itself: what it leads to has been entered by now.
      obtain ⟨rfl, hw⟩ : pre' = [] ∧ w = y := by
        cases pre' with
        | nil => exact ⟨rfl, (List.cons.inj hlast).1.symm⟩
        | cons _ pre' => simp at hlast
      subst hw
      rw [List.append_nil, List.mem_append]
      rcases (h.placed z).1 (hall z hz) with hz' | hz'
      · exact ((he.child hxy hy).above z hz').imp_left .inl
      · exact .inl (.inr hz')
    · cases post' with
      | nil =>
        obtain rfl : w = y := (List.cons.inj hpost).1
        rw [List.append_nil] at h
        rw [List.mem_append]
        rcases (h.placed z).1 (hall z hz) with hz' | hz'
        · exact ((he.child hxy hy).above z hz').imp_left .inl
        · exact .inl (.inr hz')
      | cons w' post' =>
        cases hpost
        exact h.after pre w post' rfl z hz

end

/-! ## The walk from the root -/

section
variable {next} {root x : α} {s : State α} {depth : ℕ} {univ : List α}

/-- The walk ends, if it may go deeper than there are nodes that have not been entered. -/
theorem place_spec (hclosed : ∀ x ∈ univ, next x ⊆ univ) (hx : x ∈ univ) (he : Entered next root x s)
    (hdepth : (univ.filter (· ∉ s.placed)).length < depth) :
    ∃ s' new, place next depth x s = some s' ∧ Added next root x s s' new ∧ ∀ y ∈ next x, y ∈ s'.placed := by
  induction depth generalizing x s with
  | zero => exact absurd hdepth (Nat.not_lt_zero _)
  | succ depth ih =>
    -- The nodes tried in turn.
    have key (ys : List α) (now : State α) (new : List α) (hys : ys ⊆ next x) (hnow : Added next root x s now new) :
        ∃ s' new', ys.foldlM (enter (place next depth)) now = some s' ∧ Added next root x s s' (new ++ new') ∧
          ∀ y, y ∈ now.placed ∨ y ∈ ys → y ∈ s'.placed := by
      induction ys generalizing now new with
      | nil => exact ⟨now, [], rfl, by simpa using hnow, fun y hy => by simpa using hy⟩
      | cons y ys ihys =>
        have hrest : ys ⊆ next x := fun z hz => hys (List.mem_cons_of_mem _ hz)
        rw [List.foldlM_cons]
        by_cases hy : y ∈ now.placed
        · obtain ⟨s', new', hs', hadded, hall⟩ := ihys now new hrest hnow
          refine ⟨s', new', by simpa [enter, hy] using hs', hadded, fun z hz => hall z ?_⟩
          rcases hz with hz | hz
          · exact .inl hz
          · rcases List.mem_cons.1 hz with rfl | hz
            · exact .inl hy
            · exact .inr hz
        · have henow := he.of_added hnow
          have hxy : y ∈ next x := hys List.mem_cons_self
          have hless : (univ.filter (· ∉ y :: now.placed)).length < depth := by
            refine lt_of_lt_of_le ?_ (Nat.le_of_lt_succ hdepth)
            have hsub : (univ.filter (· ∉ y :: now.placed)).Sublist ((univ.filter (· ∉ s.placed)).filter (· ≠ y)) := by
              rw [List.filter_filter]
              refine List.monotone_filter_right _ fun z hz => ?_
              simp only [List.mem_cons, not_or, decide_eq_true_eq] at hz
              simpa [hz.1] using fun hs => hz.2 ((hnow.placed z).2 (.inl hs))
            refine lt_of_le_of_lt hsub.length_le (List.length_filter_lt_length_iff_exists.2 ⟨y, ?_, by simp⟩)
            refine List.mem_filter.2 ⟨hclosed x hx hxy, ?_⟩
            simpa using fun hs => hy ((hnow.placed y).2 (.inl hs))
          obtain ⟨s₁, new₁, hs₁, hadded₁, hall₁⟩ := ih (hclosed x hx hxy) (henow.child hxy hy) hless
          have hlisted := hnow.trans (hadded₁.list henow hxy hy hall₁)
          obtain ⟨s', new', hs', hadded, hall⟩ := ihys _ _ hrest hlisted
          refine ⟨s', new₁ ++ [y] ++ new', ?_, by simpa using hadded, fun z hz => hall z ?_⟩
          · simpa [enter, hy, hs₁] using hs'
          · rcases hz with hz | hz
            · exact .inl ((hadded₁.placed z).2 (.inl (List.mem_cons_of_mem _ hz)))
            · rcases List.mem_cons.1 hz with rfl | hz
              · exact .inl ((hadded₁.placed z).2 (.inl List.mem_cons_self))
              · exact .inr hz
    obtain ⟨s', new, hs', hadded, hall⟩ := key (next x) s [] (List.Subset.refl _) .refl
    exact ⟨s', new, hs', by simpa using hadded, fun y hy => hall y (.inr hy)⟩

/-- What the walk from a root lists: each node once, exactly those that can be reached and are not the root. -/
structure Walked (next : α → List α) (root : α) (ordered : List α) : Prop where
  nodup : ordered.Nodup
  mem_iff : ∀ y, y ∈ ordered ↔ y ≠ root ∧ Relation.TransGen (Leads next) root y
  after : ∀ pre y post, ordered = pre ++ y :: post → ∀ z ∈ next y,
    z ∈ pre ∨ z = root ∨ Relation.ReflTransGen (Below next root) z y

/-- **The walk ends, and lists what can be reached, each node after what it leads to, cycles aside.** -/
theorem walk_spec (hclosed : ∀ x ∈ univ, next x ⊆ univ) (hroot : root ∈ univ) (hdepth : univ.length < depth) :
    ∃ ordered, walk next depth root = some ordered ∧ Walked next root ordered := by
  have he : Entered next root root ⟨[root], []⟩ := ⟨by simp, by simp, by simp⟩
  obtain ⟨s', new, hs', hadded, hall⟩ := place_spec hclosed hroot he ((List.length_filter_le _ _).trans_lt hdepth)
  refine ⟨new, by simp [walk, hs', hadded.ordered], hadded.nodup, fun y => ⟨fun hy => ?_, ?_⟩, ?_⟩
  · exact ⟨by simpa using hadded.fresh y hy, hadded.reached y hy⟩
  · rintro ⟨hne, hreach⟩
    have hplaced : y ∈ s'.placed := by
      induction hreach with
      | single h => exact hall _ h
      | @tail b c hb hbc ih =>
        by_cases hbr : b = root
        · exact hall _ (hbr ▸ hbc)
        · have := (hadded.placed b).1 (ih hbr)
          exact hadded.closed b (by simpa [hbr] using this) _ hbc
    simpa [hne] using (hadded.placed y).1 hplaced
  · intro pre y post hsplit z hz
    simpa using hadded.after pre y post hsplit z hz

omit [DecidableEq α] in
/-- Unless a cycle leads through the nodes listed, each is listed after the ones it leads to. -/
theorem Walked.before {ordered pre post : List α} {y z : α} (h : Walked next root ordered)
    (hacyclic : ∀ x, ¬ Relation.TransGen (fun a b => b ∈ next a ∧ a ∈ ordered ∧ b ∈ ordered) x x)
    (hsplit : ordered = pre ++ y :: post) (hz : z ∈ next y) (hzo : z ∈ ordered) : z ∈ pre := by
  have hy : y ∈ ordered := by simp [hsplit]
  rcases h.after pre y post hsplit z hz with hpre | hroot | hcycle
  · exact hpre
  · exact absurd hroot ((h.mem_iff z).1 hzo).1
  · -- The cycle stays among the nodes listed.
    have hlift : ∀ b, Relation.ReflTransGen (Below next root) z b →
        b ∈ ordered ∧ Relation.ReflTransGen (fun a b => b ∈ next a ∧ a ∈ ordered ∧ b ∈ ordered) z b := by
      intro b hb
      induction hb with
      | refl => exact ⟨hzo, .refl⟩
      | @tail b c _ hbc ih =>
        have hc : c ∈ ordered := (h.mem_iff c).2 ⟨hbc.2.2, ((h.mem_iff b).1 ih.1).2.tail hbc.1⟩
        exact ⟨hc, ih.2.tail ⟨hbc.1, ih.1, hc⟩⟩
    exact absurd (Relation.TransGen.head' ⟨hz, hy, hzo⟩ (hlift y hcycle).2) (hacyclic y)

end

end PostOrder
