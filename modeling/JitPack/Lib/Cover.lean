import JitPack.Lib.Lines

/-!
# Covering a list greedily

The elements of a list are taken one by one. An element joins the newest line if it is near to the first of it, and
starts a line otherwise: `cover`. Every element is in a line (`flatMap_cover_perm`), near to the first of it
(`near_of_mem_rest`), and the first of a line is not near to that of the line before it (`isChain_cover`). So where the
first ones of the lines are pairwise apart, no covering has fewer lines (`length_le_of_apart`).

Two notions of nearness give the same lines if they judge the first elements alike (`cover_congr`), and where the lines of
the one are lines by the other as well (`cover_of_near`).
-/

namespace Cover

open Lines (Line)

variable {α : Type*}

/-- An element joins the newest line, or starts one. The newest line is the first in the list. -/
def file (near : α → α → Bool) : List (Line α) → α → List (Line α)
  | [], x => [⟨x, []⟩]
  | line :: lines, x => if near line.first x then line.push x :: lines else ⟨x, []⟩ :: line :: lines

/-- The elements in lines, the newest line first. -/
def cover (near : α → α → Bool) (xs : List α) : List (Line α) := xs.foldl (file near) []

section
variable {near near' : α → α → Bool} {xs : List α} {x y : α} {line later : Line α} {lines : List (Line α)}

theorem Line.rows_push (line : Line α) (x : α) : (line.push x).rows = line.rows ++ [x] := rfl

theorem cover_append_singleton (xs : List α) (x : α) : cover near (xs ++ [x]) = file near (cover near xs) x := by
  rw [cover, List.foldl_append]
  rfl

/-- What a step leaves of the lines, and what it makes of the newest one. -/
theorem mem_file (h : line ∈ file near lines x) : line ∈ lines ∨ line = ⟨x, []⟩ ∨
    ∃ old ∈ lines, near old.first x = true ∧ line = old.push x := by
  cases lines with
  | nil => exact .inr (.inl (List.mem_singleton.1 h))
  | cons old lines =>
    rw [file] at h
    split at h
    · next hnear =>
      rcases List.mem_cons.1 h with rfl | h
      · exact .inr (.inr ⟨old, List.mem_cons_self, hnear, rfl⟩)
      · exact .inl (List.mem_cons_of_mem _ h)
    · rcases List.mem_cons.1 h with rfl | h
      · exact .inr (.inl rfl)
      · exact .inl h

/-- A line stays a line, and may grow. -/
theorem exists_file (near : α → α → Bool) (x : α) (h : line ∈ lines) :
    ∃ later ∈ file near lines x, later.first = line.first ∧ line.rest.Sublist later.rest := by
  cases lines with
  | nil => cases h
  | cons old lines =>
    rw [file]
    split
    · rcases List.mem_cons.1 h with rfl | h
      · exact ⟨_, List.mem_cons_self, rfl, List.sublist_append_left _ _⟩
      · exact ⟨line, List.mem_cons_of_mem _ h, rfl, List.Sublist.refl _⟩
    · exact ⟨line, List.mem_cons_of_mem _ h, rfl, List.Sublist.refl _⟩

theorem flatMap_file_perm (lines : List (Line α)) (x : α) :
    ((file near lines x).flatMap (·.rows)).Perm (x :: lines.flatMap (·.rows)) := by
  cases lines with
  | nil => exact List.Perm.refl _
  | cons line lines =>
    rw [file]
    split
    · rw [List.flatMap_cons, List.flatMap_cons, Line.rows_push, List.append_assoc]
      exact List.perm_middle
    · exact List.Perm.refl _

/-- **Every element is in a line.** -/
theorem flatMap_cover_perm (xs : List α) : ((cover near xs).flatMap (·.rows)).Perm xs := by
  induction xs using List.reverseRecOn with
  | nil => exact List.Perm.refl _
  | append_singleton xs x ih =>
    rw [cover_append_singleton]
    exact (flatMap_file_perm _ x).trans ((ih.cons x).trans (List.perm_append_singleton x xs).symm)

theorem first_mem (h : line ∈ cover near xs) : line.first ∈ xs :=
  (flatMap_cover_perm xs).mem_iff.1 (List.mem_flatMap.2 ⟨line, h, line.first_mem⟩)

/-- An element that is not the first of its line is near to it, and comes after it. -/
theorem near_of_mem_rest (h : line ∈ cover near xs) (hx : x ∈ line.rest) :
    near line.first x = true ∧ [line.first, x].Sublist xs := by
  induction xs using List.reverseRecOn generalizing line with
  | nil => cases h
  | append_singleton xs z ih =>
    rw [cover_append_singleton] at h
    rcases mem_file h with h | rfl | ⟨old, hold, hnear, rfl⟩
    · obtain ⟨hnear, hsub⟩ := ih h hx
      exact ⟨hnear, hsub.trans (List.sublist_append_left _ _)⟩
    · cases hx
    · rcases List.mem_append.1 hx with hx | hx
      · obtain ⟨hnear, hsub⟩ := ih hold hx
        exact ⟨hnear, hsub.trans (List.sublist_append_left _ _)⟩
      · rw [List.mem_singleton.1 hx]
        exact ⟨hnear, (List.singleton_sublist.2 (first_mem hold)).append (List.Sublist.refl [z])⟩

/-- The first of a line is not near to the first of the line before it. -/
theorem isChain_cover (xs : List α) :
    (cover near xs).IsChain fun later earlier => near earlier.first later.first = false := by
  induction xs using List.reverseRecOn with
  | nil => exact .nil
  | append_singleton xs x ih =>
    rw [cover_append_singleton]
    cases hlines : cover near xs with
    | nil => exact .singleton _
    | cons line lines =>
      rw [hlines] at ih
      rw [file]
      split
      · cases lines with
        | nil => exact .singleton _
        | cons earlier lines =>
          rw [List.isChain_cons_cons] at ih ⊢
          exact ih
      · next hnear => exact List.isChain_cons_cons.2 ⟨Bool.eq_false_iff.2 hnear, ih⟩

/-- The lines of the elements taken so far are the older ones of all, up to the newest of them, which may grow. -/
theorem firsts_suffix (xs : List α) (x : α) : (cover near xs).map (·.first) <:+ (cover near (xs ++ [x])).map (·.first) := by
  rw [cover_append_singleton]
  cases cover near xs with
  | nil => exact List.nil_suffix
  | cons line lines =>
    rw [file]
    split
    · exact List.suffix_refl _
    · exact List.suffix_cons _ _

/-- Two notions of nearness give the same lines if they judge the first elements alike. -/
theorem cover_congr (hjoin : ∀ x y, [x, y].Sublist xs → near x y = true → near' x y = true)
    (hstart : ((cover near xs).map (·.first)).IsChain fun later earlier => near' earlier later = false) :
    cover near' xs = cover near xs := by
  induction xs using List.reverseRecOn with
  | nil => rfl
  | append_singleton xs x ih =>
    have hinit := ih (fun y z hyz => hjoin y z (hyz.trans (List.sublist_append_left _ _)))
      (hstart.suffix (firsts_suffix xs x))
    rw [cover_append_singleton] at hstart ⊢
    rw [cover_append_singleton, hinit]
    cases hlines : cover near xs with
    | nil => rfl
    | cons line lines =>
      have hfirst : line.first ∈ xs := first_mem (hlines ▸ List.mem_cons_self)
      have hpair : [line.first, x].Sublist (xs ++ [x]) :=
        (List.singleton_sublist.2 hfirst).append (List.Sublist.refl [x])
      rw [hlines, file] at hstart
      rw [file, file]
      cases hnear : near line.first x with
      | true => rw [hjoin _ _ hpair hnear]
      | false =>
        rw [hnear, if_neg Bool.false_ne_true, List.map_cons, List.map_cons, List.isChain_cons_cons] at hstart
        rw [show near' line.first x = false from hstart.1]

/-- Where the second notion joins only what is near by the first one, the lines are those of the first one. -/
theorem cover_of_near (hjoin : ∀ x y, [x, y].Sublist xs → near x y = true → near' x y = true)
    (hnear : ∀ line ∈ cover near' xs, ∀ x ∈ line.rest, near line.first x = true) : cover near' xs = cover near xs := by
  induction xs using List.reverseRecOn with
  | nil => rfl
  | append_singleton xs x ih =>
    have hinit : cover near' xs = cover near xs := by
      refine ih (fun y z hyz => hjoin y z (hyz.trans (List.sublist_append_left _ _))) fun line hline y hy => ?_
      obtain ⟨later, hlater, hfirst, hrest⟩ := exists_file near' x hline
      rw [← hfirst]
      exact hnear later (cover_append_singleton xs x ▸ hlater) y (hrest.subset hy)
    rw [cover_append_singleton] at hnear ⊢
    rw [cover_append_singleton, hinit]
    rw [hinit] at hnear
    cases hlines : cover near xs with
    | nil => rfl
    | cons line lines =>
      have hfirst : line.first ∈ xs := first_mem (hlines ▸ List.mem_cons_self)
      have hpair : [line.first, x].Sublist (xs ++ [x]) :=
        (List.singleton_sublist.2 hfirst).append (List.Sublist.refl [x])
      rw [hlines, file] at hnear
      rw [file, file]
      cases hnear' : near' line.first x with
      | true =>
        rw [hnear', if_pos rfl] at hnear
        have hin := hnear (line.push x) List.mem_cons_self x (List.mem_append_right _ (List.mem_singleton_self x))
        rw [show near line.first x = true from hin]
      | false =>
        cases htrue : near line.first x with
        | true =>
          rw [hjoin _ _ hpair htrue] at hnear'
          cases hnear'
        | false => rfl

/-- The lines depend on the nearness of the elements alone. -/
theorem cover_congr_mem (h : ∀ x ∈ xs, ∀ y ∈ xs, near x y = near' x y) : cover near xs = cover near' xs := by
  induction xs using List.reverseRecOn with
  | nil => rfl
  | append_singleton xs x ih =>
    have hinit := ih fun y hy z hz => h y (List.mem_append_left _ hy) z (List.mem_append_left _ hz)
    rw [cover_append_singleton, cover_append_singleton, hinit]
    cases hlines : cover near' xs with
    | nil => rfl
    | cons line lines =>
      have hfirst : line.first ∈ xs := first_mem (hlines ▸ List.mem_cons_self)
      rw [file, file, h _ (List.mem_append_left _ hfirst) x (List.mem_append_right _ (List.mem_singleton_self x))]

/-- Elements of which no two are in one line are no more than the lines. -/
theorem length_le_of_apart {leaders : List α} {other : List (List α)} (hmem : ∀ x ∈ leaders, ∃ line ∈ other, x ∈ line)
    (hapart : leaders.Pairwise fun x y => ∀ line ∈ other, x ∈ line → y ∉ line) : leaders.length ≤ other.length := by
  choose! line hline using hmem
  have hnodup : (leaders.map line).Nodup := by
    refine List.pairwise_map.2 (hapart.imp_of_mem fun {x y} hx hy hxy hsame => ?_)
    exact hxy (line x) (hline x hx).1 (hline x hx).2 (hsame ▸ (hline y hy).2)
  have hsub : leaders.map line ⊆ other := by
    rintro l hl
    obtain ⟨x, hx, rfl⟩ := List.mem_map.1 hl
    exact (hline x hx).1
  rw [← List.length_map line]
  exact (hnodup.subperm hsub).length_le

end

end Cover
