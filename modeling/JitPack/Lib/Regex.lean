import Mathlib.Data.List.Infix

/-!
# Backtracking patterns

The patterns of a backtracking matcher, over letters of any type, and what the matcher does with them: `run` tries what
a pattern can match in the matcher's order, the alternatives left to right, a greedy repetition longest first and a lazy
one shortest first, and hands each state it reaches to a continuation. Only single letters are repeated. `scan` runs a
pattern over a text from left to right, each match behind the one before; finding, replacing and splitting are scans.

The rules come in pairs. What cannot go on is passed over (`star_until`, `scan_past`), and what goes on is taken at the
first place (`star_greedy_of_some`, `scan_hit`). `exists_of_run` says what a run that succeeds has matched.
-/

namespace JitPack

/-- A pattern over letters of type `α`. -/
inductive Regex (α : Type) where
  | eps
  | chr (p : α → Bool)
  | seq (r s : Regex α)
  | alt (r s : Regex α)
  | star (greedy : Bool) (p : α → Bool)
  /-- An assertion about the letters before and behind. -/
  | look (p : Option α → Option α → Bool)
  | group (n : ℕ) (r : Regex α)

namespace Regex

/-- Where a matcher stands: the letter before, what is left, and what the groups hold, the last one first. -/
structure State (α : Type) where
  prev : Option α
  rest : List α
  caps : List (ℕ × List α)

/-- What a group holds. -/
def State.cap {α : Type} (s : State α) (n : ℕ) : Option (List α) := s.caps.lookup n

variable {α β : Type}

/-- A repeated letter: `k` is asked behind each number of letters, in the order of the matcher. -/
def runStar (greedy : Bool) (p : α → Bool) (caps : List (ℕ × List α)) (k : State α → Option β) :
    Option α → List α → Option β
  | prev, [] => k ⟨prev, [], caps⟩
  | prev, c :: cs =>
    let here := k ⟨prev, c :: cs, caps⟩
    let further := if p c then runStar greedy p caps k (some c) cs else none
    if greedy then further.or here else here.or further

/-- The first way, in the order of the matcher, to match `r` from a state and satisfy `k` behind it. -/
def run : Regex α → (State α → Option β) → State α → Option β
  | eps, k, s => k s
  | chr p, k, s =>
    match s.rest with
    | [] => none
    | c :: cs => if p c then k ⟨some c, cs, s.caps⟩ else none
  | seq r r', k, s => run r (run r' k) s
  | alt r r', k, s => (run r k s).or (run r' k s)
  | star greedy p, k, s => runStar greedy p s.caps k s.prev s.rest
  | look p, k, s => if p s.prev s.rest.head? then k s else none
  | group n r, k, s =>
    run r (fun t => k { t with caps := (n, s.rest.take (s.rest.length - t.rest.length)) :: t.caps }) s

/-- A pattern that may be left out, taken where it can be. -/
def opt (r : Regex α) : Regex α := alt r eps

/-- A letter repeated at least once, as often as it can be. -/
def plus (p : α → Bool) : Regex α := seq (chr p) (star true p)

/-- One pattern behind the other. -/
def seqs (rs : List (Regex α)) : Regex α := rs.foldr seq eps

/-- The first pattern of a list that goes on. -/
def alts (rs : List (Regex α)) : Regex α := rs.foldr alt (chr fun _ => false)

/-! ## Scanning -/

/-- The match at the start of `text`, where there is one: the text matched, and the state behind it. -/
def matchAt (r : Regex α) (prev : Option α) (text : List α) : Option (State α) := run r some ⟨prev, text, []⟩

/-- A match: its text and its groups. -/
structure Found (α : Type) where
  whole : List α
  caps : List (ℕ × List α)

def Found.cap (f : Found α) (n : ℕ) : Option (List α) := f.caps.lookup n

/-- The scan of a text: `hit` for each match, `miss` for each letter that no match takes. The next `skip` letters belong
to the match before. -/
def scan (r : Regex α) (miss : α → β → β) (hit : Found α → β → β) (done : β) : ℕ → Option α → List α → β
  | skip + 1, _, c :: cs => scan r miss hit done skip (some c) cs
  | 0, prev, c :: cs =>
    match matchAt r prev (c :: cs) with
    | none => miss c (scan r miss hit done 0 (some c) cs)
    | some s =>
      let whole := (c :: cs).take ((c :: cs).length - s.rest.length)
      -- behind an empty match the scan goes on one letter further
      if whole = [] then hit ⟨[], s.caps⟩ (miss c (scan r miss hit done 0 (some c) cs))
      else hit ⟨whole, s.caps⟩ (scan r miss hit done (whole.length - 1) (some c) cs)
  | _, prev, [] =>
    match matchAt r prev [] with
    | none => done
    | some s => hit ⟨[], s.caps⟩ done

/-- The matches in a text that stands behind `prev`. -/
def foundFrom (r : Regex α) (prev : Option α) (text : List α) : List (Found α) :=
  scan r (fun _ fs => fs) (· :: ·) [] 0 prev text

/-- `String.prototype.matchAll`. -/
def matchAll (r : Regex α) (text : List α) : List (Found α) := foundFrom r none text

/-- `RegExp.prototype.exec`. -/
def exec (r : Regex α) (text : List α) : Option (Found α) := (matchAll r text).head?

/-- `RegExp.prototype.test`. -/
def test (r : Regex α) (text : List α) : Bool := (exec r text).isSome

/-- `String.prototype.replace` of every match, by a function that may throw. -/
def replace (r : Regex α) (f : Found α → Option (List α)) (text : List α) : Option (List α) :=
  scan r (fun c text => text.map (c :: ·)) (fun m text => (f m).bind fun by' => text.map (by' ++ ·)) (some [])
    0 none text

/-- `String.prototype.split`, for a pattern without groups that matches no empty text. -/
def split (r : Regex α) (text : List α) : List (List α) :=
  scan r (fun c parts => (c :: parts.headD []) :: parts.tail) (fun _ parts => [] :: parts) [[]] 0 none text

/-! ## Steps of a run -/

section
variable {k : State α → Option β} {s : State α} {b : β}

theorem run_seqs_cons (r : Regex α) (rs : List (Regex α)) (s : State α) :
    run (seqs (r :: rs)) k s = run r (run (seqs rs) k) s := rfl

theorem run_seqs_nil : run (seqs []) k = k := rfl

theorem run_alts_cons (r : Regex α) (rs : List (Regex α)) (s : State α) :
    run (alts (r :: rs)) k s = (run r k s).or (run (alts rs) k s) := rfl

theorem run_alts_nil (s : State α) : run (alts []) k s = none := by
  unfold alts
  simp only [List.foldr_nil, run]
  split <;> simp

theorem run_group (n : ℕ) (r : Regex α) (s : State α) :
    run (group n r) k s =
      run r (fun t => k { t with caps := (n, s.rest.take (s.rest.length - t.rest.length)) :: t.caps }) s := rfl

/-- Alternatives of which each fails or agrees do what one of them does. -/
theorem run_alts_of_forall {rs : List (Regex α)} (h : ∀ r ∈ rs, ∀ b', run r k s = some b' → b' = b)
    (hsome : ∃ r ∈ rs, run r k s = some b) : run (alts rs) k s = some b := by
  induction rs with
  | nil => obtain ⟨r, hr, -⟩ := hsome; cases hr
  | cons r rs ih =>
    rw [List.forall_mem_cons] at h
    rw [run_alts_cons]
    cases hr : run r k s with
    | some b' => rw [h.1 b' hr, Option.some_or]
    | none =>
      obtain ⟨r', hr', hrun⟩ := hsome
      rcases List.mem_cons.1 hr' with rfl | hr'
      · rw [hr] at hrun
        cases hrun
      · rw [Option.none_or, ih h.2 ⟨r', hr', hrun⟩]

/-- What a group holds that has matched `body`. -/
theorem captured (body rest : List α) : (body ++ rest).take ((body ++ rest).length - rest.length) = body := by
  rw [List.length_append, Nat.add_sub_cancel, List.take_left]

end

/-! ## Repetitions -/

variable {greedy : Bool} {p : α → Bool} {caps : List (ℕ × List α)} {k : State α → Option β} {prev : Option α}
  {t rest : List α} {c : α} {b : β}

/-- The letter before what stands behind `t`. -/
def lastOf (prev : Option α) (t : List α) : Option α := t.foldl (fun _ c => some c) prev

@[simp] theorem lastOf_nil : lastOf prev [] = prev := rfl

@[simp] theorem lastOf_cons : lastOf prev (c :: t) = lastOf (some c) t := rfl

@[simp] theorem lastOf_append : lastOf prev (t ++ rest) = lastOf (lastOf prev t) rest := List.foldl_append

theorem lastOf_any {q : α → Bool} (h : ∀ c ∈ t, q c = true) (hne : t ≠ []) : (lastOf prev t).any q = true := by
  induction t generalizing prev with
  | nil => exact absurd rfl hne
  | cons c t ih =>
    rw [List.forall_mem_cons] at h
    cases t with
    | nil => exact h.1
    | cons d t => exact @ih (some c) h.2 (List.cons_ne_nil _ _)

/-- A repetition ends before a letter it does not take. -/
theorem star_stop (h : p c = false) :
    runStar greedy p caps k prev (c :: t) = k ⟨prev, c :: t, caps⟩ := by
  cases greedy <;> simp [runStar, h]

/-- Letters before which `k` fails are passed over. -/
theorem star_until (hp : ∀ c ∈ t, p c = true) (hk : ∀ c ∈ t, ∀ prev cs, k ⟨prev, c :: cs, caps⟩ = none) :
    runStar greedy p caps k prev (t ++ rest) = runStar greedy p caps k (lastOf prev t) rest := by
  induction t generalizing prev with
  | nil => rfl
  | cons c t ih =>
    rw [List.forall_mem_cons] at hp hk
    simp only [List.cons_append, runStar, hp.1, hk.1, if_true, Option.or_none, Option.none_or, ite_self,
      lastOf_cons, ih hp.2 hk.2]

/-- A lazy repetition ends where `k` is satisfied. -/
theorem star_lazy_of_some (h : k ⟨prev, t, caps⟩ = some b) : runStar false p caps k prev t = some b := by
  cases t with
  | nil => exact h
  | cons c t => simp [runStar, h]

/-- A greedy repetition takes all it can where `k` is satisfied behind it. -/
theorem star_greedy_of_some (hp : ∀ c ∈ t, p c = true) (hstop : ∀ c ∈ rest.head?, p c = false)
    (h : k ⟨lastOf prev t, rest, caps⟩ = some b) : runStar true p caps k prev (t ++ rest) = some b := by
  induction t generalizing prev with
  | nil =>
    cases rest with
    | nil => exact h
    | cons c rest => rw [List.nil_append, star_stop (hstop c rfl)]; exact h
  | cons c t ih =>
    rw [List.forall_mem_cons] at hp
    simp only [List.cons_append, runStar, hp.1, if_true, ih hp.2 h, Option.some_or]

/-- A letter repeated at least once is taken as often as it can be. -/
theorem run_plus (hp : ∀ c ∈ t, p c = true) (hne : t ≠ []) (hstop : ∀ c ∈ rest.head?, p c = false)
    (h : k ⟨lastOf prev t, rest, caps⟩ = some b) : run (plus p) k ⟨prev, t ++ rest, caps⟩ = some b := by
  obtain ⟨c, t, rfl⟩ := List.exists_cons_of_ne_nil hne
  rw [List.forall_mem_cons] at hp
  simp only [plus, run, List.cons_append, hp.1, if_true]
  exact star_greedy_of_some hp.2 hstop h

/-- A repetition behind which `k` is satisfied nowhere fails. -/
theorem star_none (h : ∀ prev s, s <:+ t → k ⟨prev, s, caps⟩ = none) :
    runStar greedy p caps k prev t = none := by
  induction t generalizing prev with
  | nil => exact h prev [] List.suffix_rfl
  | cons c t ih =>
    have hfurther : runStar greedy p caps k (some c) t = none :=
      ih fun prev s hs => h prev s (hs.trans (List.suffix_cons ..))
    simp [runStar, h prev _ List.suffix_rfl, hfurther]

/-! ## Scans -/

variable {r : Regex α} {miss : α → β → β} {hit : Found α → β → β} {done : β}

theorem scan_nil (h : matchAt r prev [] = none) : scan r miss hit done 0 prev [] = done := by
  simp [scan, h]

theorem scan_miss (h : matchAt r prev (c :: t) = none) :
    scan r miss hit done 0 prev (c :: t) = miss c (scan r miss hit done 0 (some c) t) := by
  simp [scan, h]

/-- Letters at which nothing matches are passed over. -/
theorem scan_past (h : ∀ c ∈ t, ∀ prev cs, matchAt r prev (c :: cs) = none) :
    scan r miss hit done 0 prev (t ++ rest) = t.foldr miss (scan r miss hit done 0 (lastOf prev t) rest) := by
  induction t generalizing prev with
  | nil => rfl
  | cons c t ih =>
    rw [List.forall_mem_cons] at h
    rw [List.cons_append, scan_miss (h.1 _ _), ih h.2, lastOf_cons, List.foldr_cons]

theorem scan_skip (t rest : List α) (prev : Option α) :
    scan r miss hit done t.length prev (t ++ rest) = scan r miss hit done 0 (lastOf prev t) rest := by
  induction t generalizing prev with
  | nil => rfl
  | cons c t ih => exact ih (some c)

/-- A match is taken, and the scan goes on behind it. -/
theorem scan_hit {last : Option α} (h : matchAt r prev (c :: t ++ rest) = some ⟨last, rest, caps⟩) :
    scan r miss hit done 0 prev (c :: t ++ rest) =
      hit ⟨c :: t, caps⟩ (scan r miss hit done 0 (lastOf (some c) t) rest) := by
  have hwhole : (c :: (t ++ rest)).take ((c :: (t ++ rest)).length - rest.length) = c :: t := by
    have hlen : (c :: (t ++ rest)).length - rest.length = (c :: t).length := by
      simp only [List.length_cons, List.length_append]
      omega
    rw [hlen, ← List.cons_append, List.take_left]
  rw [List.cons_append] at h ⊢
  simp only [scan, h, hwhole]
  rw [if_neg (List.cons_ne_nil c t), List.length_cons, Nat.add_sub_cancel, scan_skip]

@[simp] theorem foldr_keep {γ : Type} (t : List α) (fs : γ) : t.foldr (fun _ fs => fs) fs = fs := by
  induction t with
  | nil => rfl
  | cons c t ih => exact ih

theorem foundFrom_nil (h : matchAt r prev [] = none) : foundFrom r prev [] = [] := scan_nil h

theorem foundFrom_miss (h : matchAt r prev (c :: t) = none) : foundFrom r prev (c :: t) = foundFrom r (some c) t :=
  scan_miss h

theorem foundFrom_past (h : ∀ c ∈ t, ∀ prev cs, matchAt r prev (c :: cs) = none) :
    foundFrom r prev (t ++ rest) = foundFrom r (lastOf prev t) rest := by
  rw [foundFrom, scan_past h, foldr_keep, foundFrom]

theorem foundFrom_hit {last : Option α} (h : matchAt r prev (c :: t ++ rest) = some ⟨last, rest, caps⟩) :
    foundFrom r prev (c :: t ++ rest) = ⟨c :: t, caps⟩ :: foundFrom r (lastOf (some c) t) rest := scan_hit h

/-- A text in which nothing matches holds no match. -/
theorem exec_none {text : List α} (h : ∀ prev t, t <:+ text → matchAt r prev t = none) : exec r text = none := by
  have hfound : ∀ prev, foundFrom r prev text = [] := by
    induction text with
    | nil => exact fun prev => foundFrom_nil (h prev [] List.suffix_rfl)
    | cons c text ih =>
      intro prev
      rw [foundFrom_miss (h prev _ List.suffix_rfl)]
      exact ih (fun prev t ht => h prev t (ht.trans (List.suffix_cons ..))) (some c)
  rw [exec, matchAll, hfound, List.head?_nil]

/-- A pattern that matches at the start of a text only is tried there. -/
theorem exec_anchored (h : ∀ c t, matchAt r (some c) t = none) (text : List α) :
    exec r text = (matchAt r none text).map fun s => ⟨text.take (text.length - s.rest.length), s.caps⟩ := by
  have hlater : ∀ (t : List α) c, foundFrom r (some c) t = [] := by
    intro t
    induction t with
    | nil => exact fun c => foundFrom_nil (h c [])
    | cons d t ih => exact fun c => (foundFrom_miss (h c _)).trans (ih d)
  cases text with
  | nil => cases hm : matchAt r none [] <;> simp [exec, matchAll, foundFrom, scan, hm]
  | cons c t =>
    cases hm : matchAt r none (c :: t) with
    | none => rw [exec, matchAll, foundFrom_miss hm, hlater]; rfl
    | some s =>
      simp only [exec, matchAll, foundFrom, scan, hm, Option.map_some]
      split_ifs with hempty
      · rw [List.head?_cons, hempty]
      · rw [List.head?_cons]

theorem foldr_replace (t rest : List α) :
    t.foldr (fun c text => text.map (c :: ·)) (some rest) = some (t ++ rest) := by
  induction t with
  | nil => rfl
  | cons c t ih => rw [List.foldr_cons, ih, Option.map_some, List.cons_append]

theorem foldr_split (t part : List α) (parts : List (List α)) :
    t.foldr (fun c parts => (c :: parts.headD []) :: parts.tail) (part :: parts) = (t ++ part) :: parts := by
  induction t with
  | nil => rfl
  | cons c t ih => rw [List.foldr_cons, ih, List.headD_cons, List.tail_cons, List.cons_append]

/-! ## What a run has matched -/

/-- The states a pattern can lead to. -/
def Reaches : Regex α → State α → State α → Prop
  | eps, s, t => t = s
  | chr p, s, t => ∃ c, p c = true ∧ s.rest = c :: t.rest ∧ t.prev = some c ∧ t.caps = s.caps
  | seq r r', s, u => ∃ t, Reaches r s t ∧ Reaches r' t u
  | alt r r', s, t => Reaches r s t ∨ Reaches r' s t
  | star _ p, s, t => ∃ cs, (∀ c ∈ cs, p c = true) ∧ s.rest = cs ++ t.rest ∧ t.prev = lastOf s.prev cs ∧ t.caps = s.caps
  | look p, s, t => p s.prev s.rest.head? = true ∧ t = s
  | group n r, s, t =>
    ∃ u, Reaches r s u ∧ t = { u with caps := (n, s.rest.take (s.rest.length - u.rest.length)) :: u.caps }

theorem reaches_plus {s t : State α} (h : Reaches (plus p) s t) :
    ∃ cs, cs ≠ [] ∧ (∀ c ∈ cs, p c = true) ∧ s.rest = cs ++ t.rest ∧ t.caps = s.caps := by
  obtain ⟨u, ⟨c, hc, hrest, -, hcaps⟩, cs, hcs, hrest', -, hcaps'⟩ := h
  refine ⟨c :: cs, List.cons_ne_nil _ _, List.forall_mem_cons.2 ⟨hc, hcs⟩, ?_, hcaps'.trans hcaps⟩
  rw [hrest, hrest', List.cons_append]

/-- An alternative that is taken is one of the list. -/
theorem reaches_alts {rs : List (Regex α)} {s t : State α} (h : Reaches (alts rs) s t) : ∃ r ∈ rs, Reaches r s t := by
  induction rs with
  | nil =>
    obtain ⟨c, hc, -⟩ := h
    cases hc
  | cons r rs ih =>
    rcases h with h | h
    · exact ⟨r, List.mem_cons_self, h⟩
    · obtain ⟨r', hr', h⟩ := ih h
      exact ⟨r', List.mem_cons_of_mem r hr', h⟩

theorem exists_of_star (h : runStar greedy p caps k prev t = some b) :
    ∃ cs rest, (∀ c ∈ cs, p c = true) ∧ t = cs ++ rest ∧ k ⟨lastOf prev cs, rest, caps⟩ = some b := by
  induction t generalizing prev with
  | nil => exact ⟨[], [], by simp, rfl, h⟩
  | cons c t ih =>
    have hcases : k ⟨prev, c :: t, caps⟩ = some b ∨ p c = true ∧ runStar greedy p caps k (some c) t = some b := by
      unfold runStar at h
      cases greedy <;> grind [Option.or_eq_some_iff]
    rcases hcases with hhere | ⟨hc, hfurther⟩
    · exact ⟨[], c :: t, by simp, rfl, hhere⟩
    · obtain ⟨cs, rest, hcs, rfl, hk⟩ := ih hfurther
      exact ⟨c :: cs, rest, List.forall_mem_cons.2 ⟨hc, hcs⟩, rfl, hk⟩

/-- A run that succeeds has matched the pattern and satisfied `k` behind it. -/
theorem exists_of_run {s : State α} (h : run r k s = some b) : ∃ t, Reaches r s t ∧ k t = some b := by
  induction r generalizing k s with
  | eps => exact ⟨s, rfl, h⟩
  | chr p =>
    simp only [run] at h
    split at h
    · cases h
    · next c cs hrest =>
      split_ifs at h with hc
      exact ⟨⟨some c, cs, s.caps⟩, ⟨c, hc, hrest, rfl, rfl⟩, h⟩
  | seq r r' ih ih' =>
    obtain ⟨t, ht, hk⟩ := ih h
    obtain ⟨u, hu, hk⟩ := ih' hk
    exact ⟨u, ⟨t, ht, hu⟩, hk⟩
  | alt r r' ih ih' =>
    rcases Option.or_eq_some_iff.1 h with h | ⟨-, h⟩
    · obtain ⟨t, ht, hk⟩ := ih h
      exact ⟨t, .inl ht, hk⟩
    · obtain ⟨t, ht, hk⟩ := ih' h
      exact ⟨t, .inr ht, hk⟩
  | star greedy p =>
    obtain ⟨cs, rest, hcs, hrest, hk⟩ := exists_of_star h
    exact ⟨⟨lastOf s.prev cs, rest, s.caps⟩, ⟨cs, hcs, hrest, rfl, rfl⟩, hk⟩
  | look p =>
    simp only [run] at h
    split_ifs at h with hp
    exact ⟨s, ⟨hp, rfl⟩, h⟩
  | group n r ih =>
    obtain ⟨u, hu, hk⟩ := ih h
    exact ⟨_, ⟨u, hu, rfl⟩, hk⟩

end Regex

end JitPack
