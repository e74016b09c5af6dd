import JitPack.Lib.Cover
import JitPack.Lib.Ranked
import JitPack.Client.TaskDue

/-!
# Ingredient lines

`sumGroups` of `ingredients.ts`: which open ingredients make one line of the shopping list. The parts are taken by their
days, and a part joins the line of its name that was started last, unless the name is fresh and the part is due more than
a day after the first of that line. For the parts of one name this is a greedy cover (`filter_foldl_addPart`), so its lines
are the fewest that hold no two fresh parts more than a day apart.

What may go wrong is the reading of a day: `daysBetween` takes a year below 100 for one of the twentieth century. The lines
are as they should be exactly if it reads the first days of a fresh name's lines more than a day apart (`sumLists_iff`).
-/

namespace JitPack

namespace Meals

open Lines (Line)

/-! ## The code -/

/-- `SumFacts`. -/
structure SumFacts where
  key : String
  due : Day
  fresh : Bool
  deriving DecidableEq

/-- A part with its facts and its place in the reading order. -/
structure Part (T : Type) extends SumFacts where
  part : T
  index : ℕ
  deriving DecidableEq

/-- `FRESH_SPAN_DAYS`. -/
def freshSpanDays : ℤ := 1

/-- `daysBetween`. -/
def daysBetween (first last : Day) : ℤ := utcDay last - utcDay first

section
variable {T : Type} (facts : T → SumFacts)

/-- `known`. -/
def known (parts : List T) : List (Part T) := parts.zipIdx.map fun p => { facts p.1 with part := p.1, index := p.2 }

/-- `freshNames`. -/
def freshName (known : List (Part T)) (key : String) : Bool := known.any fun p => p.fresh && p.key = key

/-- `ordered`. Days stand in the order of their texts. -/
def ordered (known : List (Part T)) : List (Part T) := Ranked.byRank (fun p => toLex (p.due.number, p.index)) known

/-- Whether a part fits into a line of its name, by the first part of the line. -/
def fits (fresh : String → Bool) (first part : Part T) : Bool :=
  !fresh part.key || daysBetween first.due part.due ≤ freshSpanDays

/-- A step of the loop. Of the lines of a name, `open` holds the one that was started last; the newest line is the first
here. -/
def addPart (fresh : String → Bool) (lines : List (Line (Part T))) (part : Part T) : List (Line (Part T)) :=
  match lines.find? (·.first.key = part.key) with
  | none => ⟨part, []⟩ :: lines
  | some line =>
    if fits fresh line.first part then lines.modify (lines.findIdx (·.first.key = part.key)) (·.push part)
    else ⟨part, []⟩ :: lines

/-- The lines, before they are put in reading order. -/
def gathered (known : List (Part T)) : List (Line (Part T)) :=
  ((ordered known).foldl (addPart (freshName known)) []).reverse

/-- The index of the first part of a line. -/
def firstIndex (line : List (Part T)) : ℕ := (line.map (·.index)).headD 0

/-- The lines in reading order. -/
def sumLines (known : List (Part T)) : List (List (Part T)) :=
  Ranked.byRank firstIndex ((gathered known).map fun line => Ranked.byRank (·.index) line.rows)

/-- `sumGroups`. -/
def sumGroups (parts : List T) : List (List T) := (sumLines (known facts parts)).map (·.map (·.part))

/-! ## What the lines should be -/

/-- The rules: lines of one name each, in which fresh parts are at most a day apart. -/
structure Sums (known : List (Part T)) (lines : List (List (Part T))) : Prop where
  perm : lines.flatten.Perm known
  ne_nil : [] ∉ lines
  oneName : ∀ line ∈ lines, ∀ p ∈ line, ∀ q ∈ line, p.key = q.key
  near : ∀ line ∈ lines, ∀ p ∈ line, freshName known p.key = true → ∀ q ∈ line, q.due.number ≤ p.due.number + 1

/-- How many lines hold a name. -/
def count (key : String) (lines : List (List (Part T))) : ℕ := (lines.filter (·.any (·.key = key))).length

/-- What a list of lines is to be. -/
structure Lists (parts : List T) (lines : List (List (Part T))) : Prop extends Sums (known facts parts) lines where
  durable : ∀ p ∈ known facts parts, freshName (known facts parts) p.key = false → count p.key lines = 1
  fewest : ∀ other, Sums (known facts parts) other →
    lines.length ≤ other.length ∧ ∀ key, count key lines ≤ count key other
  reading : ∀ line ∈ lines, line.Pairwise fun p q => p.index < q.index
  first : lines.Pairwise fun line later => firstIndex line < firstIndex later
  alone : ∀ key, (lines.map (·.map (·.part))).filter (·.any fun part => (facts part).key = key) =
    sumGroups facts (parts.filter fun part => (facts part).key = key)

/-- The parts of a name by their days. -/
def ofName (known : List (Part T)) (key : String) : List (Part T) := (ordered known).filter (·.key = key)

/-- Whether the second part is due at most a day after the first, by the calendar. -/
def nextDay (first part : Part T) : Bool := part.due.number ≤ first.due.number + 1

/-- `daysBetween` reads more than a day between the first days of a name's lines: its first day, the first one more than a
day later, and so on. -/
def ReadApart (known : List (Part T)) (key : String) : Prop :=
  ((Cover.cover nextDay (ofName known key)).map (·.first)).IsChain fun later earlier =>
    freshSpanDays < daysBetween earlier.due later.due

end

/-! ## Days -/

/-- How much later `Date.UTC` reads a day of the first century. -/
theorem century : ∀ year < 100, ∀ month < 13, daysBeforeYear (1900 + year) + daysBeforeMonth (1900 + year) month =
    daysBeforeYear year + daysBeforeMonth year month + 693960 + if year = 0 ∧ month ≤ 2 then 1 else 0 := by
  decide +kernel

theorem utcDay_early {day : Day} (h : day.year < 100) :
    utcDay day = day.number + 693960 + if day.year = 0 ∧ day.month ≤ 2 then 1 else 0 := by
  have hshift := century day.year h day.month (Nat.lt_succ_of_le day.month_mem.2)
  unfold utcDay Day.number daysTo
  rw [if_pos h]
  split at hshift <;> omega

/-- A day that is at most the next one is read as at most the next one. -/
theorem daysBetween_le {day day' : Day} (hle : day.number ≤ day'.number) (hnext : day'.number ≤ day.number + 1) :
    daysBetween day day' ≤ 1 := by
  unfold daysBetween
  rcases Nat.lt_or_ge day.year 100 with hearly | hlate
  · have hday := utcDay_early hearly
    rcases Nat.lt_or_ge day'.year 100 with hearly' | hlate'
    · have hday' := utcDay_early hearly'
      -- the first weeks of year 0 are read a day later than the rest of the century
      have hweeks : day'.year = 0 ∧ day'.month ≤ 2 → day.year = 0 ∧ day.month ≤ 2 := by
        rintro ⟨hyear', hmonth'⟩
        have hlt := day'.number_lt_month
        have hmono : daysBeforeMonth 0 (day'.month + 1) ≤ daysBeforeMonth 0 3 :=
          daysBeforeMonth_mono 0 (Nat.succ_le_succ hmonth')
        have hge := day.le_number
        rw [hyear'] at hlt
        have hzero : daysBeforeYear 0 = 0 := rfl
        have hmarch : daysBeforeMonth 0 3 = 60 := rfl
        by_contra hnot
        rcases Nat.eq_zero_or_pos day.year with hyear | hyear
        · have hmonth := daysBeforeMonth_mono 0 (show 3 ≤ day.month by omega)
          rw [hyear] at hge
          omega
        · have hfirst : daysBeforeYear 1 ≤ daysBeforeYear day.year := daysBeforeYear_mono hyear
          have hone : daysBeforeYear 1 = 366 := rfl
          omega
      split at hday <;> split at hday' <;> first | omega | exact absurd (hweeks ‹_›) ‹_›
    · have hday' := (utcDay_eq_iff day').2 hlate'
      split at hday <;> omega
  · have hlate' : 100 ≤ day'.year := by
      by_contra hearly'
      have hyear := daysBeforeYear_mono (show day'.year + 1 ≤ day.year by omega)
      have hlt := day'.number_lt_year
      have hge := day.le_number
      omega
    rw [(utcDay_eq_iff day).2 hlate, (utcDay_eq_iff day').2 hlate']
    omega

/-! ## The lines of one name -/

section
variable {T : Type} {facts : T → SumFacts} {fresh : String → Bool} {key : String}
variable {part p q : Part T} {xs : List (Part T)} {line : Line (Part T)} {lines : List (Line (Part T))}

theorem filter_modify_of_same {α : Type} {f : α → α} {p : α → Bool} {l rest : List α} {a : α}
    (h : l.filter p = a :: rest) (hf : ∀ a, p a → p (f a)) : (l.modify (l.findIdx p) f).filter p = f a :: rest := by
  induction l with
  | nil => cases h
  | cons b l ih =>
    rw [List.findIdx_cons]
    cases hb : p b with
    | true =>
      rw [List.filter_cons_of_pos hb, List.cons.injEq] at h
      rw [cond_true, List.modify_zero_cons, List.filter_cons_of_pos (hf b hb), h.1, h.2]
    | false =>
      rw [List.filter_cons_of_neg (by simp [hb])] at h
      rw [cond_false, List.modify_succ_cons, List.filter_cons_of_neg (by simp [hb]), ih h]

theorem filter_modify_of_other {α : Type} {f : α → α} {p q : α → Bool} (l : List α) (hpq : ∀ a, p a → q a = false)
    (hf : ∀ a, q (f a) = q a) : (l.modify (l.findIdx p) f).filter q = l.filter q := by
  induction l with
  | nil => rfl
  | cons b l ih =>
    rw [List.findIdx_cons]
    cases hb : p b with
    | true =>
      rw [cond_true, List.modify_zero_cons, List.filter_cons_of_neg (by simp [hf, hpq b hb]),
        List.filter_cons_of_neg (by simp [hpq b hb])]
    | false => rw [cond_false, List.modify_succ_cons, List.filter_cons, List.filter_cons, ih]

/-- A part joins the lines of its own name. -/
theorem filter_addPart (lines : List (Line (Part T))) (part : Part T) :
    (addPart fresh lines part).filter (·.first.key = key) =
      if part.key = key then Cover.file (fits fresh) (lines.filter (·.first.key = key)) part
      else lines.filter (·.first.key = key) := by
  unfold addPart
  rw [← List.head?_filter]
  split_ifs with hkey
  · subst hkey
    cases hlines : lines.filter (·.first.key = part.key) with
    | nil =>
      dsimp only [List.head?_nil]
      rw [List.filter_cons_of_pos (by simp), hlines]
      rfl
    | cons line rest =>
      dsimp only [List.head?_cons]
      rw [Cover.file]
      split
      · exact filter_modify_of_same hlines fun line hline => hline
      · rw [List.filter_cons_of_pos (by simp), hlines]
  · have hother : (⟨part, []⟩ :: lines).filter (·.first.key = key) = lines.filter (·.first.key = key) :=
      List.filter_cons_of_neg (by simp [hkey])
    split
    · exact hother
    · split
      · refine filter_modify_of_other lines (fun line hline => ?_) fun line => rfl
        have hline : line.first.key = part.key := of_decide_eq_true hline
        exact decide_eq_false (hline ▸ hkey)
      · exact hother

/-- **The lines of a name are a greedy cover of its parts.** -/
theorem filter_foldl_addPart (xs : List (Part T)) (key : String) :
    (xs.foldl (addPart fresh) []).filter (·.first.key = key) = Cover.cover (fits fresh) (xs.filter (·.key = key)) := by
  induction xs using List.reverseRecOn with
  | nil => rfl
  | append_singleton xs part ih =>
    rw [List.foldl_append, List.foldl_cons, List.foldl_nil, filter_addPart, ih, List.filter_append]
    split_ifs with hkey
    · rw [List.filter_cons_of_pos (by simpa using hkey), List.filter_nil, Cover.cover_append_singleton]
    · rw [List.filter_cons_of_neg (by simpa using hkey), List.filter_nil, List.append_nil]

/-! ## All lines -/

theorem flatMap_modify_perm {i : ℕ} (h : i < lines.length) (part : Part T) :
    ((lines.modify i (·.push part)).flatMap (·.rows)).Perm (part :: lines.flatMap (·.rows)) := by
  induction lines generalizing i with
  | nil => cases h
  | cons line lines ih =>
    cases i with
    | zero =>
      rw [List.modify_zero_cons, List.flatMap_cons, List.flatMap_cons, Cover.Line.rows_push, List.append_assoc]
      exact List.perm_middle
    | succ i =>
      rw [List.modify_succ_cons, List.flatMap_cons, List.flatMap_cons]
      exact ((ih (Nat.lt_of_succ_lt_succ h)).append_left _).trans List.perm_middle

theorem flatMap_foldl_perm (xs : List (Part T)) :
    ((xs.foldl (addPart fresh) []).flatMap (·.rows)).Perm xs := by
  induction xs using List.reverseRecOn with
  | nil => exact List.Perm.refl _
  | append_singleton xs part ih =>
    rw [List.foldl_append, List.foldl_cons, List.foldl_nil]
    refine List.Perm.trans ?_ ((ih.cons part).trans (List.perm_append_singleton part xs).symm)
    unfold addPart
    split
    · exact List.Perm.refl _
    · next line hfind =>
      split
      · exact flatMap_modify_perm (List.findIdx_lt_length_of_exists
          ⟨line, List.mem_of_find?_eq_some hfind, List.find?_some hfind⟩) part
      · exact List.Perm.refl _

theorem mem_foldl (h : line ∈ xs.foldl (addPart fresh) []) :
    line ∈ Cover.cover (fits fresh) (xs.filter (·.key = line.first.key)) := by
  rw [← filter_foldl_addPart]
  exact List.mem_filter.2 ⟨h, decide_eq_true rfl⟩

/-- The lines of a list of parts, each in reading order. -/
theorem mem_sumLines {ps : List (Part T)} {l : List (Part T)} : l ∈ sumLines ps ↔
    ∃ line ∈ (ordered ps).foldl (addPart (freshName ps)) [], Ranked.byRank (·.index) line.rows = l := by
  rw [sumLines, Ranked.mem_byRank, List.mem_map]
  simp only [gathered, List.mem_reverse]

/-- The parts of a line have its name. -/
theorem key_of_mem_rows (h : line ∈ xs.foldl (addPart fresh) []) (hp : p ∈ line.rows) : p.key = line.first.key := by
  have hmem := (Cover.flatMap_cover_perm _).mem_iff.1 (List.mem_flatMap.2 ⟨line, mem_foldl h, hp⟩)
  exact of_decide_eq_true (List.mem_filter.1 hmem).2

theorem flatten_sumLines_perm (ps : List (Part T)) : (sumLines ps).flatten.Perm ps := by
  have hrows : (((gathered ps).map fun line => Ranked.byRank (·.index) line.rows).flatten).Perm
      ((gathered ps).flatMap (·.rows)) := by
    rw [← List.flatMap_def]
    exact List.Perm.flatMap_left _ fun line _ => Ranked.byRank_perm _ _
  have hlines : ((gathered ps).flatMap (·.rows)).Perm (ordered ps) :=
    ((List.reverse_perm _).flatMap_right _).trans (flatMap_foldl_perm _)
  exact ((Ranked.byRank_perm _ _).flatten.trans hrows).trans (hlines.trans (Ranked.byRank_perm _ _))

theorem any_sorted (name : String → Bool) (h : line ∈ xs.foldl (addPart fresh) []) :
    (Ranked.byRank (·.index) line.rows).any (name ·.key) = name line.first.key := by
  rw [Bool.eq_iff_iff, List.any_eq_true]
  constructor
  · rintro ⟨p, hp, hkey⟩
    rwa [key_of_mem_rows h (Ranked.mem_byRank.1 hp)] at hkey
  · intro hkey
    exact ⟨line.first, Ranked.mem_byRank.2 line.first_mem, hkey⟩

/-- How many lines there are of some names. -/
theorem length_filter_sumLines (ps : List (Part T)) (name : String → Bool) :
    ((sumLines ps).filter (·.any (name ·.key))).length =
      (((ordered ps).foldl (addPart (freshName ps)) []).filter (name ·.first.key)).length := by
  have hany : ∀ line ∈ gathered ps,
      ((fun l : List (Part T) => l.any (name ·.key)) ∘ fun line => Ranked.byRank (·.index) line.rows) line =
        name line.first.key := fun line hline => any_sorted name (List.mem_reverse.1 hline)
  rw [sumLines, ((Ranked.byRank_perm _ _).filter _).length_eq, List.filter_map, List.length_map,
    List.filter_congr hany, gathered, List.filter_reverse, List.length_reverse]

/-- How many lines there are of a name. -/
theorem count_sumLines (ps : List (Part T)) (key : String) :
    count key (sumLines ps) = (Cover.cover (fits (freshName ps)) (ofName ps key)).length := by
  rw [count, length_filter_sumLines ps fun k => k = key, filter_foldl_addPart, ofName]

theorem nodup_index (parts : List T) : ((known facts parts).map (·.index)).Nodup := by
  rw [known, List.map_map]
  have hsnd : (fun p : Part T => p.index) ∘ (fun p : T × ℕ => ({ facts p.1 with part := p.1, index := p.2 } : Part T)) = Prod.snd := rfl
  rw [hsnd, List.zipIdx_map_snd]
  exact List.nodup_range'

/-! ### Other names -/

/-- The part at another place of the reading order. -/
def reindex (e : ℕ → ℕ) (p : Part T) : Part T := { p with index := e p.index }

/-- A list read by a rank that only the names of the elements have changed. -/
theorem byRank_map_of_le {α β κ ι : Type} [LinearOrder κ] [LinearOrder ι] {rank : α → κ} {rank' : β → ι} {f : α → β}
    {l : List α} (h : ∀ a ∈ l, ∀ b ∈ l, rank a ≤ rank b ↔ rank' (f a) ≤ rank' (f b)) :
    Ranked.byRank rank' (l.map f) = (Ranked.byRank rank l).map f :=
  (List.map_insertionSort _ _ f l h).symm

section
variable {e : ℕ → ℕ} {ps : List (Part T)}

/-- A line of parts at other places. -/
def reindexLine (e : ℕ → ℕ) (line : Line (Part T)) : Line (Part T) := ⟨reindex e line.first, line.rest.map (reindex e)⟩

theorem modify_map {α β : Type} {f : α → α} {f' : β → β} {g : α → β} (h : ∀ a, f' (g a) = g (f a)) (l : List α) (i : ℕ) :
    (l.map g).modify i f' = (l.modify i f).map g := by
  induction l generalizing i with
  | nil => cases i <;> rfl
  | cons a l ih =>
    cases i with
    | zero => rw [List.map_cons, List.modify_zero_cons, List.modify_zero_cons, List.map_cons, h]
    | succ i => rw [List.map_cons, List.modify_succ_cons, List.modify_succ_cons, List.map_cons, ih]

theorem addPart_reindex (lines : List (Line (Part T))) (part : Part T) :
    addPart fresh (lines.map (reindexLine e)) (reindex e part) = (addPart fresh lines part).map (reindexLine e) := by
  unfold addPart
  rw [List.find?_map, List.findIdx_map]
  have hkey : (fun line : Line (Part T) => decide (line.first.key = (reindex e part).key)) ∘ reindexLine e =
      fun line => decide (line.first.key = part.key) := rfl
  rw [hkey]
  cases lines.find? (fun line => decide (line.first.key = part.key)) with
  | none => rfl
  | some line =>
    dsimp only [Option.map_some]
    have hfits : fits fresh (reindexLine e line).first (reindex e part) = fits fresh line.first part := rfl
    rw [hfits]
    split
    · exact modify_map (fun line => by simp [reindexLine, Line.push]) _ _
    · rfl

theorem foldl_reindex (xs : List (Part T)) : (xs.map (reindex e)).foldl (addPart fresh) [] =
    (xs.foldl (addPart fresh) []).map (reindexLine e) := by
  induction xs using List.reverseRecOn with
  | nil => rfl
  | append_singleton xs part ih =>
    rw [List.map_append, List.foldl_append, List.foldl_append, ih]
    exact addPart_reindex _ _

/-- The lines are the same if the parts keep their order. -/
theorem sumLines_reindex (he : ∀ p ∈ ps, ∀ q ∈ ps, p.index ≤ q.index ↔ e p.index ≤ e q.index) :
    sumLines (ps.map (reindex e)) = (sumLines ps).map (·.map (reindex e)) := by
  have hfresh : freshName (ps.map (reindex e)) = freshName ps := by
    funext key
    rw [freshName, List.any_map]
    rfl
  have hordered : ordered (ps.map (reindex e)) = (ordered ps).map (reindex e) := by
    refine byRank_map_of_le fun p hp q hq => ?_
    rw [Prod.Lex.toLex_le_toLex, Prod.Lex.toLex_le_toLex]
    exact or_congr_right (and_congr_right fun _ => he p hp q hq)
  have hgathered : gathered (ps.map (reindex e)) = (gathered ps).map (reindexLine e) := by
    rw [gathered, hordered, hfresh, foldl_reindex, ← List.map_reverse]
    rfl
  have hmem : ∀ l ∈ sumLines ps, ∀ p ∈ l, p ∈ ps := fun l hl p hp =>
    (flatten_sumLines_perm ps).mem_iff.1 (List.mem_flatten.2 ⟨l, hl, hp⟩)
  have hsorted : ((gathered ps).map (reindexLine e)).map (fun line => Ranked.byRank (·.index) line.rows) =
      ((gathered ps).map fun line => Ranked.byRank (·.index) line.rows).map (·.map (reindex e)) := by
    rw [List.map_map, List.map_map]
    refine List.map_congr_left fun line hline => ?_
    have hrows : (reindexLine e line).rows = line.rows.map (reindex e) := rfl
    have hin : ∀ p ∈ line.rows, p ∈ ps := fun p hp =>
      hmem _ (mem_sumLines.2 ⟨line, List.mem_reverse.1 hline, rfl⟩) p (Ranked.mem_byRank.2 hp)
    rw [Function.comp, Function.comp, hrows]
    exact byRank_map_of_le fun p hp q hq => he p (hin p hp) q (hin q hq)
  rw [sumLines, hgathered, hsorted]
  refine byRank_map_of_le fun l hl l' hl' => ?_
  have hfirst : ∀ l ∈ (gathered ps).map (fun line => Ranked.byRank (·.index) line.rows),
      ∃ p ∈ ps, firstIndex l = p.index ∧ firstIndex (l.map (reindex e)) = e p.index := by
    intro l hl
    have hsum := hmem l (Ranked.mem_byRank.2 hl)
    obtain ⟨line, -, rfl⟩ := List.mem_map.1 hl
    cases hrows : Ranked.byRank (fun p : Part T => p.index) line.rows with
    | nil => exact absurd (Ranked.mem_byRank.2 line.first_mem) (hrows ▸ List.not_mem_nil)
    | cons p l => exact ⟨p, hsum p (hrows ▸ List.mem_cons_self), rfl, rfl⟩
  obtain ⟨p, hp, hl, hle⟩ := hfirst l hl
  obtain ⟨q, hq, hl', hle'⟩ := hfirst l' hl'
  rw [hl, hl', hle, hle']
  exact he p hp q hq

/-- The lines of a name are those of its parts alone. -/
theorem filter_sumLines (ps : List (Part T)) (key : String) :
    (sumLines ps).filter (·.any (·.key = key)) = sumLines (ps.filter (·.key = key)) := by
  have hordered : ordered (ps.filter (·.key = key)) = ofName ps key := (Ranked.filter_byRank _ _).symm
  have hself : (ofName ps key).filter (·.key = key) = ofName ps key :=
    List.filter_eq_self.2 fun p hp => (List.mem_filter.1 hp).2
  have hkey : ∀ line ∈ (ofName ps key).foldl (addPart (freshName (ps.filter (·.key = key)))) [],
      decide (line.first.key = key) = true := by
    intro line hline
    have hmem := (Cover.flatMap_cover_perm _).mem_iff.1 (List.mem_flatMap.2 ⟨line, mem_foldl hline, line.first_mem⟩)
    exact (List.mem_filter.1 (List.mem_filter.1 hmem).1).2
  have hfresh : freshName (ps.filter (·.key = key)) key = freshName ps key := by
    rw [freshName, freshName, List.any_filter]
    exact List.any_congr rfl fun p => by cases decide (p.key = key) <;> simp
  have hlines : (gathered ps).filter (·.first.key = key) = gathered (ps.filter (·.key = key)) := by
    rw [gathered, gathered, hordered, List.filter_reverse, filter_foldl_addPart, ← List.filter_eq_self.2 hkey,
      filter_foldl_addPart, hself]
    refine congrArg _ (Cover.cover_congr_mem fun p _ q hq => ?_)
    have hq : q.key = key := of_decide_eq_true (List.mem_filter.1 hq).2
    rw [fits, fits, hq, hfresh]
  have hany : ∀ line ∈ gathered ps,
      ((fun l : List (Part T) => l.any (·.key = key)) ∘ fun line => Ranked.byRank (·.index) line.rows) line =
        decide (line.first.key = key) := fun line hline => any_sorted (· = key) (List.mem_reverse.1 hline)
  rw [sumLines, Ranked.filter_byRank, List.filter_map, List.filter_congr hany, hlines]
  rfl

/-- Some of the parts have the places of their own reading order, up to a rising map. -/
theorem exists_reindex (parts : List T) (key : String) : ∃ e : ℕ → ℕ,
    (known facts parts).filter (·.key = key) =
      (known facts (parts.filter fun part => (facts part).key = key)).map (reindex e) ∧
    ∀ p ∈ known facts (parts.filter fun part => (facts part).key = key),
      ∀ q ∈ known facts (parts.filter fun part => (facts part).key = key), p.index ≤ q.index ↔ e p.index ≤ e q.index := by
  let kept := parts.zipIdx.filter fun p => (facts p.1).key = key
  have hparts : (parts.filter fun part => (facts part).key = key) = kept.map (·.1) := by
    conv_lhs => rw [← List.zipIdx_map_fst 0 parts]
    exact List.filter_map
  have hrising : (kept.map (·.2)).Pairwise (· < ·) := by
    have hall : (parts.zipIdx.map (·.2)).Pairwise (· < ·) := by
      rw [List.zipIdx_map_snd]
      exact List.pairwise_lt_range'
    exact hall.sublist (List.filter_sublist.map _)
  refine ⟨fun i => (kept.map (·.2)).getD i 0, ?_, fun p hp q hq => ?_⟩
  · rw [hparts, known, known, List.filter_map]
    change kept.map _ = _
    refine List.ext_getElem (by simp) fun i hi hi' => ?_
    have hlen : i < kept.length := by simpa using hi
    simp [reindex, hlen]
  · rw [hparts, known] at hp hq
    obtain ⟨⟨part, i⟩, hin, rfl⟩ := List.mem_map.1 hp
    obtain ⟨⟨part', j⟩, hin', rfl⟩ := List.mem_map.1 hq
    have hi : i < (kept.map (·.2)).length := by simpa using List.snd_lt_of_mem_zipIdx hin
    have hj : j < (kept.map (·.2)).length := by simpa using List.snd_lt_of_mem_zipIdx hin'
    dsimp only
    rw [List.getD_eq_getElem _ _ hi, List.getD_eq_getElem _ _ hj]
    constructor
    · intro hle
      rcases Nat.lt_or_ge i j with hlt | hge
      · exact (List.pairwise_iff_getElem.1 hrising i j hi hj hlt).le
      · obtain rfl := Nat.le_antisymm hle hge
        exact le_rfl
    · intro hle
      by_contra hlt
      exact absurd hle (not_le.2 (List.pairwise_iff_getElem.1 hrising j i hj hi (Nat.lt_of_not_le hlt)))

/-- The lines of a name are what is made of its parts alone. -/
theorem filter_sumGroups (facts : T → SumFacts) (parts : List T) (key : String) :
    (sumGroups facts parts).filter (·.any fun part => (facts part).key = key) =
      sumGroups facts (parts.filter fun part => (facts part).key = key) := by
  obtain ⟨e, hkept, he⟩ := @exists_reindex _ facts parts key
  have hfacts : ∀ p ∈ known facts parts, (facts p.part).key = p.key := by
    intro p hp
    obtain ⟨⟨part, i⟩, -, rfl⟩ := List.mem_map.1 hp
    rfl
  have hany : ∀ l ∈ sumLines (known facts parts),
      ((fun l : List T => l.any fun part => (facts part).key = key) ∘ fun l => l.map (·.part)) l =
        l.any (·.key = key) := by
    intro l hl
    rw [Function.comp, List.any_map, Bool.eq_iff_iff, List.any_eq_true, List.any_eq_true]
    refine exists_congr fun p => and_congr_right fun hp => ?_
    have hmem := (flatten_sumLines_perm _).mem_iff.1 (List.mem_flatten.2 ⟨l, hl, hp⟩)
    rw [Function.comp, decide_eq_true_iff, decide_eq_true_iff, hfacts p hmem]
  rw [sumGroups, List.filter_map, List.filter_congr hany, filter_sumLines, hkept, sumLines_reindex he, List.map_map,
    sumGroups]
  refine List.map_congr_left fun l _ => ?_
  rw [Function.comp, List.map_map]
  rfl

end

/-! ### Reading order -/

section
variable {ps : List (Part T)} {l : List (Part T)}

theorem nodup_sumLines (h : (ps.map (·.index)).Nodup) : (((sumLines ps).map (·.map (·.index))).flatten).Nodup := by
  rw [← List.map_flatten]
  exact ((flatten_sumLines_perm ps).map _).nodup_iff.2 h

theorem ne_nil_of_mem_sumLines (hl : l ∈ sumLines ps) : l ≠ [] := by
  obtain ⟨line, -, rfl⟩ := mem_sumLines.1 hl
  exact List.ne_nil_of_mem (Ranked.mem_byRank.2 line.first_mem)

theorem firstIndex_mem (hl : l ≠ []) : firstIndex l ∈ l.map (·.index) := by
  cases l with
  | nil => exact absurd rfl hl
  | cons p l => exact List.mem_cons_self

/-- The parts of a line stand in reading order. -/
theorem pairwise_of_mem_sumLines (h : (ps.map (·.index)).Nodup) (hl : l ∈ sumLines ps) :
    l.Pairwise fun p q => p.index < q.index := by
  have hnodup : (l.map (·.index)).Nodup :=
    (List.sublist_flatten_of_mem (List.mem_map_of_mem hl)).nodup (nodup_sumLines h)
  obtain ⟨line, -, rfl⟩ := mem_sumLines.1 hl
  have hsorted := Ranked.pairwise_byRank (fun p : Part T => p.index) line.rows
  exact (hsorted.and (List.pairwise_map.1 hnodup)).imp fun ⟨hle, hne⟩ => lt_of_le_of_ne hle hne

/-- The lines stand in the order of their first parts. -/
theorem pairwise_sumLines (h : (ps.map (·.index)).Nodup) :
    (sumLines ps).Pairwise fun l l' => firstIndex l < firstIndex l' := by
  have hdisjoint := List.pairwise_map.1 (List.nodup_flatten.1 (nodup_sumLines h)).2
  have hsorted : (sumLines ps).Pairwise fun l l' => firstIndex l ≤ firstIndex l' := Ranked.pairwise_byRank _ _
  refine (hsorted.and hdisjoint).imp_of_mem fun hl hl' ⟨hle, hdisj⟩ => lt_of_le_of_ne hle fun hsame => ?_
  exact hdisj (firstIndex_mem (ne_nil_of_mem_sumLines hl))
    (hsame ▸ firstIndex_mem (ne_nil_of_mem_sumLines hl'))

/-! ### Days of a line -/

/-- The parts of a name stand in the order of their days. -/
theorem due_le_of_sublist (h : [p, q].Sublist (ofName ps key)) : p.due.number ≤ q.due.number := by
  have hsorted : (ofName ps key).Pairwise fun p q => toLex (p.due.number, p.index) ≤ toLex (q.due.number, q.index) :=
    (Ranked.pairwise_byRank _ _).sublist List.filter_sublist
  have hle := List.rel_of_pairwise_cons (hsorted.sublist h) (List.mem_singleton_self q)
  rcases Prod.Lex.toLex_le_toLex.1 hle with hlt | ⟨heq, -⟩
  · exact hlt.le
  · exact heq.le

theorem key_of_mem_ofName (h : p ∈ ofName ps key) : p.key = key := of_decide_eq_true (List.mem_filter.1 h).2

/-- A part that is due at most a day after another one fits into its line. -/
theorem fits_of_nextDay (h : [p, q].Sublist (ofName ps key)) (hnext : nextDay p q = true) :
    fits fresh p q = true := by
  refine Bool.or_eq_true_iff.2 (.inr (decide_eq_true ?_))
  exact daysBetween_le (due_le_of_sublist h) (of_decide_eq_true hnext)

/-- What the code makes of a fresh name is what the calendar would make of it, where the days are read apart. -/
theorem cover_eq_of_readApart (hfresh : freshName ps key = true) (h : ReadApart ps key) :
    Cover.cover (fits (freshName ps)) (ofName ps key) = Cover.cover nextDay (ofName ps key) := by
  refine Cover.cover_congr (fun p q hpq hnext => fits_of_nextDay hpq hnext) ?_
  refine h.imp_of_mem_imp fun later earlier hlater _ hapart => ?_
  obtain ⟨line, hline, rfl⟩ := List.mem_map.1 hlater
  rw [fits, key_of_mem_ofName (Cover.first_mem hline), hfresh]
  exact decide_eq_false (not_le.2 hapart)

/-- The days of a fresh name are read apart if its lines hold no two parts more than a day apart. -/
theorem readApart_of_near (hfresh : freshName ps key = true)
    (h : ∀ line ∈ Cover.cover (fits (freshName ps)) (ofName ps key), ∀ q ∈ line.rest, nextDay line.first q = true) :
    ReadApart ps key := by
  have hsame := Cover.cover_of_near (fun p q hpq hnext => fits_of_nextDay hpq hnext) h
  rw [ReadApart, ← hsame, List.isChain_map]
  refine (Cover.isChain_cover _).imp_of_mem_imp fun later earlier hlater _ hapart => ?_
  rw [fits, key_of_mem_ofName (Cover.first_mem hlater), hfresh, Bool.not_true, Bool.false_or] at hapart
  exact not_le.1 (of_decide_eq_false hapart)

/-- The first days of a fresh name's lines are more than a day apart. -/
theorem pairwise_first (key : String) : (Cover.cover nextDay (ofName ps key)).Pairwise fun later earlier =>
    earlier.first.due.number + 1 < later.first.due.number := by
  let Apart (later earlier : Line (Part T)) : Prop := earlier.first.due.number + 1 < later.first.due.number
  have htrans : Trans Apart Apart Apart := ⟨fun hab hbc => hbc.trans ((Nat.lt_succ_self _).trans hab)⟩
  refine List.isChain_iff_pairwise.1 ((Cover.isChain_cover _).imp fun later earlier hapart => ?_)
  exact not_le.1 (of_decide_eq_false hapart)

/-- A name that is not fresh has one line. -/
theorem count_durable (hp : p ∈ ps) (hfresh : freshName ps p.key = false) : count p.key (sumLines ps) = 1 := by
  rw [count_sumLines]
  have hmem : p ∈ ofName ps p.key := List.mem_filter.2 ⟨Ranked.mem_byRank.2 hp, decide_eq_true rfl⟩
  have hin := (@Cover.flatMap_cover_perm _ (fits (freshName ps)) _).mem_iff.2 hmem
  have hchain := @Cover.isChain_cover _ (fits (freshName ps)) (ofName ps p.key)
  cases hcover : Cover.cover (fits (freshName ps)) (ofName ps p.key) with
  | nil =>
    rw [hcover] at hin
    cases hin
  | cons later lines =>
    cases lines with
    | nil => rfl
    | cons earlier lines =>
      rw [hcover, List.isChain_cons_cons] at hchain
      have hlater : later ∈ Cover.cover (fits (freshName ps)) (ofName ps p.key) := hcover ▸ List.mem_cons_self
      rw [fits, key_of_mem_ofName (Cover.first_mem hlater), hfresh] at hchain
      cases hchain.1

/-! ### The fewest lines -/

/-- Lines of one name are of a fresh one, and their first days are more than a day apart. -/
theorem pairwise_foldl (h : ∀ key, freshName ps key = true → ReadApart ps key) :
    ((ordered ps).foldl (addPart (freshName ps)) []).Pairwise fun later earlier =>
      later.first.key = earlier.first.key →
        freshName ps later.first.key = true ∧ earlier.first.due.number + 1 < later.first.due.number := by
  have hname (key : String) : (((ordered ps).foldl (addPart (freshName ps)) []).filter (·.first.key = key)).Pairwise
      fun later earlier => freshName ps key = true ∧ earlier.first.due.number + 1 < later.first.due.number := by
    rw [filter_foldl_addPart]
    change (Cover.cover _ (ofName ps key)).Pairwise _
    cases hfresh : freshName ps key with
    | true =>
      rw [cover_eq_of_readApart hfresh (h key hfresh)]
      exact (pairwise_first key).imp fun hapart => ⟨rfl, hapart⟩
    | false =>
      have hone : (Cover.cover (fits (freshName ps)) (ofName ps key)).length ≤ 1 := by
        cases hparts : ofName ps key with
        | nil => exact Nat.zero_le 1
        | cons p rest =>
          have hp : p ∈ ofName ps key := hparts ▸ List.mem_cons_self
          have hkey := key_of_mem_ofName hp
          have hcount := count_durable (Ranked.mem_byRank.1 (List.mem_filter.1 hp).1) (hkey ▸ hfresh)
          rw [count_sumLines, hkey] at hcount
          rw [← hparts, hcount]
      match hlines : Cover.cover (fits (freshName ps)) (ofName ps key), hone with
      | [], _ => exact .nil
      | [line], _ => exact List.pairwise_singleton _ _
      | _ :: _ :: _, hone => exact absurd hone (by simp)
  generalize (ordered ps).foldl (addPart (freshName ps)) [] = lines at hname
  induction lines with
  | nil => exact .nil
  | cons line lines ih =>
    refine List.pairwise_cons.2 ⟨fun earlier hearlier hkey => ?_, ih fun key => ?_⟩
    · have hpair := hname line.first.key
      rw [List.filter_cons_of_pos (by simp)] at hpair
      exact List.rel_of_pairwise_cons hpair (List.mem_filter.2 ⟨hearlier, decide_eq_true hkey.symm⟩)
    · exact (hname key).sublist ((List.sublist_cons_self _ _).filter _)

/-- No other lines that keep the rules are fewer, of any names. -/
theorem length_filter_le {other : List (List (Part T))} (h : ∀ key, freshName ps key = true → ReadApart ps key)
    (hother : Sums ps other) (name : String → Bool) :
    ((sumLines ps).filter (·.any (name ·.key))).length ≤ (other.filter (·.any (name ·.key))).length := by
  rw [length_filter_sumLines, ← List.length_map (·.first)]
  refine Cover.length_le_of_apart (fun p hp => ?_) ?_
  · obtain ⟨line, hline, rfl⟩ := List.mem_map.1 hp
    obtain ⟨hline, hname⟩ := List.mem_filter.1 hline
    have hmem : line.first ∈ ps := Ranked.mem_byRank.1
      ((flatMap_foldl_perm _).mem_iff.1 (List.mem_flatMap.2 ⟨line, hline, line.first_mem⟩))
    obtain ⟨l, hl, hin⟩ := List.mem_flatten.1 (hother.perm.mem_iff.2 hmem)
    exact ⟨l, List.mem_filter.2 ⟨hl, List.any_eq_true.2 ⟨_, hin, hname⟩⟩, hin⟩
  · refine List.pairwise_map.2 (((pairwise_foldl h).sublist List.filter_sublist).imp fun hapart l hl hlater hearlier => ?_)
    have hl := (List.mem_filter.1 hl).1
    obtain ⟨hfresh, hlt⟩ := hapart (hother.oneName l hl _ hlater _ hearlier)
    have hnear := hother.near l hl _ hearlier (hother.oneName l hl _ hlater _ hearlier ▸ hfresh) _ hlater
    omega

/-- The lines keep the rules where the days are read apart. -/
theorem sums_sumLines (h : ∀ key, freshName ps key = true → ReadApart ps key) : Sums ps (sumLines ps) where
  perm := flatten_sumLines_perm ps
  ne_nil hnil := ne_nil_of_mem_sumLines hnil rfl
  oneName l hl p hp q hq := by
    obtain ⟨line, hline, rfl⟩ := mem_sumLines.1 hl
    rw [key_of_mem_rows hline (Ranked.mem_byRank.1 hp), key_of_mem_rows hline (Ranked.mem_byRank.1 hq)]
  near l hl p hp hfresh q hq := by
    obtain ⟨line, hline, rfl⟩ := mem_sumLines.1 hl
    have hp := Ranked.mem_byRank.1 hp
    have hq := Ranked.mem_byRank.1 hq
    rw [key_of_mem_rows hline hp] at hfresh
    have hcover : line ∈ Cover.cover (fits (freshName ps)) (ofName ps line.first.key) := mem_foldl hline
    rw [cover_eq_of_readApart hfresh (h _ hfresh)] at hcover
    have hday {r : Part T} (hr : r ∈ line.rows) :
        line.first.due.number ≤ r.due.number ∧ r.due.number ≤ line.first.due.number + 1 := by
      rcases List.mem_cons.1 hr with rfl | hr
      · omega
      · obtain ⟨hnext, hsub⟩ := Cover.near_of_mem_rest hcover hr
        exact ⟨due_le_of_sublist hsub, of_decide_eq_true hnext⟩
    have hpday := hday hp
    have hqday := hday hq
    omega

end

end

/-- **Ingredient lines** are what they are to be exactly if `daysBetween` reads the first days of each fresh name's lines
apart. -/
theorem sumLists_iff {T : Type} (facts : T → SumFacts) (parts : List T) :
    sumGroups facts parts = (sumLines (known facts parts)).map (·.map (·.part)) ∧
    (Lists facts parts (sumLines (known facts parts)) ↔
      ∀ key, freshName (known facts parts) key = true → ReadApart (known facts parts) key) := by
  refine ⟨rfl, fun h key hfresh => ?_, fun h => ?_⟩
  · refine readApart_of_near hfresh fun line hline q hq => decide_eq_true ?_
    have hline : line ∈ (ordered (known facts parts)).foldl (addPart (freshName (known facts parts))) [] := by
      rw [ofName, ← filter_foldl_addPart] at hline
      exact (List.mem_filter.1 hline).1
    have hkey : line.first.key = key := key_of_mem_ofName (Cover.first_mem ‹_›)
    have hl := mem_sumLines.2 ⟨line, hline, rfl⟩
    exact h.near _ hl line.first (Ranked.mem_byRank.2 line.first_mem) (hkey ▸ hfresh) q
      (Ranked.mem_byRank.2 (List.mem_cons_of_mem _ hq))
  · refine ⟨sums_sumLines h, fun p hp hfresh => count_durable hp hfresh, fun other hother => ⟨?_, fun key => ?_⟩,
      fun l hl => pairwise_of_mem_sumLines (nodup_index parts) hl, pairwise_sumLines (nodup_index parts),
      filter_sumGroups facts parts⟩
    · have hall {lines : List (List (Part T))} (hnil : [] ∉ lines) :
          lines.filter (·.any fun _ => true) = lines := by
        refine List.filter_eq_self.2 fun l hl => ?_
        cases l with
        | nil => exact absurd hl hnil
        | cons p l => rfl
      have hle := length_filter_le h hother fun _ => true
      rwa [hall (sums_sumLines h).ne_nil, hall hother.ne_nil] at hle
    · exact length_filter_le h hother (· = key)

/-- From the year 100 on every day is read as it is, and the lines are what they are to be. -/
theorem lists_of_year_le {T : Type} {facts : T → SumFacts} {parts : List T}
    (h : ∀ part ∈ parts, 100 ≤ (facts part).due.year) : Lists facts parts (sumLines (known facts parts)) := by
  refine (sumLists_iff facts parts).2.2 fun key _ => ?_
  have hyear {line : Line (Part T)} (hline : line ∈ Cover.cover nextDay (ofName (known facts parts) key)) :
      utcDay line.first.due = line.first.due.number := by
    have hknown := Ranked.mem_byRank.1 (List.mem_filter.1 (Cover.first_mem hline)).1
    obtain ⟨⟨part, i⟩, hin, hfirst⟩ := List.mem_map.1 hknown
    rw [← hfirst]
    exact (utcDay_eq_iff _).2 (h part (List.fst_mem_of_mem_zipIdx hin))
  rw [ReadApart, List.isChain_map]
  refine (Cover.isChain_cover _).imp_of_mem_imp fun later earlier hlater hearlier hapart => ?_
  have hlt := not_le.1 (of_decide_eq_false hapart)
  rw [daysBetween, hyear hlater, hyear hearlier, freshSpanDays]
  omega

/-- Fresh cream of two years that `Date.UTC` takes for one. -/
def creams : List SumFacts :=
  [⟨"cream", ⟨50, 6, 1, by decide, by decide, by decide⟩, true⟩, ⟨"cream", ⟨1950, 6, 1, by decide, by decide, by decide⟩, true⟩]

/-- Cream for a day of the year 50 and cream for one of the year 1950 make one line. -/
theorem creams_join : ¬ ∀ parts : List SumFacts, Lists id parts (sumLines (known id parts)) := by
  intro h
  have hlines : sumLines (known id creams) = [known id creams] := by
    decide +kernel
  obtain ⟨p, q, hp, hq, hfresh, hapart⟩ : ∃ p q, p ∈ known id creams ∧ q ∈ known id creams ∧
      freshName (known id creams) p.key = true ∧ p.due.number + 1 < q.due.number :=
    ⟨_, _, List.mem_cons_self, List.mem_cons_of_mem _ List.mem_cons_self, by decide +kernel, by decide +kernel⟩
  have hnear := (h creams).near (known id creams) (hlines ▸ List.mem_singleton_self _) p hp hfresh q hq
  omega

end Meals

end JitPack
