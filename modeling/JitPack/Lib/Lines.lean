import JitPack.Lib.Grouping

/-!
# Lines of rows

Rows that have one key make a line, which is never empty, and the lines come in the order of their first rows. Every
row is in one line (`flatMap_rows_perm`). The first row of each key alone is what `firsts` keeps: its keys are distinct
(`pairwise_firsts`), and no key is lost (`exists_mem_firsts`).
-/

namespace Lines

variable {γ κ : Type*} [DecidableEq κ]

/-- Rows, at least one. -/
structure Line (γ : Type*) where
  first : γ
  rest : List γ

/-- The rows of a line. -/
def Line.rows (line : Line γ) : List γ := line.first :: line.rest

/-- The line with one more row. -/
def Line.push (line : Line γ) (row : γ) : Line γ := { line with rest := line.rest ++ [row] }

variable (key : γ → κ)

/-- The rows, gathered by their keys. -/
def lines (rows : List γ) : List (Line γ) := (Grouping.group key (fun row => ⟨row, []⟩) Line.push rows).map (·.2)

/-- The first row of each key. -/
def firsts (rows : List γ) : List γ :=
  (rows.zipIdx.filter fun entry => rows.findIdx? (key · = key entry.1) = some entry.2).map (·.1)

variable {key} {rows : List γ} {line : Line γ} {row : γ}

theorem Line.first_mem (line : Line γ) : line.first ∈ line.rows := List.mem_cons_self

theorem foldl_push (first : γ) (rest rows : List γ) :
    rows.foldl Line.push ⟨first, rest⟩ = ⟨first, rest ++ rows⟩ := by
  induction rows generalizing rest with
  | nil => simp
  | cons row rows ih => simp [Line.push, ih]

/-- The entry of a key is its rows. -/
theorem gather_eq_some {cs : List γ} :
    Grouping.gather (fun row => (⟨row, []⟩ : Line γ)) Line.push cs = some line ↔ cs = line.rows := by
  cases cs with
  | nil => simp [Grouping.gather, Line.rows]
  | cons row cs =>
    rw [Grouping.gather, foldl_push, List.nil_append, Option.some_inj, Line.rows, List.cons.injEq]
    exact ⟨fun h => h ▸ ⟨rfl, rfl⟩, fun h => by rw [h.1, h.2]⟩

/-- A line is the rows of the key of its first one. -/
theorem mem_lines : line ∈ lines key rows ↔ rows.filter (key · = key line.first) = line.rows := by
  unfold lines
  constructor
  · intro h
    obtain ⟨⟨k, line⟩, hmem, rfl⟩ := List.mem_map.1 h
    have hrows := gather_eq_some.1 (Grouping.mem_group.1 hmem)
    have hfirst : line.first ∈ rows.filter (key · = k) := hrows ▸ line.first_mem
    rw [of_decide_eq_true (List.mem_filter.1 hfirst).2]
    exact hrows
  · intro h
    exact List.mem_map.2 ⟨(key line.first, line), Grouping.mem_group.2 (gather_eq_some.2 h), rfl⟩

theorem mem_rows (h : line ∈ lines key rows) : row ∈ line.rows ↔ row ∈ rows ∧ key row = key line.first := by
  rw [← mem_lines.1 h, List.mem_filter, decide_eq_true_iff]

theorem exists_mem_lines (h : row ∈ rows) : ∃ line ∈ lines key rows, row ∈ line.rows := by
  have hmem : row ∈ rows.filter (key · = key row) := List.mem_filter.2 ⟨h, decide_eq_true rfl⟩
  obtain ⟨line, hline⟩ : ∃ line : Line γ, line.rows = rows.filter (key · = key row) := by
    cases hrows : rows.filter (key · = key row) with
    | nil => rw [hrows] at hmem; cases hmem
    | cons first rest => exact ⟨⟨first, rest⟩, rfl⟩
  have hfirst : key line.first = key row := by
    have hin := line.first_mem
    rw [hline] at hin
    exact of_decide_eq_true (List.mem_filter.1 hin).2
  exact ⟨line, mem_lines.2 (by rw [hfirst, hline]), hline ▸ hmem⟩

/-- The lines are told apart by their keys. -/
theorem keys_lines (rows : List γ) : (lines key rows).map (key ·.first) = Insertion.ofList (rows.map key) := by
  rw [← @Grouping.keys_group _ _ _ _ key (fun row => (⟨row, []⟩ : Line γ)) Line.push, lines, List.map_map]
  refine List.map_congr_left fun entry hentry => ?_
  have hrows := gather_eq_some.1 (Grouping.mem_group.1 hentry)
  have hfirst : entry.2.first ∈ rows.filter (key · = entry.1) := hrows ▸ entry.2.first_mem
  exact of_decide_eq_true (List.mem_filter.1 hfirst).2

/-- **Every row is in one line.** -/
theorem flatMap_rows_perm (rows : List γ) : ((lines key rows).flatMap (·.rows)).Perm rows := by
  have hlines : (lines key rows).flatMap (·.rows) =
      (Insertion.ofList (rows.map key)).flatMap fun k => rows.filter (key · = k) := by
    rw [← keys_lines, List.flatMap_map]
    exact List.flatMap_congr fun line hline => (mem_lines.1 hline).symm
  rw [hlines]
  refine Grouping.flatMap_filter_perm key (Insertion.nodup_ofList _) fun row hrow => ?_
  exact Insertion.mem_ofList.2 (List.mem_map_of_mem hrow)

theorem mem_firsts : row ∈ firsts key rows ↔
    ∃ i : ℕ, rows[i]? = some row ∧ rows.findIdx? (key · = key row) = some i := by
  simp only [firsts, List.mem_map, List.mem_filter, Prod.exists, List.mem_zipIdx_iff_getElem?, decide_eq_true_eq]
  constructor
  · rintro ⟨row', i, ⟨hrow, hfirst⟩, rfl⟩
    exact ⟨i, hrow, hfirst⟩
  · rintro ⟨i, hrow, hfirst⟩
    exact ⟨row, i, ⟨hrow, hfirst⟩, rfl⟩

theorem mem_of_mem_firsts (h : row ∈ firsts key rows) : row ∈ rows := by
  obtain ⟨i, hrow, -⟩ := mem_firsts.1 h
  exact List.mem_of_getElem? hrow

/-- The first rows have distinct keys. -/
theorem pairwise_firsts (rows : List γ) : (firsts key rows).Pairwise fun a b => key a ≠ key b := by
  have hindex : rows.zipIdx.Pairwise fun a b => a.2 ≠ b.2 := by
    have hnodup : (rows.zipIdx.map (·.2)).Nodup := by
      rw [List.zipIdx_map_snd]
      exact List.nodup_range'
    exact List.pairwise_map.1 hnodup
  refine List.pairwise_map.2 (List.Pairwise.imp_of_mem ?_ (hindex.filter _))
  intro a b ha hb hne hkey
  have ha := of_decide_eq_true (List.mem_filter.1 ha).2
  have hb := of_decide_eq_true (List.mem_filter.1 hb).2
  rw [hkey, hb] at ha
  exact hne (Option.some_inj.1 ha).symm

/-- No key is lost. -/
theorem exists_mem_firsts (h : row ∈ rows) : ∃ row' ∈ firsts key rows, key row' = key row := by
  cases hfind : rows.findIdx? (key · = key row) with
  | none => exact absurd rfl (of_decide_eq_false (List.findIdx?_eq_none_iff.1 hfind row h))
  | some i =>
    obtain ⟨hi, hkey, -⟩ := List.findIdx?_eq_some_iff_getElem.1 hfind
    have hkey : key rows[i] = key row := of_decide_eq_true hkey
    exact ⟨rows[i], mem_firsts.2 ⟨i, List.getElem?_eq_getElem hi, by rw [hkey, hfind]⟩, hkey⟩

end Lines
