import JitPack.Lib.Grouping
import JitPack.Lib.PostOrder

/-!
# The client's delete cascade

A delete takes with it every row that hangs off the deleted one, by a chain of the parent columns that the tables
declare. The rows are found a level at a time: each level is scanned for the children of what the level before found
(`scan_spec`). What is found is then put in post-order, so that a row stands after everything that hangs off it
(`cascadeOf_spec`).
-/

namespace JitPack

namespace Cascade

/-! ## Tables and rows -/

/-- `CascadeRow`: a row by its table and id. -/
structure CascadeRow where
  table : String
  id : String
  deriving DecidableEq

/-- `goesWith`: a parent column, and the table it refers to. -/
structure CascadeParent where
  column : String
  table : String

/-- A row as a store holds it: the columns that hold a text. -/
structure HeldRow where
  id : String
  fields : String → Option String

/-- `SpecifiedSink`: a table with its parent columns and its rows. -/
structure Sink where
  table : String
  cascadeParents : List CascadeParent
  rows : List HeldRow

/-- `RowSinks`: one sink for each table. -/
structure RowSinks where
  sinks : List Sink
  distinct : (sinks.map (·.table)).Nodup

/-- `ChildRef`. -/
structure ChildRef where
  table : String
  column : String

variable (sinks : RowSinks)

/-- `childrenOf`, of one parent table. -/
def childrenOf (parentTable : String) : List ChildRef :=
  sinks.sinks.flatMap fun sink =>
    (sink.cascadeParents.filter (·.table = parentTable)).map fun parent => ⟨sink.table, parent.column⟩

/-- `sinks[table]?.rows() ?? []`. -/
def rowsOf (table : String) : List HeldRow := ((sinks.sinks.find? (·.table = table)).map (·.rows)).getD []

/-! ## The walk, level by level -/

/-- What the scan of a level keeps: the children of each row, the rows found, and the next level by tables. -/
structure Scan where
  below : List (CascadeRow × CascadeRow)
  found : List CascadeRow
  next : List (String × List String)

/-- A row is in a level. -/
def InLevel (level : List (String × List String)) (row : CascadeRow) : Prop :=
  ∃ ids, (row.table, ids) ∈ level ∧ row.id ∈ ids

/-- The rows that hang off a level, each with the row it hangs off. -/
def hits (level : List (String × List String)) : List (CascadeRow × CascadeRow) :=
  level.flatMap fun (parentTable, parentIds) =>
    (childrenOf sinks parentTable).flatMap fun child =>
      (rowsOf sinks child.table).filterMap fun row =>
        match row.fields child.column with
        | some parentId => if parentId ∈ parentIds then some (⟨parentTable, parentId⟩, ⟨child.table, row.id⟩) else none
        | none => none

/-- What is done with a row that hangs off a level. -/
def Scan.add (s : Scan) (hit : CascadeRow × CascadeRow) : Scan :=
  let below := s.below ++ [hit]
  if hit.2 ∈ s.found then { s with below := below }
  else ⟨below, s.found ++ [hit.2], Grouping.upsert [hit.2.id] (· ++ [hit.2.id]) hit.2.table s.next⟩

/-- One round of the outer loop: `next` starts empty. -/
def Scan.round (s : Scan) : Scan := (hits sinks s.next).foldl Scan.add { s with next := [] }

/-- Every row of the sinks. -/
def allRows : List CascadeRow := sinks.sinks.flatMap fun sink => sink.rows.map fun row => ⟨sink.table, row.id⟩

/-- How far the walk can still go. -/
def Scan.ahead (s : Scan) : ℕ :=
  2 * ((allRows sinks).filter (· ∉ s.found)).length + if s.next = [] then 0 else 1

section
variable {sinks} {level : List (String × List String)} {p c : CascadeRow} {s : Scan}
  {found : List (CascadeRow × CascadeRow)}

/-- The row `child` holds the id of `parent` in a column that its table declares as a parent column. -/
def HangsOff (sinks : RowSinks) (parent child : CascadeRow) : Prop :=
  ∃ sink ∈ sinks.sinks, sink.table = child.table ∧ ∃ ref ∈ sink.cascadeParents, ref.table = parent.table ∧
    ∃ row ∈ sink.rows, row.id = child.id ∧ row.fields ref.column = some parent.id

theorem rowsOf_table {sink : Sink} (h : sink ∈ sinks.sinks) : rowsOf sinks sink.table = sink.rows := by
  cases hfind : sinks.sinks.find? (·.table = sink.table) with
  | none => exact absurd (List.find?_eq_none.1 hfind sink h) (by simp)
  | some sink' =>
    have hsink' := List.mem_of_find?_eq_some hfind
    have htable : sink'.table = sink.table := by simpa using List.find?_some hfind
    rw [rowsOf, hfind, List.inj_on_of_nodup_map sinks.distinct hsink' h htable]
    rfl

theorem mem_hits : (p, c) ∈ hits sinks level ↔ InLevel level p ∧ HangsOff sinks p c := by
  simp only [hits, childrenOf, List.mem_flatMap, List.mem_filterMap, List.mem_map, List.mem_filter, decide_eq_true_eq,
    Prod.exists]
  constructor
  · rintro ⟨parentTable, parentIds, hlevel, _, ⟨sink, hsink, ref, ⟨href, rfl⟩, rfl⟩, row, hrow, hhit⟩
    dsimp only at hrow hhit
    rw [rowsOf_table hsink] at hrow
    split at hhit
    · next parentId hfield =>
      split at hhit
      · next hmem =>
        cases hhit
        exact ⟨⟨parentIds, hlevel, hmem⟩, sink, hsink, rfl, ref, href, rfl, row, hrow, rfl, hfield⟩
      · cases hhit
    · cases hhit
  · rintro ⟨⟨ids, hlevel, hid⟩, sink, hsink, htable, ref, href, hparent, row, hrow, hrid, hfield⟩
    refine ⟨p.table, ids, hlevel, _, ⟨sink, hsink, ref, ⟨href, hparent⟩, rfl⟩, row, ?_, ?_⟩
    · rwa [rowsOf_table hsink]
    · dsimp only
      rw [hfield, htable, hrid]
      exact if_pos hid

theorem HangsOff.mem_allRows (h : HangsOff sinks p c) : c ∈ allRows sinks := by
  obtain ⟨sink, hsink, htable, ref, -, -, row, hrow, hid, -⟩ := h
  refine List.mem_flatMap.2 ⟨sink, hsink, List.mem_map.2 ⟨row, hrow, ?_⟩⟩
  rw [htable, hid]

theorem inLevel_upsert : InLevel (Grouping.upsert [c.id] (· ++ [c.id]) c.table level) p ↔ InLevel level p ∨ p = c := by
  have heq : p = c ↔ p.table = c.table ∧ p.id = c.id := by
    cases p
    cases c
    simp
  unfold Grouping.upsert
  split
  case isTrue hkey =>
    obtain ⟨⟨t, ids⟩, hentry, ht⟩ := List.mem_map.1 hkey
    obtain rfl : t = c.table := ht
    constructor
    · rintro ⟨ids', hmem, hid⟩
      obtain ⟨⟨t', ids''⟩, hold, he⟩ := List.mem_map.1 hmem
      dsimp only at he
      split at he
      · next htable =>
        cases he
        rcases List.mem_append.1 hid with hid | hid
        · exact .inl ⟨ids'', hold, hid⟩
        · exact .inr (heq.2 ⟨htable, List.mem_singleton.1 hid⟩)
      · cases he
        exact .inl ⟨_, hold, hid⟩
    · rintro (⟨ids', hmem, hid⟩ | rfl)
      · by_cases htable : p.table = c.table
        · exact ⟨ids' ++ [c.id], List.mem_map.2 ⟨_, hmem, by simp [htable]⟩, List.mem_append_left _ hid⟩
        · exact ⟨ids', List.mem_map.2 ⟨_, hmem, by simp [htable]⟩, hid⟩
      · exact ⟨ids ++ [p.id], List.mem_map.2 ⟨_, hentry, by simp⟩, by simp⟩
  case isFalse hkey =>
    constructor
    · rintro ⟨ids, hmem, hid⟩
      rcases List.mem_append.1 hmem with hmem | hmem
      · exact .inl ⟨ids, hmem, hid⟩
      · obtain ⟨htable, rfl⟩ := Prod.mk.inj (List.mem_singleton.1 hmem)
        exact .inr (heq.2 ⟨htable, List.mem_singleton.1 hid⟩)
    · rintro (⟨ids, hmem, hid⟩ | rfl)
      · exact ⟨ids, List.mem_append_left _ hmem, hid⟩
      · exact ⟨[p.id], by simp, by simp⟩

/-- A round files every hit, and keeps for the next round what it finds for the first time. -/
theorem foldl_add (hs : List (CascadeRow × CascadeRow)) (s : Scan) :
    (hs.foldl Scan.add s).below = s.below ++ hs ∧
      (∀ y, y ∈ (hs.foldl Scan.add s).found ↔ y ∈ s.found ∨ ∃ p, (p, y) ∈ hs) ∧
      ∀ y, InLevel (hs.foldl Scan.add s).next y ↔ InLevel s.next y ∨ y ∉ s.found ∧ ∃ p, (p, y) ∈ hs := by
  induction hs generalizing s with
  | nil => simp
  | cons hit hs ih =>
    obtain ⟨q, d⟩ := hit
    obtain ⟨hbelow, hfound, hnext⟩ := ih (s.add (q, d))
    have hhit : ∀ y, (∃ p, (p, y) ∈ (q, d) :: hs) ↔ y = d ∨ ∃ p, (p, y) ∈ hs := fun y => by
      simp only [List.mem_cons, Prod.mk.injEq, exists_or]
      simp
    simp only [List.foldl_cons, hbelow, hfound, hnext, hhit]
    unfold Scan.add
    dsimp only
    by_cases hd : d ∈ s.found
    · rw [if_pos hd]
      refine ⟨by simp, fun y => ?_, fun y => ?_⟩
      · constructor
        · exact Or.imp_right .inr
        · rintro (hy | rfl | hy)
          exacts [.inl hy, .inl hd, .inr hy]
      · refine or_congr_right (and_congr_right fun hy => ?_)
        exact ⟨.inr, fun h => h.resolve_left fun he => hy (he ▸ hd)⟩
    · rw [if_neg hd]
      refine ⟨by simp, fun y => ?_, fun y => ?_⟩
      · simp only [List.mem_append, List.mem_singleton, or_assoc]
      · simp only [inLevel_upsert, List.mem_append, List.mem_singleton, not_or]
        constructor
        · rintro ((hy | rfl) | ⟨⟨hy, -⟩, hhs⟩)
          exacts [.inl hy, .inr ⟨hd, .inl rfl⟩, .inr ⟨hy, .inr hhs⟩]
        · rintro (hy | ⟨hy, hyd | hhs⟩)
          · exact .inl (.inl hy)
          · exact .inl (.inr hyd)
          · by_cases hyd : y = d
            · exact .inl (.inr hyd)
            · exact .inr ⟨⟨hy, hyd⟩, hhs⟩

/-- A round that finds nothing new leaves no next level. -/
theorem next_foldl_add (hs : List (CascadeRow × CascadeRow)) (s : Scan) (h : ∀ hit ∈ hs, hit.2 ∈ s.found) :
    (hs.foldl Scan.add s).next = s.next := by
  induction hs generalizing s with
  | nil => rfl
  | cons hit hs ih =>
    have hadd : s.add hit = { s with below := s.below ++ [hit] } := if_pos (h hit List.mem_cons_self)
    rw [List.foldl_cons, hadd]
    exact ih { s with below := s.below ++ [hit] } fun hit' hhit' => h hit' (List.mem_cons_of_mem _ hhit')

theorem mem_found_round {y : CascadeRow} : y ∈ (s.round sinks).found ↔
    y ∈ s.found ∨ ∃ p, InLevel s.next p ∧ HangsOff sinks p y := by
  rw [Scan.round, (foldl_add _ _).2.1]
  exact or_congr_right (exists_congr fun p => mem_hits)

theorem inLevel_round {y : CascadeRow} : InLevel (s.round sinks).next y ↔
    y ∉ s.found ∧ ∃ p, InLevel s.next p ∧ HangsOff sinks p y := by
  rw [Scan.round, (foldl_add _ _).2.2, or_iff_right (by simp [InLevel])]
  exact and_congr_right fun _ => exists_congr fun p => mem_hits

theorem mem_below_round : (p, c) ∈ (s.round sinks).below ↔
    (p, c) ∈ s.below ∨ InLevel s.next p ∧ HangsOff sinks p c := by
  rw [Scan.round, (foldl_add _ _).1, List.mem_append, mem_hits]

/-- A round that leaves a next level has found a row. -/
theorem ahead_round (h : s.next ≠ []) : (s.round sinks).ahead sinks < s.ahead sinks := by
  have hsub : ((allRows sinks).filter (· ∉ (s.round sinks).found)).Sublist ((allRows sinks).filter (· ∉ s.found)) :=
    List.monotone_filter_right _ fun y hy => by
      rw [decide_eq_true_eq] at hy ⊢
      exact fun hs => hy (mem_found_round.2 (.inl hs))
  unfold Scan.ahead
  rw [if_neg h]
  by_cases hnext : (s.round sinks).next = []
  · rw [if_pos hnext]
    have := hsub.length_le
    omega
  · have hnew : ∃ hit ∈ hits sinks s.next, hit.2 ∉ s.found := by
      by_contra hold
      push Not at hold
      exact hnext (next_foldl_add _ _ hold)
    obtain ⟨⟨p, y⟩, hhit, hy⟩ := hnew
    have hhangs := mem_hits.1 hhit
    have hless : ((allRows sinks).filter (· ∉ (s.round sinks).found)).length <
        ((allRows sinks).filter (· ∉ s.found)).length := by
      refine lt_of_le_of_ne hsub.length_le fun hlen => ?_
      have hmem : y ∈ (allRows sinks).filter (· ∉ s.found) :=
        List.mem_filter.2 ⟨hhangs.2.mem_allRows, decide_eq_true hy⟩
      rw [← hsub.eq_of_length hlen, List.mem_filter, decide_eq_true_eq] at hmem
      exact hmem.2 (mem_found_round.2 (.inr ⟨p, hhangs⟩))
    rw [if_neg hnext]
    omega

end

/-- The outer loop. -/
def levels (s : Scan) : Scan :=
  if _h : s.next = [] then s else levels (s.round sinks)
termination_by s.ahead sinks
decreasing_by exact ahead_round _h

/-- `below.get(keyOf(row)) ?? []`. -/
def childrenIn (below : List (CascadeRow × CascadeRow)) (row : CascadeRow) : List CascadeRow :=
  (below.filter (·.1 = row)).map (·.2)

/-- `cascadeOf`. -/
def cascadeOf (root : CascadeRow) : Option (List CascadeRow) :=
  let walked := levels sinks ⟨[], [root], [(root.table, [root.id])]⟩
  PostOrder.walk (childrenIn walked.below) ((root :: allRows sinks).length + 1) root

section
variable {sinks} {root p c y : CascadeRow} {s : Scan}

/-- What holds of the walk between two rounds: the rows found can be reached, and all but those of the next level have
their children filed. -/
structure Walking (sinks : RowSinks) (root : CascadeRow) (s : Scan) : Prop where
  start : root ∈ s.found
  reached : ∀ y ∈ s.found, Relation.ReflTransGen (HangsOff sinks) root y
  level : ∀ y, InLevel s.next y → y ∈ s.found
  below : ∀ p c, (p, c) ∈ s.below ↔ (p ∈ s.found ∧ ¬ InLevel s.next p) ∧ HangsOff sinks p c
  filed : ∀ p c, (p, c) ∈ s.below → c ∈ s.found

theorem Walking.round (h : Walking sinks root s) : Walking sinks root (s.round sinks) where
  start := mem_found_round.2 (.inl h.start)
  reached y hy := by
    rcases mem_found_round.1 hy with hy | ⟨p, hp, hpy⟩
    · exact h.reached y hy
    · exact (h.reached p (h.level p hp)).tail hpy
  level y hy := mem_found_round.2 (.inr (inLevel_round.1 hy).2)
  below p c := by
    rw [mem_below_round, h.below, inLevel_round, mem_found_round]
    have hlevel := h.level p
    by_cases hl : InLevel s.next p
    · simp [hl, hlevel hl]
    · by_cases hp : p ∈ s.found <;> simp [hl, hp]
  filed p c hpc := by
    rw [mem_found_round]
    exact (mem_below_round.1 hpc).imp (h.filed p c) fun hpc => ⟨p, hpc⟩

theorem Walking.levels (h : Walking sinks root s) :
    Walking sinks root (levels sinks s) ∧ (Cascade.levels sinks s).next = [] := by
  induction s using levels.induct sinks with
  | case1 s hnil =>
    rw [Cascade.levels, dif_pos hnil]
    exact ⟨h, hnil⟩
  | case2 s hne ih =>
    rw [Cascade.levels, dif_neg hne]
    exact ih h.round

/-- The walk files the children of the root and of everything that can be reached from it. -/
theorem mem_childrenIn : y ∈ childrenIn (levels sinks ⟨[], [root], [(root.table, [root.id])]⟩).below p ↔
    Relation.ReflTransGen (HangsOff sinks) root p ∧ HangsOff sinks p y := by
  have hstart : Walking sinks root ⟨[], [root], [(root.table, [root.id])]⟩ := by
    have hlevel : ∀ y, InLevel [(root.table, [root.id])] y ↔ y = root := by
      rintro ⟨t, i⟩
      cases root
      simp [InLevel]
    refine ⟨by simp, fun y hy => ?_, fun y hy => ?_, fun p c => ?_, by simp⟩
    · rw [List.mem_singleton.1 hy]
    · simpa using (hlevel y).1 hy
    · simp [hlevel]
  obtain ⟨hwalk, hdone⟩ := hstart.levels
  have hbelow : ∀ p c, (p, c) ∈ (levels sinks ⟨[], [root], [(root.table, [root.id])]⟩).below ↔
      p ∈ (levels sinks ⟨[], [root], [(root.table, [root.id])]⟩).found ∧ HangsOff sinks p c := fun p c => by
    rw [hwalk.below, hdone]
    simp [InLevel]
  have hfound : ∀ p, p ∈ (levels sinks ⟨[], [root], [(root.table, [root.id])]⟩).found ↔
      Relation.ReflTransGen (HangsOff sinks) root p := by
    refine fun p => ⟨hwalk.reached p, fun hp => ?_⟩
    induction hp with
    | refl => exact hwalk.start
    | tail _ hbc ih => exact hwalk.filed _ _ ((hbelow _ _).2 ⟨ih, hbc⟩)
  rw [childrenIn, List.mem_map, ← hfound]
  constructor
  · rintro ⟨⟨q, d⟩, hmem, rfl⟩
    obtain ⟨hfiled, hq⟩ := List.mem_filter.1 hmem
    obtain rfl : q = p := of_decide_eq_true hq
    exact (hbelow _ _).1 hfiled
  · exact fun h => ⟨(p, y), List.mem_filter.2 ⟨(hbelow _ _).2 h, by simp⟩, rfl⟩

theorem transGen_childrenIn (x : CascadeRow) :
    Relation.TransGen (PostOrder.Leads (childrenIn (levels sinks ⟨[], [root], [(root.table, [root.id])]⟩).below)) root x ↔
      Relation.TransGen (HangsOff sinks) root x := by
  constructor
  · exact fun h => h.lift id fun a b hab => (mem_childrenIn.1 hab).2
  · intro h
    induction h with
    | single h => exact .single (mem_childrenIn.2 ⟨.refl, h⟩)
    | tail hab hbc ih => exact ih.tail (mem_childrenIn.2 ⟨hab.to_reflTransGen, hbc⟩)

/-- **The cascade of a delete ends, and names each row that can be reached from the root along the parent columns once,
never the root; and unless the rows named are on a cycle, each stands after the rows that hang off it.** -/
theorem cascadeOf_spec (sinks : RowSinks) (root : CascadeRow) :
    ∃ rows, cascadeOf sinks root = some rows ∧ rows.Nodup ∧
      (∀ row, row ∈ rows ↔ row ≠ root ∧ Relation.TransGen (HangsOff sinks) root row) ∧
      ((∀ row, ¬ Relation.TransGen (fun a b => HangsOff sinks a b ∧ a ∈ rows ∧ b ∈ rows) row row) →
        ∀ pre row post, rows = pre ++ row :: post → ∀ child ∈ rows, HangsOff sinks row child → child ∈ pre) := by
  have hclosed : ∀ x ∈ root :: allRows sinks,
      childrenIn (levels sinks ⟨[], [root], [(root.table, [root.id])]⟩).below x ⊆ root :: allRows sinks :=
    fun x _ y hy => List.mem_cons_of_mem _ (mem_childrenIn.1 hy).2.mem_allRows
  obtain ⟨rows, hrows, hwalked⟩ := PostOrder.walk_spec hclosed List.mem_cons_self (Nat.lt_succ_self _)
  have hmem : ∀ row, row ∈ rows ↔ row ≠ root ∧ Relation.TransGen (HangsOff sinks) root row := fun row => by
    rw [hwalked.mem_iff, transGen_childrenIn]
  refine ⟨rows, hrows, hwalked.nodup, hmem, fun hacyclic pre row post hsplit child hchild hhangs => ?_⟩
  have hrow : row ∈ rows := by simp [hsplit]
  exact hwalked.before
    (fun x hx => hacyclic x (hx.lift id fun a b hab => ⟨(mem_childrenIn.1 hab.1).2, hab.2⟩)) hsplit
    (mem_childrenIn.2 ⟨((hmem row).1 hrow).2.to_reflTransGen, hhangs⟩) hchild

end

end Cascade

end JitPack
