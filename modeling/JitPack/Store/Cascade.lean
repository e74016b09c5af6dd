import JitPack.Store.Gate

/-!
# What a delete takes along

The database removes whatever hangs on the deleted row by a chain of cascading references
(`Db.mem_removed`). The registry names children by queries that somebody wrote beside the schema.
Each query follows cascading references (`cascades_follow`), so what the registry names is removed
(`Db.cascadeChildren_removed`). The converse is another matter: the registry goes two references
deep, the database to the end.
-/

namespace JitPack

namespace Db

variable {db db' : Db} {key k parent child : Key} {row : StoredRow}

/-! ## Removal -/

/-- The row `child` is there and hangs on `parent`. -/
def Hangs (db : Db) (parent child : Key) : Prop := db.hangsOn parent child = true

theorem hangs_iff : db.Hangs parent child ↔ ∃ row, db.rows.lookup child = some row ∧
    refersTo child.table row.fields .cascade parent = true := by
  unfold Hangs hangsOn
  cases db.rows.lookup child <;> simp

theorem Hangs.present (h : db.Hangs parent child) : (db.rows.lookup child).isSome := by
  obtain ⟨row, hrow, -⟩ := hangs_iff.1 h
  rw [hrow]
  rfl

theorem refersTo_iff {t : Table} {fields : String → Value} {a : OnDelete} :
    refersTo t fields a parent = true ↔
      ∃ c ∈ t.columns, c.references = some ⟨.table parent.table, a⟩ ∧ fields c.name = .str parent.id := by
  simp [refersTo]

theorem leads_iff : Closure.Leads db.hangsOn db.rows.keys parent child ↔ db.Hangs parent child := by
  refine ⟨And.right, fun h => ⟨?_, h⟩⟩
  exact AList.mem_keys.1 (AList.lookup_isSome.1 h.present)

/-- A delete removes what can be reached along the cascading references. -/
theorem mem_removed : k ∈ db.removed key ↔ Relation.ReflTransGen db.Hangs key k := by
  have hleads : Closure.Leads db.hangsOn db.rows.keys = db.Hangs := by
    funext x y
    exact propext leads_iff
  rw [removed, Closure.mem_closure, hleads]
  simp

theorem self_mem_removed : key ∈ db.removed key := mem_removed.2 .refl

/-- What a delete of a row that is there removes was there. -/
theorem removed_present (hkey : (db.rows.lookup key).isSome) (h : k ∈ db.removed key) :
    (db.rows.lookup k).isSome := by
  rcases (mem_removed.1 h).cases_tail with rfl | ⟨x, -, hx⟩
  · exact hkey
  · exact hx.present

/-- A row is gone after a delete if the delete removes it. -/
theorem deleteRow_gone (hkey : (db.rows.lookup key).isSome) (h : deleteRow key db = .ok db') :
    db'.rows.lookup k = none ↔ db.rows.lookup k = none ∨ k ∈ db.removed key := by
  rw [deleteRow_lookup h, if_pos hkey]
  cases hk : db.rows.lookup k with
  | none => simp
  | some row =>
    unfold leftOf
    by_cases hr : k ∈ db.removed key <;> simp [hr]

end Db

/-! ## The registry -/

/-- The column is a reference that takes a row of the table along with its parent. -/
def Table.hangsBy (child : Table) (column : String) (parent : Table) : Bool :=
  child.columns.any fun c => c.name = column && c.references = some ⟨.table parent, .cascade⟩

/-- The query follows cascading references down from the parent table to the child table. -/
def Where.follows (parent child : Table) : Where → Bool
  | .eq column => child.hangsBy column parent
  | .within column t parentColumn => child.hangsBy column t && t.hangsBy parentColumn parent
  | .or a b => a.follows parent child && b.follows parent child

theorem cascades_follow : ∀ t : Table, ∀ q ∈ t.cascades, q.cond.follows t q.table = true := by
  decide +kernel

namespace Db

variable {db : Db} {key k parent child : Key} {row : StoredRow}

theorem Hangs.of_column {column : String} (hrow : db.rows.lookup child = some row)
    (hc : child.table.hangsBy column parent.table = true) (hv : row.fields column = .str parent.id) :
    db.Hangs parent child := by
  obtain ⟨c, hmem, hcol⟩ := List.any_eq_true.1 hc
  simp only [Bool.and_eq_true, decide_eq_true_eq] at hcol
  obtain ⟨rfl, href⟩ := hcol
  exact hangs_iff.2 ⟨row, hrow, refersTo_iff.2 ⟨c, hmem, href, hv⟩⟩

/-- What a query finds hangs on the parent, by one reference or by two. -/
theorem hangs_of_holds {q : Where} (hrow : db.rows.lookup k = some row)
    (hf : q.follows key.table k.table = true) (hq : q.holds db key.id row = true) :
    Relation.TransGen db.Hangs key k := by
  induction q with
  | eq column =>
    exact .single (.of_column hrow hf (of_decide_eq_true hq))
  | within column t parentColumn =>
    simp only [Where.follows, Bool.and_eq_true] at hf
    simp only [Where.holds] at hq
    split at hq
    · next x hx =>
      split at hq
      · next middle hmiddle =>
        have hupper : db.Hangs key ⟨t, x⟩ := .of_column hmiddle hf.2 (of_decide_eq_true hq)
        exact .tail (.single hupper) (.of_column hrow hf.1 hx)
      · cases hq
    · cases hq
  | or a b iha ihb =>
    simp only [Where.follows, Bool.and_eq_true] at hf
    simp only [Where.holds, Bool.or_eq_true] at hq
    exact hq.elim (iha hf.1) (ihb hf.2)

theorem mem_select {t : Table} {p : StoredRow → Bool} {id : String} :
    id ∈ db.select t p ↔ ∃ row, db.rows.lookup ⟨t, id⟩ = some row ∧ p row = true := by
  simp only [select, List.mem_map, List.mem_filter, Bool.and_eq_true, decide_eq_true_eq]
  constructor
  · rintro ⟨⟨⟨t', id'⟩, row⟩, ⟨hmem, rfl, hp⟩, rfl⟩
    exact ⟨row, Assoc.mem_entries.1 hmem, hp⟩
  · rintro ⟨row, hrow, hp⟩
    exact ⟨⟨⟨t, id⟩, row⟩, ⟨Assoc.mem_entries.2 hrow, rfl, hp⟩, rfl⟩

/-- What the registry names for a delete of `key`. -/
theorem mem_cascadeChildren : k ∈ db.cascadeChildren key ↔ ∃ q ∈ key.table.cascades,
    q.table = k.table ∧ ∃ row, db.rows.lookup k = some row ∧ q.cond.holds db key.id row = true := by
  simp only [cascadeChildren, List.mem_flatMap, List.mem_map]
  constructor
  · rintro ⟨q, hq, id, hid, rfl⟩
    obtain ⟨row, hrow, hp⟩ := mem_select.1 hid
    exact ⟨q, hq, rfl, row, hrow, hp⟩
  · rintro ⟨q, hq, ht, row, hrow, hp⟩
    obtain ⟨t, id⟩ := k
    obtain rfl : q.table = t := ht
    exact ⟨q, hq, id, mem_select.2 ⟨row, hrow, hp⟩, rfl⟩

/-- What the registry names hangs on the parent. -/
theorem cascadeChildren_hang (h : k ∈ db.cascadeChildren key) :
    Relation.TransGen db.Hangs key k := by
  obtain ⟨q, hq, ht, row, hrow, hp⟩ := mem_cascadeChildren.1 h
  exact hangs_of_holds hrow (ht ▸ cascades_follow _ q hq) hp

theorem cascadeChildren_removed (h : k ∈ db.cascadeChildren key) : k ∈ db.removed key :=
  mem_removed.2 (cascadeChildren_hang h).to_reflTransGen

end Db

end JitPack
