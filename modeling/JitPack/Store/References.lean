import JitPack.Store.Alters
import JitPack.Store.Cascade

/-!
# References

What the foreign keys of the schema amount to: in every database that the store reaches, a reference
is empty or names a row that is there (`refsHold_after`). A statement puts no other reference into a
row, and a delete takes the row along, empties its reference, or is refused.
-/

namespace JitPack

/-- Every reference of a row is empty or names a row. -/
def Db.RefsHold (db : Db) : Prop := ∀ key row, db.rows.lookup key = some row → ∀ f t a,
  key.table.refers f = some (t, a) →
    row.fields f = .null ∨ ∃ id, row.fields f = .str id ∧ (db.rows.lookup ⟨t, id⟩).isSome

section
variable {s : Env} {key k parent : Key} {applied : Fields} {hlc : HLC} {clocks : FieldClocks}
variable {db db' : Db} {rows : Rows} {row row' : StoredRow} {sqlite : Sqlite} {f : String} {t : Table}
variable {a : OnDelete} {fields : String → Value}

theorem Table.column_of_mem : ∀ t : Table, ∀ c ∈ t.columns, t.column c.name = some c := by
  decide +kernel

/-- A row refers to another by one of the references of its table. -/
theorem refersTo_iff_refers : Db.refersTo t fields a parent = true ↔
    ∃ f, t.refers f = some (parent.table, a) ∧ fields f = .str parent.id := by
  rw [Db.refersTo_iff]
  constructor
  · rintro ⟨c, hc, href, hv⟩
    refine ⟨c.name, ?_, hv⟩
    rw [Table.refers, t.column_of_mem c hc, Option.bind_some, href]
  · rintro ⟨f, hf, hv⟩
    obtain ⟨c, hc, href⟩ := Table.refers_some hf
    obtain ⟨hmem, rfl⟩ := Table.column_some hc
    exact ⟨c, hmem, href, hv⟩

theorem Db.Hangs.refers (h : db.Hangs parent k) : ∃ row f, db.rows.lookup k = some row ∧
    k.table.refers f = some (parent.table, .cascade) ∧ row.fields f = .str parent.id := by
  obtain ⟨row, hrow, href⟩ := Db.hangs_iff.1 h
  obtain ⟨f, hf, hv⟩ := refersTo_iff_refers.1 href
  exact ⟨row, f, hrow, hf, hv⟩

theorem Db.Hangs.of_refers (hrow : db.rows.lookup k = some row)
    (hf : k.table.refers f = some (parent.table, .cascade)) (hv : row.fields f = .str parent.id) :
    db.Hangs parent k := Db.hangs_iff.2 ⟨row, hrow, refersTo_iff_refers.2 ⟨f, hf, hv⟩⟩

/-! ## Writes -/

/-- A row that the database allows refers to rows that are there, or to itself. -/
theorem Db.allows_refers (h : db.allows sqlite key fields = true)
    (hf : key.table.refers f = some (t, a)) : fields f = .null ∨
      ∃ id, fields f = .str id ∧ (⟨t, id⟩ = key ∨ (db.rows.lookup ⟨t, id⟩).isSome) := by
  obtain ⟨c, hc, href⟩ := Table.refers_some hf
  obtain ⟨hmem, rfl⟩ := Table.column_some hc
  simp only [Db.allows, Bool.and_eq_true, List.all_eq_true] at h
  have hres := (h.1.1 c hmem).2
  unfold Db.resolves at hres
  rw [href] at hres
  split at hres
  · next heq => cases heq
  · next heq => exact .inl heq
  · next heq _ => cases heq
  · next id heq hv =>
    cases heq
    exact .inr ⟨id, hv, by simpa using hres⟩
  · cases hres

theorem Put.lookup (h : Put s key applied hlc clocks db rows) (k : Key) : rows.lookup k =
    if k = key then some ⟨db.written s key applied, hlc, clocks⟩ else db.rows.lookup k := by
  rw [h.rows]
  split
  · next hk => rw [hk, AList.lookup_insert]
  · next hk => rw [AList.lookup_insert_ne hk]

theorem Put.refsHold (h : Put s key applied hlc clocks db db'.rows) (hdb : db.RefsHold) :
    db'.RefsHold := by
  have hkept {k : Key} (hk : k = key ∨ (db.rows.lookup k).isSome) : (db'.rows.lookup k).isSome := by
    rw [h.lookup]
    split
    · rfl
    · next hne => exact hk.resolve_left hne
  intro k row hr f t a hf
  rw [h.lookup] at hr
  split at hr
  · next hk =>
    cases hr
    subst hk
    exact (Db.allows_refers h.allows hf).imp_right fun ⟨id, hv, hid⟩ => ⟨id, hv, hkept hid⟩
  · exact (hdb k row hr f t a hf).imp_right fun ⟨id, hv, hid⟩ => ⟨id, hv, hkept (.inr hid)⟩

/-! ## Deletes -/

/-- A row that a delete leaves was there, and has kept what it does not forget. -/
theorem Db.deleteRow_left (hkey : (db.rows.lookup key).isSome) (h : Db.deleteRow key db = .ok db')
    (hr : db'.rows.lookup k = some row') : ∃ row, db.rows.lookup k = some row ∧
      k ∉ db.removed key ∧ row' = { row with fields := forget (db.removed key) k.table row.fields } := by
  rw [deleteRow_lookup h, if_pos hkey] at hr
  obtain ⟨row, hrow, hleft⟩ := Option.bind_eq_some_iff.1 hr
  exact ⟨row, hrow, leftOf_eq hleft⟩

/-- A delete empties references that are set to NULL, and touches nothing else. -/
theorem Db.forget_cases (gone : List Key) (t : Table) (fields : String → Value) (f : String) :
    forget gone t fields f = fields f ∨ ∃ parent id, t.refers f = some (parent, .setNull) ∧
      fields f = .str id ∧ ⟨parent, id⟩ ∈ gone ∧ forget gone t fields f = .null := by
  unfold forget Table.refers
  split
  · next parent id hcol hv =>
    rw [hcol, hv]
    by_cases hg : ⟨parent, id⟩ ∈ gone
    · exact .inr ⟨parent, id, rfl, rfl, hg, if_pos hg⟩
    · exact .inl (if_neg hg)
  · exact .inl rfl

theorem Db.forget_of_refers (gone : List Key) {fields : String → Value}
    (hf : t.refers f = none ∨ ∃ parent, t.refers f = some (parent, .cascade)) :
    forget gone t fields f = fields f := by
  rcases forget_cases gone t fields f with h | ⟨parent, id, href, -⟩
  · exact h
  · rw [href] at hf
    rcases hf with hf | ⟨_, hf⟩ <;> cases hf

theorem Db.deleteRow_refused {p : Key} (hkey : (db.rows.lookup key).isSome)
    (h : Db.deleteRow key db = .ok db') (hr : db.rows.lookup k = some row) (hk : k ∉ db.removed key)
    (hf : k.table.refers f = some (p.table, .noAction)) (hv : row.fields f = .str p.id) :
    p ∉ db.removed key := by
  intro hgone
  unfold deleteRow at h
  rw [if_neg (by simpa using Option.isSome_iff_ne_none.1 hkey)] at h
  dsimp only at h
  rw [if_pos] at h
  · cases h
  · rw [List.any_eq_true]
    refine ⟨⟨k, row⟩, Assoc.mem_entries.2 hr, ?_⟩
    simp only [Bool.and_eq_true, decide_eq_true_eq, List.any_eq_true]
    exact ⟨hk, p, hgone, refersTo_iff_refers.2 ⟨f, hf, hv⟩⟩

theorem Db.deleteRow_refsHold (hkey : (db.rows.lookup key).isSome) (h : Db.deleteRow key db = .ok db')
    (hdb : db.RefsHold) : db'.RefsHold := by
  intro k row' hr f t a hf
  obtain ⟨row, hrow, hk, rfl⟩ := deleteRow_left hkey h hr
  rcases forget_cases (db.removed key) k.table row.fields f with hsame | ⟨_, _, -, -, -, hnull⟩
  · refine (hdb k row hrow f t a hf).imp hsame.trans ?_
    rintro ⟨id, hv, hid⟩
    refine ⟨id, hsame.trans hv, ?_⟩
    have hstays : ⟨t, id⟩ ∉ db.removed key := by
      intro hgone
      cases a with
      | noAction => exact deleteRow_refused (p := ⟨t, id⟩) hkey h hrow hk hf hv hgone
      | cascade =>
        -- the row would have gone with the row it hangs on
        exact hk (mem_removed.2 ((mem_removed.1 hgone).tail (.of_refers hrow hf hv)))
      | setNull =>
        rw [forget] at hsame
        obtain ⟨c, hc, href⟩ := Table.refers_some hf
        simp only [hc, Option.bind_some, href, hv, hgone, if_true] at hsame
        cases hsame
    rw [Option.isSome_iff_ne_none]
    intro hnone
    exact ((deleteRow_gone hkey h).1 hnone).elim (Option.isSome_iff_ne_none.1 hid) hstays
  · exact .inl hnull

/-! ## Runs -/

theorem Db.RefsHold.congr (h : db.RefsHold) (hrows : db'.rows = db.rows) : db'.RefsHold := by
  unfold RefsHold at *
  rwa [hrows]

theorem Alters.refsHold {c : Call} (h : Alters c db db'.rows) (hdb : db.RefsHold) : db'.RefsHold := by
  generalize hrows : db'.rows = rows at h
  cases h with
  | nothing => exact hdb.congr hrows
  | deleted hr valid gate hop present delete =>
    obtain ⟨row, hrow, -⟩ := loadRow_of_present present
    exact (Db.deleteRow_refsHold (by rw [hrow]; rfl) delete hdb).congr hrows
  | pushed hr valid how hop put old => exact (hrows ▸ put).refsHold hdb
  | founded hr valid gate hop fresh put absent owner =>
    exact (hrows ▸ owner).refsHold (put.refsHold hdb)
  | restored hr valid noted present gate put => exact (hrows ▸ put).refsHold hdb
  | taken hr present put => exact (hrows ▸ put).refsHold hdb
  | attached ht absent own fields put => exact (hrows ▸ put).refsHold hdb
  | stamped ht present fields put => exact (hrows ▸ put).refsHold hdb

end

/-- Every reference names a row, in every run from a fresh store. -/
theorem refsHold_after (g : Generator) (calls : List Call) :
    (server.after (.fresh g) calls).db.RefsHold := by
  refine Machine.after_of_step (I := fun σ : Server => σ.db.RefsHold)
    (fun σ c hd => (step_alters σ c).refsHold hd) ?_ calls
  intro key row hr
  cases hr

end JitPack
