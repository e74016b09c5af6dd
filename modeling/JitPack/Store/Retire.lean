import JitPack.Store.References
import JitPack.Store.Feed

/-!
# Retired instead of deleted

A delete of an item or a template that a row elsewhere still refers to keeps the row and marks it. Three
places have to agree on what refers and what hangs: the reference check, the list of the cascade, and the
foreign keys. For the tables whose rows are retired they do: the list is the whole closure
(`cascadeChildren_complete`), and a delete that the check lets through violates no foreign key
(`deleteRow_of_unreferenced`). `delete_retires_or_removes` and `prune_removes_unused` are about the calls.
-/

namespace JitPack

open Db
open Txn (World)
open Txn.Proc

section
variable {db db' : Db} {key k parent child : Key} {row : StoredRow} {t : Table} {f : String}

/-! ## What hangs on a row that can be retired -/

/-- The registry lists every reference to a row of these tables that cascades. -/
theorem lifecycle_finds : ∀ t ∈ lifecycleTables, ∀ child : Table, ∀ r ∈ child.references,
    r.2 = (t, .cascade) → ∃ q ∈ t.cascades, q.table = child ∧ q.cond.finds r.1 = true := by
  decide

/-- Of what hangs on such a row, only the positions of a template have rows that hang on them. -/
theorem lifecycle_depth : ∀ t ∈ lifecycleTables, ∀ q ∈ t.cascades, ∀ child : Table, ∀ r ∈ child.references,
    r.2 = (q.table, .cascade) → t = .templates ∧ q = ⟨.templateItems, .eq "template_id"⟩ ∧
      child = .templateItemTasks ∧ r.1 = "template_item_id" := by
  decide

/-- No row refers to what hangs on such a row by a plain reference. -/
theorem lifecycle_plain : ∀ t ∈ lifecycleTables, ∀ q ∈ t.cascades, ∀ child : Table, ∀ r ∈ child.references,
    r.2 ≠ (q.table, .noAction) := by
  decide

/-- The registry lists every plain reference to a row of these tables, and none is of the table itself. -/
theorem lifecycle_blocks : ∀ t ∈ lifecycleTables, ∀ child : Table, ∀ r ∈ child.references,
    r.2 = (t, .noAction) → (child, r.1) ∈ t.blockedBy ∧ child ≠ t := by
  decide

/-- **The list of the cascade is the closure of the foreign keys.** -/
theorem cascadeChildren_complete (ht : key.table ∈ lifecycleTables) :
    k ∈ db.cascadeChildren key ↔ Relation.TransGen db.Hangs key k := by
  refine ⟨cascadeChildren_hang, fun h => ?_⟩
  induction h with
  | single hang =>
    obtain ⟨row, f, hrow, href, hv⟩ := hang.refers
    obtain ⟨q, hq, htable, hfinds⟩ := lifecycle_finds _ ht _ _ (Table.mem_references href) rfl
    exact mem_cascadeChildren.2 ⟨q, hq, htable, row, hrow, Where.holds_of_finds hfinds hv⟩
  | @tail middle k _ hang ih =>
    obtain ⟨row, f, hrow, href, hv⟩ := hang.refers
    obtain ⟨q, hq, htable, middleRow, hmiddle, hholds⟩ := mem_cascadeChildren.1 ih
    obtain ⟨hk, rfl, hchild, rfl⟩ := lifecycle_depth _ ht q hq _ _ (Table.mem_references href)
      (by rw [htable])
    refine mem_cascadeChildren.2
      ⟨⟨.templateItemTasks, .within "template_item_id" .templateItems "template_id"⟩, ?_, hchild.symm, row,
        hrow, ?_⟩
    · rw [hk]
      decide
    · refine Where.holds_within.2 ⟨middle.id, middleRow, hv, ?_, Where.holds_eq.1 hholds⟩
      rw [show Table.templateItems = middle.table from htable]
      exact hmiddle

/-- **A delete that the reference check lets through succeeds.** -/
theorem deleteRow_of_unreferenced (ht : key.table ∈ lifecycleTables)
    (hkey : (db.rows.lookup key).isSome) (h : db.stillReferenced key = false) :
    ∃ db', Db.deleteRow key db = .ok db' := by
  have hplain : ¬ (db.rows.entries.any fun e => e.1 ∉ db.removed key &&
      (db.removed key).any fun parent => refersTo e.1.table e.2.fields .noAction parent) = true := by
    intro hany
    obtain ⟨⟨k, row⟩, hrow, hk⟩ := List.any_eq_true.1 hany
    simp only [Bool.and_eq_true, decide_eq_true_eq, List.any_eq_true] at hk
    obtain ⟨-, p, hp, href⟩ := hk
    obtain ⟨f, hf, hv⟩ := refersTo_iff_refers.1 href
    rcases (Relation.reflTransGen_iff_eq_or_transGen.1 (mem_removed.1 hp)) with rfl | htrans
    · obtain ⟨hblocks, hne⟩ := lifecycle_blocks _ ht _ _ (Table.mem_references hf) rfl
      have hfound : db.stillReferenced p = true := by
        refine List.any_eq_true.2 ⟨_, hblocks, ?_⟩
        simp only [Bool.not_eq_true', List.all_eq_false]
        refine ⟨k.id, mem_select.2 ⟨row, Assoc.mem_entries.1 hrow, ?_⟩, ?_⟩
        · exact decide_eq_true hv
        · simp [hne]
      rw [h] at hfound
      cases hfound
    · obtain ⟨q, hq, htable, -⟩ := mem_cascadeChildren.1 ((cascadeChildren_complete ht).2 htrans)
      exact lifecycle_plain _ ht q hq _ _ (Table.mem_references hf) (by rw [htable])
  unfold Db.deleteRow
  rw [if_neg (by simpa using Option.isSome_iff_ne_none.1 hkey)]
  dsimp only
  rw [if_neg hplain]
  exact ⟨_, rfl⟩

end

/-! ## Accounts -/

section
variable {s : Env} {p : Partition} {m : Mutation} {key : Key} {row : Row} {merged : MergeResult}
variable {db db' : Db} {res : MutationResult} {applied : Fields} {hlc : HLC} {clocks : FieldClocks}

theorem deleteRow_users (h : Db.deleteRow key db = .ok db') : db'.users = db.users := by
  unfold Db.deleteRow at h
  split at h
  · cases h
    rfl
  dsimp only at h
  split at h <;> cases h
  rfl

theorem updateRow_users (h : Db.updateRow s.sqlite key applied hlc clocks db = .ok db') :
    db'.users = db.users := by
  unfold Db.updateRow at h
  split at h
  · cases h
  split at h
  · cases h
    rfl
  dsimp only at h
  split at h <;> cases h
  rfl

theorem insertRow_users (h : Db.insertRow s.sqlite s.sqlNow key applied hlc clocks db = .ok db') :
    db'.users = db.users := by
  obtain ⟨-, -, -, rfl⟩ := Db.insertRow_ok h
  rfl

theorem Persisted.users {present b : Bool} (h : Persisted s key merged present db b db') :
    db'.users = db.users := by
  cases h with
  | gone => rfl
  | kept => rfl
  | deleted _ _ h => exact deleteRow_users h
  | inserted _ _ h => exact insertRow_users h
  | updated _ _ _ h => exact updateRow_users h

theorem Owed.users {out : WriteOutcome} (h : Owed s p out db db') : db'.users = db.users := by
  cases h with
  | none => rfl
  | master _ owner =>
    cases owner with
    | other => rfl
    | owner _ h =>
      have hu := insertRow_users h
      exact hu

theorem Applied.users (h : Applied s p m db res db') : db'.users = db.users := by
  cases h with
  | duplicate => rfl
  | refused => split <;> rfl
  | landed _ _ _ land =>
    cases land with
    | refused => rfl
    | unchanged _ _ hn => exact hn.users
    | changed _ hp ho hn =>
      have hu := hn.users.trans (ho.users.trans hp.users)
      exact hu

theorem Effect.users {g : Generator} {r : Request} (h : Effect s g db r db') :
    ∃ us, db'.users = db.users ++ us := by
  have hsame (h : db'.users = db.users) : ∃ us, db'.users = db.users ++ us :=
    ⟨[], by rw [h, List.append_nil]⟩
  cases h with
  | joined => exact ⟨_, rfl⟩
  | applied _ h => exact hsame h.users
  | reverted _ h =>
    cases h with
    | intro _ claimed _ _ _ update owed noted =>
      refine hsame ?_
      rw [noted.users, owed.users, ← claimed.users]
      have hu := updateRow_users update
      exact hu
  | taken h =>
    cases h with
    | intro _ _ update => exact hsame (updateRow_users update :)
  | trackStored h =>
    cases h with
    | replaced _ _ _ update noted => exact hsame (noted.users.trans (updateRow_users update :))
    | inserted _ insert noted => exact hsame (noted.users.trans (insertRow_users insert :))
  | imageAdded h =>
    cases h with
    | intro _ insert noted => exact hsame (noted.users.trans (insertRow_users insert :))
  | imageStamped _ h =>
    cases h with
    | intro _ update noted => exact hsame (noted.users.trans (updateRow_users update :))

/-- No call takes an account away. -/
theorem step_users (σ : Server) (c : Call) : ∃ us, (server.step σ c).2.db.users = σ.db.users ++ us := by
  rcases step_cases σ c with h | h
  · exact ⟨[], by rw [h, List.append_nil]⟩
  · exact h.users

end

/-! ## The mark -/

/-- The row satisfies the constraints of its table, uniqueness apart. -/
structure Db.Upholds (db : Db) (key : Key) (fields : String → Value) : Prop where
  notNull : ∀ c ∈ key.table.columns, c.notNull = true → fields c.name ≠ .null
  users : ∀ c ∈ key.table.columns, ∀ a, c.references = some ⟨.users, a⟩ →
    fields c.name = .null ∨ ∃ id ∈ db.users, fields c.name = .str id
  checks : ∀ check ∈ key.table.checks, ∀ sqlite, check sqlite fields = true

/-- The rows that can be retired satisfy the constraints. -/
def LifecycleUpheld (db : Db) : Prop := ∀ key row, key.table ∈ lifecycleTables →
  db.rows.lookup key = some row → db.Upholds key row.fields

section
variable {s : Env} {key k : Key} {applied : Fields} {hlc : HLC} {clocks : FieldClocks} {db db' : Db}
variable {rows : Rows} {row : StoredRow} {fields : String → Value} {sqlite : Sqlite} {c : Call} {σ : Server}

/-- The checks of these tables are the same whatever the library formats. -/
theorem lifecycle_checks {t : Table} (ht : t ∈ lifecycleTables) {check : Check} (hc : check ∈ t.checks)
    (sqlite sqlite' : Sqlite) (row : String → Value) : check sqlite row = check sqlite' row := by
  simp only [lifecycleTables, List.mem_cons, List.not_mem_nil, or_false] at ht
  rcases ht with rfl | rfl <;>
    simp only [Table.checks, List.mem_cons, List.not_mem_nil, or_false] at hc
  · rcases hc with rfl | rfl | rfl <;> rfl
  · rcases hc with rfl | rfl <;> rfl

theorem Db.Upholds.of_allows (ht : key.table ∈ lifecycleTables) (h : db.allows sqlite key fields = true) :
    db.Upholds key fields where
  notNull c hc hn := Db.allows_notNull h (key.table.column_of_mem c hc) hn
  users c hc a href := by
    simp only [Db.allows, Bool.and_eq_true, List.all_eq_true] at h
    have hres := (h.1.1 c hc).2
    unfold Db.resolves at hres
    rw [href] at hres
    split at hres
    · next heq => cases heq
    · next heq => exact .inl heq
    · next id heq hv => exact .inr ⟨id, by simpa using hres, hv⟩
    · next heq hv => cases heq
    · cases hres
  checks check hc sqlite' := by
    rw [lifecycle_checks ht hc sqlite' sqlite]
    exact Db.allows_check h hc

theorem Db.Upholds.mono (h : db.Upholds key fields) (hu : ∃ us, db'.users = db.users ++ us) :
    db'.Upholds key fields where
  notNull := h.notNull
  users c hc a href := (h.users c hc a href).imp_right fun ⟨id, hid, hv⟩ => by
    obtain ⟨us, hus⟩ := hu
    exact ⟨id, by rw [hus]; exact List.mem_append_left _ hid, hv⟩
  checks := h.checks

/-- What no check looks at: the mark, and the references that a delete empties. -/
theorem lifecycle_unchecked {t : Table} (ht : t ∈ lifecycleTables) {check : Check} (hc : check ∈ t.checks)
    {fields fields' : String → Value}
    (h : ∀ f, f ≠ "retired_at" → t.refers f = none → fields' f = fields f) (sqlite : Sqlite) :
    check sqlite fields' = check sqlite fields := by
  simp only [lifecycleTables, List.mem_cons, List.not_mem_nil, or_false] at ht
  rcases ht with rfl | rfl <;>
    simp only [Table.checks, List.mem_cons, List.not_mem_nil, or_false] at hc
  · rcases hc with rfl | rfl | rfl
    · simp only [Check.atLeast, h "weight_grams" (by decide) rfl]
    · simp only [Check.atLeast, h "value_cents" (by decide) rfl]
    · simp only [Check.lengthBetween, h "icon" (by decide) rfl]
  · rcases hc with rfl | rfl
    · simp only [Check.oneOf, h "kind" (by decide) rfl]
    · simp only [Check.lengthBetween, h "icon" (by decide) rfl]

/-- The columns that a delete may empty are not required. -/
theorem lifecycle_required : ∀ t ∈ lifecycleTables, ∀ c ∈ t.columns, c.notNull = true →
    c.name ≠ "retired_at" ∧ ∀ parent, t.refers c.name ≠ some (parent, .setNull) := by
  decide

/-- A reference to an account is no reference to a row. -/
theorem Table.refers_of_users {t : Table} {c : Column} {a : OnDelete} (hc : c ∈ t.columns)
    (h : c.references = some ⟨.users, a⟩) : t.refers c.name = none := by
  rw [Table.refers, t.column_of_mem c hc, Option.bind_some, h]

theorem Db.Upholds.forget (ht : key.table ∈ lifecycleTables) (h : db.Upholds key fields) (gone : List Key) :
    db.Upholds key (Db.forget gone key.table fields) where
  notNull c hc hn := by
    rcases Db.forget_cases gone key.table fields c.name with hsame | ⟨parent, id, href, -⟩
    · rw [hsame]
      exact h.notNull c hc hn
    · exact absurd href ((lifecycle_required _ ht c hc hn).2 parent)
  users c hc a href := by
    rw [Db.forget_of_refers _ (.inl (Table.refers_of_users hc href))]
    exact h.users c hc a href
  checks check hc sqlite := by
    rw [lifecycle_unchecked ht hc (fun f _ hf => Db.forget_of_refers _ (.inl hf))]
    exact h.checks check hc sqlite

theorem Put.lifecycleUpheld (hdb : LifecycleUpheld db)
    (put : Put s key applied hlc clocks db db'.rows) (hu : ∃ us, db'.users = db.users ++ us) :
    LifecycleUpheld db' := by
  intro k row ht hrow
  rw [put.lookup] at hrow
  split at hrow
  · next hk =>
    cases hrow
    subst hk
    exact (Db.Upholds.of_allows ht put.allows).mono hu
  · exact (hdb k row ht hrow).mono hu

theorem Alters.lifecycleUpheld (h : Alters c db db'.rows) (hu : ∃ us, db'.users = db.users ++ us)
    (hdb : LifecycleUpheld db) : LifecycleUpheld db' := by
  generalize hrows : db'.rows = rows at h
  cases h with
  | nothing => exact fun k row ht hrow => (hdb k row ht (hrows ▸ hrow)).mono hu
  | deleted hr valid gate hop present delete =>
    obtain ⟨gone, hgone, -⟩ := loadRow_of_present present
    intro k row' ht hrow'
    rw [hrows] at hrow'
    obtain ⟨row, hrow, -, rfl⟩ := Db.deleteRow_left (by rw [hgone]; rfl) delete hrow'
    exact ((hdb k row ht hrow).forget ht _).mono hu
  | pushed hr valid how hop put old => exact (hrows ▸ put).lifecycleUpheld hdb hu
  | @founded p m m' db₁ id hlc rows hr valid gate hop fresh put absent owner =>
    have hfirst : LifecycleUpheld { db with rows := db₁.rows } :=
      Put.lifecycleUpheld hdb (show Put _ _ _ _ _ db ({ db with rows := db₁.rows } : Db).rows from put)
        ⟨[], by simp⟩
    intro k row ht hrow
    rw [hrows, owner.lookup] at hrow
    split at hrow
    · next hk =>
      subst hk
      exact absurd ht (by simp [lifecycleTables])
    · exact (hfirst k row ht hrow).mono hu
  | restored hr valid noted present gate put => exact (hrows ▸ put).lifecycleUpheld hdb hu
  | taken hr present put => exact (hrows ▸ put).lifecycleUpheld hdb hu
  | attached ht absent own fields put => exact (hrows ▸ put).lifecycleUpheld hdb hu
  | stamped ht present fields put => exact (hrows ▸ put).lifecycleUpheld hdb hu

/-- The rows that can be retired satisfy the constraints, in every run from a fresh store. -/
theorem lifecycleUpheld_after (g : Generator) (calls : List Call) :
    LifecycleUpheld (server.after (.fresh g) calls).db := by
  refine Machine.after_of_step (I := fun σ : Server => LifecycleUpheld σ.db)
    (fun σ c hd => (step_alters σ c).lifecycleUpheld (step_users σ c) hd) ?_ calls
  intro key row _ hr
  cases hr

/-- No constraint keeps a row from being marked. -/
theorem Db.Upholds.marked (sqlite : Sqlite) (ht : key.table ∈ lifecycleTables) (hrow : db.rows.lookup key = some row)
    (h : db.Upholds key row.fields) (hrefs : db.RefsHold) (at' : String) :
    db.allows sqlite key (Function.update row.fields "retired_at" (.str at')) = true := by
  have hsame {f : String} (hf : f ≠ "retired_at") :
      Function.update row.fields "retired_at" (.str at') f = row.fields f := Function.update_of_ne hf _ _
  have hmark : ∀ t ∈ lifecycleTables, ∀ c ∈ t.columns, c.name = "retired_at" → c.references = none := by
    decide
  have hunique : ∀ t ∈ lifecycleTables, ∀ u ∈ t.uniques, u.only (Function.update row.fields "retired_at"
      (.str at')) = false := by
    intro t ht u hu
    simp only [lifecycleTables, List.mem_cons, List.not_mem_nil, or_false] at ht
    rcases ht with rfl | rfl <;>
      (simp only [Table.uniques, List.mem_cons, List.not_mem_nil, or_false] at hu
       subst hu
       simp)
  simp only [Db.allows, Bool.and_eq_true, List.all_eq_true]
  refine ⟨⟨fun c hc => ⟨?_, ?_⟩, fun check hc => ?_⟩, fun u hu => ?_⟩
  · cases hn : c.notNull with
    | false => rfl
    | true =>
      rw [hsame (lifecycle_required _ ht c hc hn).1]
      simpa using h.notNull c hc hn
  · by_cases hf : c.name = "retired_at"
    · simp [Db.resolves, hmark _ ht c hc hf]
    · rw [hsame hf]
      unfold Db.resolves
      cases href : c.references with
      | none => rfl
      | some r =>
        obtain ⟨target, a⟩ := r
        cases target with
        | users =>
          rcases h.users c hc a href with hnull | ⟨id, hid, hv⟩
          · rw [hnull]
          · rw [hv]
            simpa using hid
        | table parent =>
          have hf : key.table.refers c.name = some (parent, a) := by
            rw [Table.refers, key.table.column_of_mem c hc, Option.bind_some, href]
          rcases hrefs key row hrow _ _ _ hf with hnull | ⟨id, hv, hid⟩
          · rw [hnull]
          · rw [hv]
            simp [hid]
  · rw [lifecycle_unchecked ht hc (fun f hf _ => hsame hf)]
    exact h.checks check hc sqlite
  · simp [Db.isUnique, hunique _ ht u hu]

end

/-! ## Deletes -/

/-- The row is kept and marked, with the clock of the delete, and no other row has changed. -/
def Retired (s : Env) (key : Key) (row : StoredRow) (hlc : HLC) (db db' : Db) : Prop :=
  db'.rows = db.rows.insert key ⟨Function.update row.fields "retired_at" (.str (Now.rfc3339 s.now)), hlc,
    Function.update row.clocks "retired_at" (some hlc)⟩

/-- Every row that hangs on the row is in the feed again, alive. -/
def Resent (key : Key) (db db' : Db) : Prop := ∀ k, Relation.TransGen db.Hangs key k →
  ∃ e ∈ db'.since db.lastSeq, e.tripID = none ∧ e.key = k ∧ e.deleted = false

/-- What is gone is the row and what hangs on it. -/
def Removed (key : Key) (db db' : Db) : Prop := ∀ k, db'.rows.lookup k = none ↔
  db.rows.lookup k = none ∨ Relation.ReflTransGen db.Hangs key k

section
variable {s : Env} {p : Partition} {m m' m'' : Mutation} {db db' : Db} {res : MutationResult} {t : Table}
variable {row : StoredRow} {retired : Bool} {userID : String}

/-- A delete that nothing stands in the way of has landed. -/
theorem Applied.delete_landed (hp : p.Thins) (h : Applied s p m db res db')
    (ht : Table.ofName m.table = some t) (hop : m.op = .delete)
    (fresh : recordedResult m.mutationID db = none) (hgate : (p.gate s db t m).2 = none)
    (hkept : db.stillReferenced ⟨t, m.id⟩ = true → p.retirable t = true) :
    ∃ m' m'' retired, Decided s p m db t m' m'' retired ∧ Landed s p m'' ⟨t, m.id⟩
      (loadRow ⟨t, m.id⟩ db) (merge (loadRow ⟨t, m.id⟩ db) m'') retired db res db' := by
  have htable {t' : Table} (valid : validate m p.tables = .ok t') : t' = t :=
    Option.some.inj ((validate_ok valid).1.symm.trans ht)
  cases h with
  | duplicate hdup =>
    rw [fresh] at hdup
    cases hdup
  | refused _ valid why =>
    obtain rfl := htable valid
    cases why with
    | scope hg =>
      rw [hg] at hgate
      cases hgate
    | rowDeleted hg hdel => exact absurd ((gate_onlyFields hp hg).op.trans hop) hdel
    | stillReferenced _ _ _ hb hk => exact absurd (hkept hb) hk
  | landed _ valid how land =>
    obtain rfl := htable valid
    exact ⟨_, _, _, how, land⟩

/-- **A delete of what nothing refers to removes the row and what hangs on it.** -/
theorem Applied.removes (hp : p.Thins) (h : Applied s p m db res db')
    (ht : Table.ofName m.table = some t) (hl : t ∈ lifecycleTables) (hop : m.op = .delete)
    (fresh : recordedResult m.mutationID db = none) (hgate : (p.gate s db t m).2 = none)
    (hrow : db.rows.lookup ⟨t, m.id⟩ = some row) (hnew : row.hlc < m.hlc)
    (hfree : db.stillReferenced ⟨t, m.id⟩ = false) : Removed ⟨t, m.id⟩ db db' := by
  obtain ⟨m', m'', retired, how, land⟩ := h.delete_landed hp ht hop fresh hgate
    (fun hb => by rw [hfree] at hb; cases hb)
  obtain ⟨rfl, rfl⟩ : retired = false ∧ m'' = m' := by
    rcases how.write with ⟨hr, hm, -⟩ | ⟨-, -, -, -, -, hb⟩
    · exact ⟨hr, hm⟩
    · rw [hfree] at hb
      cases hb
  have hframe := gate_onlyFields hp how.gate
  have hload := loadRow_of_lookup hrow
  have hkey : (db.rows.lookup ⟨t, m.id⟩).isSome := by rw [hrow]; rfl
  have hdel : (merge (loadRow ⟨t, m.id⟩ db) m'').deleted = true := by
    refine merge_deleted_iff.2 ⟨hframe.op.trans hop, ?_⟩
    rw [hload, hframe.hlc]
    exact hnew
  have hpres : (loadRow ⟨t, m.id⟩ db).present = true := by rw [hload]
  cases land with
  | refused _ hv =>
    cases hv with
    | deleted _ _ herr =>
      obtain ⟨db₁, hok⟩ := deleteRow_of_unreferenced hl hkey hfree
      rw [hok] at herr
      cases herr
    | inserted hd => simp [hdel] at hd
    | updated hd => simp [hdel] at hd
  | unchanged _ hper =>
    cases hper with
    | gone _ habs => simp [hpres] at habs
    | kept hd => simp [hdel] at hd
  | changed _ hper ho hn =>
    cases hper with
    | deleted _ _ hok =>
      intro k
      have hrows := congrArg Db.rows (ho.of_deleted hdel rfl)
      rw [Db.record_rows, hn.rows, hrows, Db.log_rows, Db.log_rows, Db.deleteRow_gone hkey hok,
        Db.mem_removed]
    | inserted hd => simp [hdel] at hd
    | updated hd => simp [hdel] at hd

/-- The mark of a retired row is all that the merge applies. -/
theorem merge_retire (hrow : row.hlc < m.hlc) (hmark : ∀ h, row.clocks "retired_at" = some h → h < m.hlc)
    (at' f : String) :
    (merge ⟨true, row.fields, row.hlc, row.clocks⟩ (retireInstead m at')).applied.lookup f =
      if f = "retired_at" then some (.str at') else none := by
  have hop : (retireInstead m at').op ≠ .delete := nofun
  have hlookup : (retireInstead m at').fields.lookup f =
      if f = "retired_at" then some (.str at') else none := by
    split
    · next hf =>
      subst hf
      exact AList.lookup_insert _
    · next hf => exact (AList.lookup_insert_ne hf).trans rfl
  rw [merge_applied_lookup hop rfl, hlookup]
  split
  · next hf =>
    subst hf
    have hadmits : Row.admits ⟨true, row.fields, row.hlc, row.clocks⟩ (retireInstead m at') "retired_at"
        (.str at') := by
      refine .inr (.inr ⟨by decide, by decide, ?_⟩)
      change (row.clocks "retired_at").getD row.hlc < m.hlc
      cases hc : row.clocks "retired_at" with
      | none => exact hrow
      | some h => exact hmark h hc
    rw [Option.filter_some, if_pos (by simpa using hadmits)]
  · rfl

/-- A row that is marked refers to what it did. -/
theorem hangs_of_marked {key parent child : Key} {hlc : HLC} {clocks : FieldClocks} {v : Value}
    (ht : key.table ∈ lifecycleTables) (hrow : db.rows.lookup key = some row)
    (hrows : db'.rows = db.rows.insert key ⟨Function.update row.fields "retired_at" v, hlc, clocks⟩)
    (h : db.Hangs parent child) : db'.Hangs parent child := by
  obtain ⟨childRow, f, hchild, href, hv⟩ := h.refers
  by_cases hk : child = key
  · subst hk
    rw [hrow] at hchild
    cases hchild
    have hne : f ≠ "retired_at" := by
      rintro rfl
      have hnone : ∀ t ∈ lifecycleTables, t.refers "retired_at" = none := by decide
      rw [hnone _ ht] at href
      cases href
    have hmarked : db'.rows.lookup child =
        some ⟨Function.update row.fields "retired_at" v, hlc, clocks⟩ := by
      rw [hrows, AList.lookup_insert]
    exact .of_refers hmarked href ((Function.update_of_ne hne _ _).trans hv)
  · refine Db.Hangs.of_refers ?_ href hv
    rw [hrows, AList.lookup_insert_ne hk, hchild]

/-- What the mark makes of a row. -/
theorem updatedFields_marked (sqlite : Sqlite) {applied : Fields} {at' : String} (hl : t ∈ lifecycleTables)
    (h : ∀ f, applied.lookup f = if f = "retired_at" then some (.str at') else none)
    (fields : String → Value) : Db.updatedFields sqlite t fields applied =
      Function.update fields "retired_at" (.str at') := by
  have hcolumn : ∀ t ∈ lifecycleTables, (t.column "retired_at").map Column.affinity = some .text := by
    decide
  obtain ⟨c, hc, htext⟩ := Option.map_eq_some_iff.1 (hcolumn t hl)
  funext f
  rw [Db.updatedFields, h f, Function.update_apply]
  split
  · next hf =>
    subst hf
    rw [Option.map_some, Option.getD_some, Db.readBack, hc]
    dsimp only
    rw [htext]
    rfl
  · rfl

/-- **A delete of what a row elsewhere refers to marks the row, and sends its children again.** -/
theorem Applied.retires (h : Applied s (masterPartition userID) m db res db')
    (ht : Table.ofName m.table = some t) (hl : t ∈ lifecycleTables) (hop : m.op = .delete)
    (fresh : recordedResult m.mutationID db = none)
    (hgate : ((masterPartition userID).gate s db t m).2 = none)
    (hrow : db.rows.lookup ⟨t, m.id⟩ = some row) (hnew : row.hlc < m.hlc)
    (hmark : ∀ h, row.clocks "retired_at" = some h → h < m.hlc)
    (hup : db.Upholds ⟨t, m.id⟩ row.fields) (hrefs : db.RefsHold)
    (hused : db.stillReferenced ⟨t, m.id⟩ = true) :
    Retired s ⟨t, m.id⟩ row m.hlc db db' ∧ Resent ⟨t, m.id⟩ db db' := by
  have hretirable : (masterPartition userID).retirable t = true := decide_eq_true hl
  obtain ⟨m', m'', retired, how, land⟩ :=
    h.delete_landed masterPartition_thins ht hop fresh hgate fun _ => hretirable
  have hframe := gate_onlyFields masterPartition_thins how.gate
  have hload := loadRow_of_lookup hrow
  rw [← hframe.hlc] at hnew hmark
  have hdel : (merge (loadRow ⟨t, m.id⟩ db) m').deleted = true := by
    refine merge_deleted_iff.2 ⟨hframe.op.trans hop, ?_⟩
    rw [hload]
    exact hnew
  obtain ⟨rfl, rfl⟩ : retired = true ∧ m'' = retireInstead m' (Now.rfc3339 s.now) := by
    rcases how.write with ⟨-, -, hfree⟩ | ⟨hr, hm, -⟩
    · rw [hfree (by rw [hload]) hdel] at hused
      cases hused
    · exact ⟨hr, hm⟩
  rw [hload] at land
  generalize hmerged : merge ⟨true, row.fields, row.hlc, row.clocks⟩
    (retireInstead m' (Now.rfc3339 s.now)) = merged at land
  have happ (f : String) : merged.applied.lookup f =
      if f = "retired_at" then some (.str (Now.rfc3339 s.now)) else none := by
    rw [← hmerged]
    exact merge_retire hnew hmark _ f
  have hlive : merged.deleted = false := by
    rw [← hmerged, Bool.eq_false_iff]
    intro hd
    cases (merge_deleted hd).1
  have hhlc : merged.rowHLC = m.hlc := by
    rw [← hmerged, merge_rowHLC]
    exact (max_eq_right hnew.le).trans hframe.hlc
  have hclocks : merged.clocks = Function.update row.clocks "retired_at" (some m.hlc) := by
    funext f
    have hf := merge_clocks ⟨true, row.fields, row.hlc, row.clocks⟩
      (retireInstead m' (Now.rfc3339 s.now)) f
    rw [hmerged, happ f] at hf
    rw [hf, Function.update_apply]
    split
    · exact congrArg some hframe.hlc
    · rfl
  have hwritten := updatedFields_marked s.sqlite hl happ row.fields
  have hallows := hup.marked s.sqlite hl hrow hrefs (Now.rfc3339 s.now)
  cases land with
  | refused _ hv =>
    cases hv with
    | deleted hd => simp [hlive] at hd
    | inserted _ habs => cases habs
    | updated _ _ herr =>
      unfold Db.updateRow at herr
      split at herr
      · cases herr
      · dsimp only at herr
        rw [hrow] at herr
        change (if !db.allows s.sqlite ⟨t, m.id⟩ (Db.updatedFields s.sqlite t row.fields merged.applied)
          then _ else _) = _ at herr
        rw [hwritten, hallows] at herr
        cases herr
  | unchanged _ hper =>
    cases hper with
    | gone _ habs => cases habs
    | kept _ _ hnone =>
      have hmark := happ "retired_at"
      rw [if_pos rfl, AList.lookup, hnone] at hmark
      cases hmark
  | @changed seq seq' db₁ db₂ db₃ _ hper ho hn =>
    cases hper with
    | deleted hd => simp [hlive] at hd
    | inserted _ habs => cases habs
    | updated _ _ _ hok =>
      obtain ⟨-, -, hdb₁⟩ := Db.updateRow_ok hrow hok
      rw [hwritten, hhlc, hclocks] at hdb₁
      have hrows : db₁.rows = db.rows.insert ⟨t, m.id⟩ ⟨Function.update row.fields "retired_at"
          (.str (Now.rfc3339 s.now)), m.hlc, Function.update row.clocks "retired_at" (some m.hlc)⟩ := by
        rw [hdb₁]
      cases ho with
      | none hno => cases hno
      | master _ owner =>
        cases owner with
        | owner hnew =>
          simp only [WriteOutcome.newTrip, Bool.and_eq_true, decide_eq_true_eq] at hnew
          rw [hnew.1.1] at hl
          exact absurd hl (by decide)
        | other =>
          refine ⟨hn.rows.trans hrows, fun k hk => ?_⟩
          have hchild : k ∈ db₁.cascadeChildren ⟨t, m.id⟩ :=
            (cascadeChildren_complete hl).2 (hk.lift id fun _ _ => hangs_of_marked hl hrow hrows)
          have hrelog : ∀ db₀ : Db, db₀.rows = db₁.rows → db.lastSeq ≤ db₀.lastSeq →
              ∃ e ∈ ((db₀.log none m'.hlc false (db₀.cascadeChildren ⟨t, m.id⟩)).changeLog),
                e.tripID = none ∧ e.key = k ∧ e.deleted = false ∧ db.lastSeq < e.seq := by
            intro db₀ hrows₀ hlast
            rw [cascadeChildren_congr hrows₀]
            obtain ⟨e, he, hkey, hdel, hseq⟩ := exists_mem_entries none m'.hlc false db₀.lastSeq hchild
            exact ⟨e, List.mem_append_right _ he, (mem_entries _ _ _ _ he).1, hkey, hdel,
              hlast.trans_lt hseq⟩
          have hlast : db₁.lastSeq = db.lastSeq := by rw [hdb₁]
          obtain ⟨e, he, htrip, hkey, hdel, hseq⟩ := hrelog
            ((db₁.log none m'.hlc merged.deleted [⟨t, m.id⟩]).log none m'.hlc true
              (if merged.deleted && true then db.cascadeChildren ⟨t, m.id⟩ else []))
            rfl (by simp only [Db.log]; omega)
          refine ⟨e, List.mem_filter.2 ⟨?_, decide_eq_true hseq⟩, htrip, hkey, hdel⟩
          rw [Db.record_changeLog, hn.changeLog]
          exact List.mem_append_left _ he

/-- The delete reaches its row: it is no repetition, the guard lets it through, and the row is older. -/
structure Reaches (s : Env) (p : Partition) (m : Mutation) (t : Table) (row : StoredRow) (db : Db) :
    Prop where
  fresh : recordedResult m.mutationID db = none
  gate : (p.gate s db t m).2 = none
  present : db.rows.lookup ⟨t, m.id⟩ = some row
  newer : row.hlc < m.hlc

/-- A delete that has changed a row has reached its own. -/
theorem Applied.reaches (hp : p.Thins) (h : Applied s p m db res db')
    (ht : Table.ofName m.table = some t) (hop : m.op = .delete) (hh : m.hlc ≠ [])
    (hrows : db'.rows ≠ db.rows) : ∃ row, Reaches s p m t row db := by
  cases h with
  | duplicate => exact absurd rfl hrows
  | refused =>
    refine absurd ?_ hrows
    split <;> rfl
  | @landed t' m' m'' retired _ _ fresh valid how land =>
    obtain rfl : t' = t := Option.some.inj ((validate_ok valid).1.symm.trans ht)
    have hframe := gate_onlyFields hp how.gate
    have hreach (hpres : (loadRow ⟨t', m.id⟩ db).present = true)
        (hdel : (merge (loadRow ⟨t', m.id⟩ db) m').deleted = true) : ∃ row, Reaches s p m t' row db := by
      obtain ⟨row, hrow, hload⟩ := loadRow_of_present hpres
      obtain ⟨-, hnew⟩ := merge_deleted hdel
      rw [hload, hframe.hlc] at hnew
      exact ⟨row, fresh, by rw [how.gate], hrow, hnew⟩
    have hhlc : m''.hlc ≠ [] := by
      rcases how.write with ⟨-, rfl, -⟩ | ⟨-, rfl, -⟩
      · rwa [hframe.hlc]
      · change m'.hlc ≠ []
        rwa [hframe.hlc]
    cases land with
    | refused => exact absurd rfl hrows
    | unchanged _ _ hn => exact absurd hn.rows hrows
    | changed _ hper =>
      rcases how.write with ⟨-, rfl, -⟩ | ⟨-, -, -, hdel, hpres, -⟩
      · rcases hper.put rfl hhlc with ⟨hdel, hpres, -⟩ | ⟨-, hno, -⟩
        · exact hreach hpres hdel
        · exact absurd (hframe.op.trans hop) hno
      · exact hreach hpres hdel

/-! ## Calls -/

variable {σ : Server} {c : Call}

/-- A push that answers with a result has done what the result says. -/
theorem push_applied (hc : c.request.pushed = some (p, m))
    (h : (server.step σ c).1 = .ok (.result res)) :
    Applied c.env p m σ.db res (server.step σ c).2.db := by
  obtain ⟨hs, hhooked, -⟩ := serve_pushed (s := c.env) hc
  simp only [server, hs, push] at h ⊢
  split at h
  · next hv =>
    rw [if_pos hv]
    rcases hr : applyMutation c.env m p c.oracle σ.world with ⟨e | res', w'⟩
    · rw [bind_eq, hr] at h
      cases h
    · rw [bind_eq, hr] at h ⊢
      cases h
      obtain ⟨db, happ, hdisk, -⟩ := applyMutation_ok hhooked c.oracle_ne hr
      exact hdisk ▸ happ
  · cases h

/-- The delete that a prune pushes once it has read the row. -/
def Call.pruning (c : Call) (σ : Server) (id : String) (row : StoredRow) : Mutation :=
  let g := if row.hlc ≠ [] then (σ.hlc.observe row.hlc).2 else σ.hlc
  ⟨c.env.randomID 0, .delete, Table.name .items, id, ∅, (g.next c.env.now).1⟩

/-- A prune that answers has found no row, or has done what its push did. -/
theorem prune_applied {id : String} {seen : Db} {a : Answer}
    (hc : c.request = .pruneMasterItem userID id seen) (h : (server.step σ c).1 = .ok a) :
    seen.rows.lookup ⟨.items, id⟩ = none ∧ (server.step σ c).2.db = σ.db ∨
    ∃ row res, seen.rows.lookup ⟨.items, id⟩ = some row ∧
      Applied c.env (prunePartition userID) (c.pruning σ id row) σ.db res (server.step σ c).2.db := by
  simp only [server, hc, serve, bind_pure_world] at h ⊢
  rcases hr : pruneMasterItem c.env userID id seen c.oracle σ.world with ⟨e | n, w'⟩
  · rw [bind_eq, hr] at h
    cases h
  dsimp only
  unfold pruneMasterItem at hr
  cases hseen : seen.rows.lookup ⟨.items, id⟩ with
  | none =>
    rw [hseen] at hr
    cases hr
    exact .inl ⟨rfl, rfl⟩
  | some row =>
    rw [hseen] at hr
    simp only [deleteWithClock, bind_ok] at hr
    obtain ⟨res, w₄, ⟨_, w₁, h₁, mid, w₂, h₂, hlc, w₃, h₃, h₄⟩, h₅⟩ := hr
    cases h₅
    obtain ⟨-, hd₁⟩ := onlyIf_observe_ok h₁
    have hmem : w₁.mem = ⟨if row.hlc ≠ [] then (σ.hlc.observe row.hlc).2 else σ.hlc, 0⟩ := by
      rcases onlyIf_ok.1 h₁ with ⟨hne, hobs⟩ | ⟨hne, -, rfl⟩
      · obtain ⟨-, rfl⟩ := memory_ok.1 hobs
        rw [if_pos (of_decide_eq_true hne)]
        rfl
      · rw [if_neg (of_decide_eq_false hne)]
        rfl
    obtain ⟨hmid, rfl⟩ := memory_ok.1 h₂
    obtain ⟨hhlc, rfl⟩ := memory_ok.1 h₃
    obtain ⟨db, happ, hdisk, -⟩ := applyMutation_ok prunePartition_hooked c.oracle_ne h₄
    rw [hmem] at hmid hhlc
    cases hmid
    cases hhlc
    rw [show w₁.disk = σ.db from hd₁] at happ
    exact .inr ⟨row, res, rfl, hdisk ▸ happ⟩

/-- A prune that fails has done nothing. -/
theorem prune_error {id : String} {seen : Db} {e : Error}
    (hc : c.request = .pruneMasterItem userID id seen) (h : (server.step σ c).1 = .error e) :
    (server.step σ c).2.db = σ.db := by
  simp only [server, hc, serve, bind_pure_world] at h ⊢
  have hatomic : Atomic onDisk (pruneMasterItem c.env userID id seen) := by
    unfold pruneMasterItem
    cases seen.rows.lookup ⟨.items, id⟩ with
    | none => exact Keeps.pure.atomic
    | some row => exact (deleteWithClock_atomic prunePartition_hooked).bind_pure _
  rcases hr : pruneMasterItem c.env userID id seen c.oracle σ.world with ⟨e | n, w'⟩
  · exact hatomic _ _ _ _ hr
  · rw [bind_eq, hr] at h
    cases h

/-- The gate of a prune asks whether anything uses the item. -/
theorem prune_gate (m : Mutation) : ((prunePartition userID).gate s db .items m).2 =
    if db.itemInUse m.id then some .stillReferenced else none := by
  have hid : (stampServerOwned .items m (loadRow ⟨.items, m.id⟩ db) userID s.now).id = m.id :=
    (stampServerOwned_onlyFields ..).id
  change (if db.itemInUse (stampServerOwned .items m (loadRow ⟨.items, m.id⟩ db) userID s.now).id
    then _ else _) = _
  rw [hid]

/-- Nothing refers to an item that nothing uses. -/
theorem not_referenced_of_unused {id : String} (h : db.itemInUse id = false) :
    db.stillReferenced ⟨.items, id⟩ = false := by
  simp only [Db.itemInUse, Bool.or_eq_false_iff, List.any_eq_false] at h
  refine List.any_eq_false.2 fun ref href hsome => h.1 ref href ?_
  cases hsel : db.select ref.1 fun row => row.fields ref.2 = .str id with
  | nil => rw [hsel] at hsome; cases hsome
  | cons => rfl

/-- A prune of an item in use writes its memo and nothing else. -/
theorem Applied.prune_used (h : Applied s (prunePartition userID) m db res db')
    (ht : Table.ofName m.table = some .items) (hused : db.itemInUse m.id = true) :
    ∃ ms, db' = { db with mutations := ms } := by
  have hgate : ((prunePartition userID).gate s db .items m).2 ≠ none := by
    rw [prune_gate, hused]
    exact nofun
  have htable {t' : Table} (valid : validate m (prunePartition userID).tables = .ok t') : t' = .items :=
    Option.some.inj ((validate_ok valid).1.symm.trans ht)
  cases h with
  | duplicate => exact ⟨db.mutations, rfl⟩
  | refused _ valid why =>
    obtain rfl := htable valid
    cases why with
    | scope => exact ⟨_, rfl⟩
    | rowDeleted hg => exact absurd (by rw [hg]) hgate
    | stillReferenced hg => exact absurd (by rw [hg]) hgate
  | landed _ valid how =>
    obtain rfl := htable valid
    exact absurd (by rw [how.gate]) hgate

end

/-! ## Runs -/

/-- **A delete of an item or a template that reaches its row marks it if a row elsewhere refers to it,
and removes it with what hangs on it if none does**; any other one leaves the rows alone. **A prune
leaves an item in use alone**, and removes one that nothing uses if the item has not become newer. -/
theorem retire_or_remove (g : Generator) (calls : List Call) (c : Call) :
    let σ := server.after (.fresh g) calls
    let r := server.step σ c
    (∀ userID m t, c.request = .pushMaster userID m → Table.ofName m.table = some t →
      t ∈ lifecycleTables → m.op = .delete →
      (∀ res row, r.1 = .ok (.result res) → Reaches c.env (masterPartition userID) m t row σ.db →
        (σ.db.stillReferenced ⟨t, m.id⟩ = true →
          (∀ h, row.clocks "retired_at" = some h → h < m.hlc) →
          Retired c.env ⟨t, m.id⟩ row m.hlc σ.db r.2.db ∧ Resent ⟨t, m.id⟩ σ.db r.2.db) ∧
        (σ.db.stillReferenced ⟨t, m.id⟩ = false → Removed ⟨t, m.id⟩ σ.db r.2.db)) ∧
      (r.2.db.rows ≠ σ.db.rows → ∃ row, Reaches c.env (masterPartition userID) m t row σ.db)) ∧
    ∀ userID id seen, c.request = .pruneMasterItem userID id seen →
      (∀ e, r.1 = .error e → r.2.db = σ.db) ∧
      (seen.rows.lookup ⟨.items, id⟩ = none → r.2.db = σ.db) ∧
      (σ.db.itemInUse id = true → ∃ ms, r.2.db = { σ.db with mutations := ms }) ∧
      (σ.db.itemInUse id = false → ∀ a old row, r.1 = .ok a → seen.rows.lookup ⟨.items, id⟩ = some old →
        Reaches c.env (prunePartition userID) (c.pruning σ id old) .items row σ.db →
        Removed ⟨.items, id⟩ σ.db r.2.db) := by
  intro σ r
  have hrefs : σ.db.RefsHold := refsHold_after g calls
  have hup : LifecycleUpheld σ.db := lifecycleUpheld_after g calls
  refine ⟨fun userID m t hc ht hl hop => ⟨fun res row hans hreach => ?_, fun hrows => ?_⟩,
    fun userID id seen hc => ⟨fun e => prune_error hc, fun hseen => ?_, fun hused => ?_,
      fun hfree a old row hans hold hreach => ?_⟩⟩
  · have happ : Applied c.env (masterPartition userID) m σ.db res r.2.db :=
      push_applied (by rw [hc]; rfl) hans
    refine ⟨fun hused hmark => ?_, fun hfree => ?_⟩
    · exact happ.retires ht hl hop hreach.fresh hreach.gate hreach.present hreach.newer hmark
        (hup _ row hl hreach.present) hrefs hused
    · exact happ.removes masterPartition_thins ht hl hop hreach.fresh hreach.gate hreach.present
        hreach.newer hfree
  · rcases step_cases σ c with hsame | heffect
    · exact absurd (congrArg Db.rows hsame) hrows
    · rw [hc] at heffect
      cases heffect with
      | applied hr happ =>
        have hh := hr.hlc_ne
        cases hr
        exact happ.reaches masterPartition_thins ht hop hh hrows
      | reverted hr => cases hr
      | imageStamped hr => cases hr
  · cases hans : r.1 with
    | error e => exact prune_error hc hans
    | ok a =>
      rcases prune_applied hc hans with ⟨-, hsame⟩ | ⟨row, res, hsome, -⟩
      · exact hsame
      · rw [hseen] at hsome
        cases hsome
  · cases hans : r.1 with
    | error e => exact ⟨σ.db.mutations, prune_error hc hans⟩
    | ok a =>
      rcases prune_applied hc hans with ⟨-, hsame⟩ | ⟨row, res, -, happ⟩
      · exact ⟨σ.db.mutations, hsame⟩
      · exact happ.prune_used rfl hused
  · rcases prune_applied hc hans with ⟨hnone, -⟩ | ⟨row', res, hsome, happ⟩
    · rw [hold] at hnone
      cases hnone
    · rw [hold] at hsome
      cases hsome
      exact happ.removes prunePartition_thins rfl (by decide) rfl hreach.fresh hreach.gate hreach.present
        hreach.newer (not_referenced_of_unused hfree)

/-- Ann has two items, one of them with a tag and in a template. -/
def annsItems : List Call := [
  .plain 1760000000000 (.addUser "ann"),
  .master "ann" (.plain 1 .insert .items "i" [("name", .str "Stove")]),
  .master "ann" (.plain 2 .insert .items "j" [("name", .str "Rope")]),
  .master "ann" (.plain 3 .insert .tags "g" [("name", .str "Kitchen")]),
  .master "ann" (.plain 4 .insert .itemTags "ig" [("item_id", .str "i"), ("tag_id", .str "g")]),
  .master "ann" (.plain 5 .insert .templates "t" [("name", .str "Hut"), ("kind", .str "template")]),
  .master "ann" (.plain 6 .insert .templateItems "p" [("template_id", .str "t"), ("item_id", .str "i")])]

/-- The call has been answered with a result. -/
theorem exists_result {r : Except Error Answer} (h : r.toOption.any (fun
    | .result _ => true
    | _ => false) = true) : ∃ res, r = .ok (.result res) := by
  cases r with
  | error e => cases h
  | ok a =>
    cases a with
    | result res => exact ⟨res, rfl⟩
    | _ => cases h

theorem exists_reaches {s : Env} {p : Partition} {m : Mutation} {t : Table} {db : Db}
    (hfresh : recordedResult m.mutationID db = none) (hgate : (p.gate s db t m).2 = none)
    (hrow : ((db.rows.lookup ⟨t, m.id⟩).any fun row => row.hlc < m.hlc &&
      (row.clocks "retired_at").all (· < m.hlc)) = true) :
    ∃ row, Reaches s p m t row db ∧ ∀ h, row.clocks "retired_at" = some h → h < m.hlc := by
  cases hlookup : db.rows.lookup ⟨t, m.id⟩ with
  | none =>
    rw [hlookup] at hrow
    cases hrow
  | some row =>
    rw [hlookup, Option.any_some, Bool.and_eq_true, decide_eq_true_eq] at hrow
    refine ⟨row, ⟨hfresh, hgate, hlookup, hrow.1⟩, fun h hh => ?_⟩
    have hall := hrow.2
    rw [hh, Option.all_some] at hall
    exact of_decide_eq_true hall

/-- Ann deletes an item. -/
def annsDelete (id : String) : Mutation := .plain 7 .delete .items id []

/-- The stove is marked, and its tag sent again. -/
theorem retire_or_remove_stove : ∃ row,
    Retired (Env.plain 1760000000000) ⟨.items, "i"⟩ row (annsDelete "i").hlc
      (server.after (.fresh .plain) annsItems).db
      (server.step (server.after (.fresh .plain) annsItems) (.master "ann" (annsDelete "i"))).2.db := by
  obtain ⟨res, hres⟩ := exists_result (r := (server.step (server.after (.fresh .plain) annsItems)
    (.master "ann" (annsDelete "i"))).1) (by decide +kernel)
  obtain ⟨row, hreach, hmark⟩ : ∃ row, Reaches (Call.master "ann" (annsDelete "i")).env
      (masterPartition "ann") (annsDelete "i") .items row (server.after (.fresh .plain) annsItems).db ∧ _ :=
    exists_reaches (by decide +kernel) (by decide +kernel) (by decide +kernel)
  have hall := (retire_or_remove .plain annsItems (.master "ann" (annsDelete "i"))).1 "ann"
    (annsDelete "i") .items rfl (by decide) (by decide) rfl
  have hretired := ((hall.1 res row hres hreach).1 (by decide +kernel) hmark).1
  exact ⟨row, hretired⟩

/-- A delete that is older than the item leaves it, though nothing refers to it. -/
theorem late_delete_keeps_item : ¬ ∀ (g : Generator) (calls : List Call) (c : Call) (userID : String)
    (m : Mutation) (t : Table) (res : MutationResult), c.request = .pushMaster userID m →
    Table.ofName m.table = some t → t ∈ lifecycleTables → m.op = .delete →
    (server.step (server.after (.fresh g) calls) c).1 = .ok (.result res) →
    (server.after (.fresh g) calls).db.stillReferenced ⟨t, m.id⟩ = false →
    Removed ⟨t, m.id⟩ (server.after (.fresh g) calls).db
      (server.step (server.after (.fresh g) calls) c).2.db := by
  intro h
  let m : Mutation := .plain 0 .delete .items "j" []
  obtain ⟨res, hres⟩ := exists_result (r := (server.step (server.after (.fresh .plain) annsItems)
    (.master "ann" m)).1) (by decide +kernel)
  have hgone := (h .plain annsItems (.master "ann" m) "ann" m .items res rfl (by decide) (by decide) rfl hres
    (by decide +kernel) ⟨.items, "j"⟩).2 (.inr .refl)
  have hthere : ((server.step (server.after (.fresh .plain) annsItems)
      (.master "ann" m)).2.db.rows.lookup ⟨.items, "j"⟩).isSome = true := by
    decide +kernel
  rw [hgone] at hthere
  cases hthere

end JitPack
