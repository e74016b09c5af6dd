import JitPack.Store.References

/-!
# Inclusions

A template includes groups, so that inclusion has two levels and no cycle. The guards see to it from
two sides: `validInclude` looks at both ends of an inclusion that is written, `validKindSwitch` at the
inclusions of a template whose kind is changed. Either looks at the mutation before the merge, and
holds for whatever part of it the merge lets through, since each end is checked for itself.

What they miss is an end that is no text. The guard reads it as absent and checks the end that is
stored; the database writes it as a text. So the ends stay apart in every run in which such a value
names no template of the wrong kind (`twoLevel_of_coerced`).
-/

namespace JitPack

/-- The ends of an inclusion, with the kind a template has to have there. -/
def inclusionEnds : List (String × String) :=
  [("template_id", "template"), ("included_template_id", "group")]

/-- Every inclusion leads from a template to a group. -/
def TwoLevel (db : Db) : Prop := ∀ id row, db.rows.lookup ⟨.templateIncludes, id⟩ = some row →
  ∀ e ∈ inclusionEnds, ∃ x, row.fields e.1 = .str x ∧ db.templateKind x = some (.str e.2)

/-- The template `a` includes `b`. -/
def Db.Includes (db : Db) (a b : String) : Prop := ∃ id row,
  db.rows.lookup ⟨.templateIncludes, id⟩ = some row ∧ row.fields "template_id" = .str a ∧
    row.fields "included_template_id" = .str b

/-- No chain of inclusions leads back to where it started. -/
theorem TwoLevel.acyclic {db : Db} (h : TwoLevel db) (a : String) :
    ¬ Relation.TransGen db.Includes a a := by
  have hfrom {a b : String} (hab : db.Includes a b) : db.templateKind a = some (.str "template") := by
    obtain ⟨id, row, hrow, ha, -⟩ := hab
    obtain ⟨x, hx, hkind⟩ := h id row hrow ("template_id", "template") (by simp [inclusionEnds])
    rw [ha] at hx
    cases hx
    exact hkind
  have hto {a b : String} (hab : db.Includes a b) : db.templateKind b = some (.str "group") := by
    obtain ⟨id, row, hrow, -, hb⟩ := hab
    obtain ⟨x, hx, hkind⟩ := h id row hrow ("included_template_id", "group") (by simp [inclusionEnds])
    rw [hb] at hx
    cases hx
    exact hkind
  intro hcycle
  obtain ⟨b, hab, -⟩ := Relation.TransGen.head'_iff.1 hcycle
  obtain ⟨c, -, hca⟩ := Relation.TransGen.tail'_iff.1 hcycle
  have hkind := (hfrom hab).symm.trans (hto hca)
  exact absurd hkind (by simp)

/-- A push or a revert that gives an inclusion that is there an end which is no text names no
template of the wrong kind by it. -/
def Call.EndsCoerced (c : Call) (σ : Server) : Prop := ∀ p m, c.Asks p .templateIncludes m →
  m.op ≠ .delete → (loadRow ⟨.templateIncludes, m.id⟩ σ.db).present = true →
  ∀ e ∈ inclusionEnds, ∀ v, m.fields.lookup e.1 = some v → v.asString = none →
  ∀ x kind, c.env.sqlite.store .text v = .str x → σ.db.templateKind x = some kind → kind = .str e.2

/-! ## Guards -/

section
variable {db db' : Db} {i : GuardInput} {m' : Mutation}

/-- An inclusion that passes has the right kind of template at each end that is a text. -/
theorem validInclude_passes (h : validInclude db i = (m', none)) (hop : i.m.op ≠ .delete) :
    m' = i.m ∧ ∀ e ∈ inclusionEnds, ∃ x, (i.m.string e.1).or (i.row.fields e.1).asString = some x ∧
      db.templateKind x = some (.str e.2) := by
  unfold validInclude at h
  dsimp only [GuardInput.answer] at h
  rw [if_neg hop] at h
  split at h
  · cases h
  next hends =>
  split at h
  · next hkinds =>
    cases h
    refine ⟨rfl, fun e he => ?_⟩
    have hsome {o : Option String} (ho : o.getD "" ≠ "") : o = some (o.getD "") := by
      cases o with
      | none => exact absurd rfl ho
      | some x => rfl
    simp only [inclusionEnds, List.mem_cons, List.not_mem_nil, or_false] at he
    rcases he with rfl | rfl
    · exact ⟨_, hsome fun hn => hends (.inl hn), hkinds.1⟩
    · exact ⟨_, hsome fun hn => hends (.inr hn), hkinds.2⟩
  · cases h

/-- A template that switches its kind is at no end of an inclusion that the old kind is needed for. -/
theorem validKindSwitch_passes (h : validKindSwitch db i = (m', none)) (hop : i.m.op ≠ .delete) :
    m' = i.m ∧ ∀ kind, i.m.string "kind" = some kind → i.row.present = true →
      .str kind = i.row.fields "kind" ∨ ∀ id row, db.rows.lookup ⟨.templateIncludes, id⟩ = some row →
        ∀ e ∈ inclusionEnds, kind ∈ ["group", "template"] → row.fields e.1 = .str i.m.id → kind = e.2 := by
  unfold validKindSwitch at h
  dsimp only [GuardInput.answer] at h
  split at h
  · next hnone =>
    cases h
    refine ⟨rfl, fun kind hkind => ?_⟩
    rw [hnone] at hkind
    cases hkind
  next kind hkind =>
  obtain ⟨rfl, h⟩ := Prod.mk.inj h
  refine ⟨rfl, fun kind' hkind' hp => ?_⟩
  rw [hkind] at hkind'
  cases hkind'
  split at h
  · next hc => exact .inl (hc.resolve_left (by simp [hp]) |>.resolve_left hop)
  refine .inr fun id row hrow e he hword hend => ?_
  by_contra hne
  have hmem : id ∈ db.select .templateIncludes fun r => r.fields
      (if kind = "group" then "template_id" else "included_template_id") = .str i.m.id := by
    refine Db.mem_select.2 ⟨row, hrow, ?_⟩
    simp only [inclusionEnds, List.mem_cons, List.not_mem_nil, or_false] at he hword
    rcases he with rfl | rfl <;> rcases hword with rfl | rfl <;> simp_all
  rw [if_neg (by simpa using List.ne_nil_of_mem hmem)] at h
  cases h

end

/-! ## Writes -/

section
variable {c : Call} {σ : Server} {db db' : Db} {key : Key} {applied : Fields} {p : Partition}
variable {m m' : Mutation} {hlc : HLC} {clocks : FieldClocks} {rows : Rows} {s : Env} {id : String}

/-- The ends of an inclusion are texts that refer to templates. -/
theorem inclusion_column {e : String × String} (he : e ∈ inclusionEnds) :
    Table.refers .templateIncludes e.1 = some (.templates, .cascade) ∧
    (∃ col, Table.column .templateIncludes e.1 = some col ∧ col.notNull = true) ∧
    (∀ sqlite v, Db.readBack sqlite .templateIncludes e.1 v = sqlite.store .text v) ∧
    (∀ now, Db.defaultOf now .templateIncludes e.1 = .null) ∧ e.1 ≠ "retired_at" := by
  simp only [inclusionEnds, List.mem_cons, List.not_mem_nil, or_false] at he
  rcases he with rfl | rfl
  · exact ⟨rfl, ⟨_, rfl, rfl⟩, fun _ _ => rfl, fun _ => rfl, by decide⟩
  · exact ⟨rfl, ⟨_, rfl, rfl⟩, fun _ _ => rfl, fun _ => rfl, by decide⟩

theorem templateKind_congr (h : db'.rows = db.rows) (x : String) :
    db'.templateKind x = db.templateKind x := by
  rw [Db.templateKind, h, Db.templateKind]

/-- A mutation of an inclusion passes as it is, with the right kind of template at its text ends. -/
theorem Asked.inclusion (ha : Asked c db ⟨.templateIncludes, id⟩ applied p m m') : m' = m ∧
    m.op ≠ .delete ∧ ∀ e ∈ inclusionEnds, ∃ x,
      (m.string e.1).or ((loadRow ⟨.templateIncludes, id⟩ db).fields e.1).asString = some x ∧
      db.templateKind x = some (.str e.2) := by
  obtain ⟨userID, rfl⟩ := ha.asks.master rfl nofun
  obtain ⟨db₁, hn, hg⟩ := ha.gate
  have hop : m.op ≠ .delete := by
    rw [← (gate_onlyFields masterPartition_thins hg).op]
    exact ha.op (by simp [lifecycleTables])
  obtain ⟨rfl, hends⟩ := validInclude_passes
    (i := ⟨"", userID, m, loadRow ⟨.templateIncludes, m.id⟩ db₁⟩) hg hop
  refine ⟨rfl, hop, fun e he => ?_⟩
  obtain ⟨x, hx, hkind⟩ := hends e he
  rw [templateKind_congr hn.rows] at hkind
  rw [loadRow_congr hn.rows, ha.id] at hx
  exact ⟨x, hx, hkind⟩

/-- The ends of an inclusion that was written are apart. -/
theorem Asked.ends (ha : Asked c σ.db ⟨.templateIncludes, id⟩ applied p m m') (hc : c.EndsCoerced σ)
    (hdb : TwoLevel σ.db) (put : Put c.env ⟨.templateIncludes, id⟩ applied hlc clocks σ.db rows)
    {e : String × String} (he : e ∈ inclusionEnds) : ∃ x,
      σ.db.written c.env ⟨.templateIncludes, id⟩ applied e.1 = .str x ∧
      σ.db.templateKind x = some (.str e.2) := by
  obtain ⟨href, ⟨col, hcol, hnn⟩, hread, hdefault, hret⟩ := inclusion_column he
  obtain ⟨rfl, hop, hends⟩ := ha.inclusion
  have hnull := Db.allows_notNull put.allows hcol hnn
  rcases Db.written_cases c.env ⟨.templateIncludes, id⟩ applied σ.db e.1 with ⟨-, hw⟩ | ⟨v, hv, hw⟩
  · -- the end is the one that was stored
    rw [hw] at hnull ⊢
    cases hrow : σ.db.rows.lookup ⟨.templateIncludes, id⟩ with
    | none =>
      rw [Db.base_of_absent hrow] at hnull
      exact absurd (hdefault _) hnull
    | some row =>
      rw [Db.base_of_lookup hrow]
      exact hdb id row hrow e he
  rw [hread] at hw
  have hnamed := (ha.fields _ _ hret hv).2
  obtain ⟨x, hx, hkind⟩ := hends e he
  cases hstr : v.asString with
  | some y =>
    obtain rfl : v = .str y := by
      cases v <;> cases hstr
      rfl
    have hy : m'.string e.1 = some y := by rw [Mutation.string, Mutation.get, hnamed]; rfl
    rw [hy, Option.some_or] at hx
    obtain rfl : y = x := Option.some.inj hx
    exact ⟨y, hw, hkind⟩
  | none =>
    -- the guard has judged the end that was stored, so there is one
    have hpres : (loadRow ⟨.templateIncludes, id⟩ σ.db).present = true := by
      by_contra hp
      have hnone : m'.string e.1 = none := by rw [Mutation.string, Mutation.get, hnamed]; exact hstr
      rw [hnone, loadRow, lookup_of_not_present (by simpa using hp)] at hx
      cases hx
    rcases Db.allows_refers put.allows href with hn | ⟨y, hy, hself | hthere⟩
    · exact absurd hn hnull
    · cases hself
    · obtain ⟨row, hrow⟩ := Option.isSome_iff_exists.1 hthere
      have hyk : σ.db.templateKind y = some (row.fields "kind") := by rw [Db.templateKind, hrow]; rfl
      have hright := hc _ _ ha.asks hop (ha.id ▸ hpres) e he v hnamed hstr y _ (hw ▸ hy) hyk
      exact ⟨y, hy, by rw [hyk, hright]⟩

/-- The kind of a template that was written is right for the inclusions it is in. -/
theorem Asked.kind (ha : Asked c db ⟨.templates, id⟩ applied p m m') (hdb : TwoLevel db)
    (put : Put c.env ⟨.templates, id⟩ applied hlc clocks db rows) {n : String} {row : StoredRow}
    (hrow : db.rows.lookup ⟨.templateIncludes, n⟩ = some row) {e : String × String}
    (he : e ∈ inclusionEnds) (hend : row.fields e.1 = .str id) :
    db.written c.env ⟨.templates, id⟩ applied "kind" = .str e.2 := by
  obtain ⟨x, hx, hkind⟩ := hdb n row hrow e he
  obtain rfl : id = x := Value.str.inj (hend.symm.trans hx)
  obtain ⟨tpl, htpl, hold⟩ := Option.map_eq_some_iff.1 hkind
  rcases Db.written_cases c.env ⟨.templates, id⟩ applied db "kind" with ⟨-, hw⟩ | ⟨v, hv, hw⟩
  · rw [hw, Db.base_of_lookup htpl, hold]
  obtain ⟨hop, hnamed⟩ := ha.fields _ _ (by decide) hv
  -- the new kind is one of the two words, so the mutation named it as a text
  have hcheck : Check.oneOf "kind" ["group", "template"] ∈ Table.checks .templates := by
    simp [Table.checks]
  obtain ⟨w, hword, hww⟩ := (Db.allows_oneOf put.allows hcheck).resolve_left
    (Db.allows_notNull put.allows rfl rfl)
  have hvw : v = .str w := by
    refine Sqlite.eq_of_store_text (fun ch cs hcs => ?_) (hw.symm.trans hww)
    simp only [List.mem_cons, List.not_mem_nil, or_false] at hword
    rcases hword with rfl | rfl <;> cases hcs <;> decide
  rw [hww]
  obtain ⟨userID, rfl⟩ := ha.asks.master rfl (fun h => by cases h)
  obtain ⟨db₁, hn, hg⟩ := ha.gate
  obtain ⟨hm', hswitch⟩ := validKindSwitch_passes
    (i := ⟨"", userID, (masterPartition userID).stamped c.env db₁ .templates m,
      loadRow ⟨.templates, m.id⟩ db₁⟩) hg (by
        have hstamp := gate_onlyFields masterPartition_thins hg
        exact ((stampServerOwned_onlyFields ..).op.trans hstamp.op.symm).trans_ne hop)
  have hkindw : m'.string "kind" = some w := by rw [Mutation.string, Mutation.get, hnamed, hvw]; rfl
  have hload : loadRow ⟨.templates, m.id⟩ db₁ = ⟨true, tpl.fields, tpl.hlc, tpl.clocks⟩ := by
    rw [loadRow_congr hn.rows, ha.id, loadRow_of_lookup htpl]
  rcases hswitch w (hm' ▸ hkindw) (by rw [hload]) with hsame | hfree
  · rw [hload] at hsame
    exact hsame.trans hold
  · rw [hn.rows] at hfree
    have hid : ((masterPartition userID).stamped c.env db₁ .templates m).id = id :=
      (stampServerOwned_onlyFields ..).id.trans ha.id
    rw [hfree n row hrow e he hword (hid ▸ hend)]

/-- A write keeps the ends of the inclusions apart, if it does so for its own row. -/
theorem TwoLevel.put (hdb : TwoLevel db) (put : Put s key applied hlc clocks db db'.rows)
    (hends : ∀ id, key = ⟨.templateIncludes, id⟩ → ∀ e ∈ inclusionEnds, ∃ x,
      db.written s key applied e.1 = .str x ∧ db.templateKind x = some (.str e.2))
    (hkind : ∀ x, key = ⟨.templates, x⟩ → ∀ n row,
      db.rows.lookup ⟨.templateIncludes, n⟩ = some row → ∀ e ∈ inclusionEnds,
      row.fields e.1 = .str x → db.written s key applied "kind" = .str e.2) : TwoLevel db' := by
  intro n row' hr' e he
  rw [put.lookup] at hr'
  split at hr'
  · next hk =>
    cases hr'
    obtain ⟨x, hx, hxk⟩ := hends n hk.symm e he
    refine ⟨x, hx, ?_⟩
    rw [Db.templateKind, put.lookup, if_neg (by rw [← hk]; nofun)]
    exact hxk
  · next hk =>
    obtain ⟨x, hx, hxk⟩ := hdb n row' hr' e he
    refine ⟨x, hx, ?_⟩
    rw [Db.templateKind, put.lookup]
    split
    · next ht => exact congrArg some (hkind x ht.symm n row' hr' e he hx)
    · exact hxk

/-- A write of another table keeps them. -/
theorem TwoLevel.put_other (hdb : TwoLevel db) (put : Put s key applied hlc clocks db db'.rows)
    (hi : key.table ≠ .templateIncludes) (ht : key.table ≠ .templates) : TwoLevel db' :=
  hdb.put put (fun _ hk => absurd (congrArg Key.table hk) hi) fun _ hk =>
    absurd (congrArg Key.table hk) ht

theorem TwoLevel.asked {t : Table} (ha : Asked c σ.db ⟨t, id⟩ applied p m m') (hc : c.EndsCoerced σ)
    (hdb : TwoLevel σ.db) (put : Put c.env ⟨t, id⟩ applied hlc clocks σ.db db'.rows) : TwoLevel db' := by
  refine hdb.put put (fun x hk e he => ?_) fun x hk n row hrow e he hend => ?_
  · cases hk
    exact ha.ends hc hdb put he
  · cases hk
    exact ha.kind hdb put hrow he hend

/-- A delete takes the inclusions of a template along with it. -/
theorem TwoLevel.deleteRow (hdb : TwoLevel db) (hkey : (db.rows.lookup key).isSome)
    (h : Db.deleteRow key db = .ok db') : TwoLevel db' := by
  intro n row' hr' e he
  obtain ⟨row, hrow, hk, rfl⟩ := Db.deleteRow_left hkey h hr'
  obtain ⟨x, hx, hxk⟩ := hdb n row hrow e he
  obtain ⟨href, -⟩ := inclusion_column he
  refine ⟨x, (Db.forget_of_refers _ (.inr ⟨_, href⟩)).trans hx, ?_⟩
  obtain ⟨tpl, htpl, hkind⟩ := Option.map_eq_some_iff.1 hxk
  have hstays : ⟨.templates, x⟩ ∉ db.removed key := fun hgone =>
    hk (Db.mem_removed.2 ((Db.mem_removed.1 hgone).tail (.of_refers hrow href hx)))
  cases hleft : db'.rows.lookup ⟨.templates, x⟩ with
  | none =>
    rw [Db.deleteRow_gone hkey h, htpl] at hleft
    exact absurd hleft (by simp [hstays])
  | some tpl' =>
    obtain ⟨old, hold, -, rfl⟩ := Db.deleteRow_left hkey h hleft
    obtain rfl : tpl = old := Option.some.inj (htpl.symm.trans hold)
    have hkept : Db.forget (db.removed key) .templates tpl.fields "kind" = tpl.fields "kind" :=
      Db.forget_of_refers _ (.inl rfl)
    rw [Db.templateKind, hleft]
    exact congrArg some (hkept.trans hkind)

theorem TwoLevel.alters (hdb : TwoLevel σ.db) (hc : c.EndsCoerced σ) (h : Alters c σ.db db'.rows) :
    TwoLevel db' := by
  have hcongr {db₁ : Db} (hrows : db'.rows = db₁.rows) (h₁ : TwoLevel db₁) : TwoLevel db' := by
    unfold TwoLevel at *
    simpa only [Db.templateKind, hrows] using h₁
  generalize hrows : db'.rows = rows at h
  cases h with
  | nothing => exact hcongr hrows hdb
  | deleted hr valid gate hop present delete =>
    obtain ⟨row, hrow, -⟩ := loadRow_of_present present
    exact hcongr hrows (hdb.deleteRow (by rw [hrow]; rfl) delete)
  | pushed hr valid how hop put old => exact hdb.asked (how.asked hr valid hop _) hc (hrows ▸ put)
  | founded hr valid gate hop fresh put absent owner =>
    have hfounded := hdb.put_other put (by simp) (by simp)
    exact hfounded.put_other (hrows ▸ owner) (by simp) (by simp)
  | restored hr valid noted present gate put =>
    exact hdb.asked (hr.asked valid noted gate _) hc (hrows ▸ put)
  | taken hr present put => exact hdb.put_other (hrows ▸ put) (by simp) (by simp)
  | attached ht absent own fields put =>
    exact hdb.put_other (hrows ▸ put) (fun h => absurd (h ▸ ht) (by decide))
      fun h => absurd (h ▸ ht) (by decide)
  | stamped ht present fields put =>
    exact hdb.put_other (hrows ▸ put) (fun h => absurd (h ▸ ht) (by decide))
      fun h => absurd (h ▸ ht) (by decide)

end

/-! ## Runs -/

/-- **Inclusion has two levels and no cycle**, in every run in which no end that is written as a
number or a boolean names a template of the wrong kind. -/
theorem twoLevel_of_coerced (g : Generator) (calls : List Call)
    (hc : server.Legal (fun σ c => c.EndsCoerced σ) (.fresh g) calls) :
    TwoLevel (server.after (.fresh g) calls).db ∧
    ∀ a, ¬ Relation.TransGen (server.after (.fresh g) calls).db.Includes a a := by
  have hinv : TwoLevel (server.after (.fresh g) calls).db :=
    Machine.after_invariant (I := fun σ => TwoLevel σ.db)
      (fun σ c hc hd => hd.alters hc (step_alters σ c)) (fun _ _ hr => by cases hr) hc
  exact ⟨hinv, hinv.acyclic⟩

/-- Ann has a template that includes a group, and another template. -/
def includedGroup : List Call := [
  .plain 1760000000000 (.addUser "ann"),
  .master "ann" (.plain 1 .insert .templates "t" [("name", .str "Hut"), ("kind", .str "template")]),
  .master "ann" (.plain 2 .insert .templates "g" [("name", .str "Stove"), ("kind", .str "group")]),
  .master "ann" (.plain 3 .insert .templates "1" [("name", .str "Sea"), ("kind", .str "template")]),
  .master "ann" (.plain 4 .insert .templateIncludes "i"
    [("template_id", .str "t"), ("included_template_id", .str "g")])]

/-- The ends of the inclusion are texts. -/
theorem twoLevel_of_coerced_group :
    TwoLevel (server.after (.fresh .plain) includedGroup).db ∧
    ∀ a, ¬ Relation.TransGen (server.after (.fresh .plain) includedGroup).db.Includes a a := by
  refine twoLevel_of_coerced _ _ ?_
  simp only [includedGroup, Machine.legal_cons, Machine.legal_nil, and_true]
  refine ⟨fun p m ha => absurd ha (Call.asks_addUser rfl), fun p m ha => ?_, fun p m ha => ?_,
    fun p m ha => ?_, fun p m ha _ hp => ?_⟩ <;> obtain ⟨rfl, ht⟩ := Call.asks_master rfl ha
  · exact absurd ht (by decide +kernel)
  · exact absurd ht (by decide +kernel)
  · exact absurd ht (by decide +kernel)
  · exact absurd hp (by decide +kernel)

/-- A boolean passes the guard of an inclusion, and is stored as the id of a template. -/
theorem boolean_includes_template : ¬ ∀ (g : Generator) (calls : List Call),
    TwoLevel (server.after (.fresh g) calls).db := by
  intro h
  let calls := includedGroup ++
    [.master "ann" (.plain 5 .upsert .templateIncludes "i" [("included_template_id", .bool true)])]
  have hrun : ((server.after (.fresh .plain) calls).db.rows.lookup ⟨.templateIncludes, "i"⟩).map
      (·.fields "included_template_id") = some (.str "1") := by
    decide +kernel
  obtain ⟨row, hrow, hend⟩ := Option.map_eq_some_iff.1 hrun
  obtain ⟨x, hx, hkind⟩ := h .plain calls "i" row hrow ("included_template_id", "group") (by decide)
  rw [hend] at hx
  cases hx
  exact absurd hkind (by decide +kernel)

end JitPack
