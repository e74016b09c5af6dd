import JitPack.Store.Notes

/-!
# Trips are apart

A push to a trip writes rows of the trip, and what it deletes takes along what hangs on it by the
foreign keys. Both stay inside the trip as long as no row refers to a row of another trip by a
reference that cascades or is emptied (`Isolated`). The gate looks at some of these references, and
at those only if they are texts (`Table.looksAt`). A reference that it does not look at may name a row
of another trip, and a trip that is no text moves a row there. `isolation_of_scoped` is about the runs
in which no write does either.
-/

namespace JitPack

/-- Every reference of a row of a trip to another row of a trip, plain ones apart, stays in its trip. -/
def Isolated (db : Db) : Prop := ∀ key row, db.rows.lookup key = some row → ∀ f t a id,
  key.table.refers f = some (t, a) → a ≠ .noAction → t.partition = .trip → row.fields f = .str id →
  db.tripOf t id = some (row.fields columnTripID)

/-- What has changed are rows of the trip, before and after. -/
def Within (tripID : String) (db db' : Db) : Prop := ∀ key, db'.rows.lookup key ≠ db.rows.lookup key →
  key.table.partition = .trip ∧
  (∀ row, db.rows.lookup key = some row → row.fields columnTripID = .str tripID) ∧
  ∀ row', db'.rows.lookup key = some row' → row'.fields columnTripID = .str tripID

/-- The trip in whose partition a push or a revert writes. -/
def Request.tripID : Request → Option String
  | .push tripID _ _ | .revert tripID _ _ _ => some tripID
  | _ => none

/-- The gate looks at the trip of the row that the column names by the value, or lets no push name the
column at all. -/
def Table.looksAt (t : Table) (f : String) (v : Value) : Bool :=
  match t with
  | .excursionTracks | .ideaTracks | .ideaImages => true
  | .ideaLinks | .mealIngredients | .dayEntryTravelers => v.asString.isSome
  | .comments => f ∈ ["parent_id", "excursion_id", "idea_id", "day_entry_id"] && v.asString.getD "" ≠ ""
  | .shoppingEntries | .excursions | .dayEntries | .meals => v.asString.getD "" ≠ ""
  | _ => false

/-- No write to a trip moves a row to another one by a trip that is no text, or names a row of another
trip by a reference that the gate does not look at. -/
def Call.Scoped (c : Call) (σ : Server) : Prop := ∀ tripID userID t m,
  c.Asks (tripPartition tripID userID) t m → m.op ≠ .delete →
  ((loadRow ⟨t, m.id⟩ σ.db).present = true → ∀ v, m.fields.lookup columnTripID = some v →
    v.asString = none → ∀ trip, c.env.sqlite.store .text v = .str trip →
    (σ.db.rows.lookup ⟨.trips, trip⟩).isSome → trip = tripID) ∧
  ∀ f parent a, t.refers f = some (parent, a) → a ≠ .noAction → parent.partition = .trip →
    ∀ v, m.fields.lookup f = some v → t.looksAt f v = false →
    ∀ id trip, c.env.sqlite.store .text v = .str id → σ.db.tripOf parent id = some trip →
      trip = .str tripID

/-! ## The schema -/

section
variable {t parent : Table} {f : String} {a : OnDelete}

/-- Only rows of trips refer to rows of trips. -/
theorem Table.trip_of_refers (h : t.refers f = some (parent, a)) (hp : parent.partition = .trip) :
    t.partition = .trip := by
  have hall : ∀ t : Table, ∀ r ∈ t.references, r.2.1.partition = .trip → t.partition = .trip := by
    decide
  exact hall t _ (mem_references h) hp

/-- Every row of a trip names it. -/
theorem Table.column_tripID (h : t.partition = .trip) : t.column columnTripID = some tripID := by
  revert h
  revert t
  decide

/-- The trip of a row is a reference. -/
theorem Table.refers_tripID : ∀ t : Table, t.partition = .trip →
    t.refers columnTripID = some (.trips, .cascade) := by
  decide

/-- No row of a trip is retired. -/
theorem Table.trip_lifecycle : ∀ t : Table, t.partition = .trip → t ∉ lifecycleTables := by decide

/-- The server owns no reference to a row. -/
theorem Table.refers_owned (h : t.refers f = some (parent, a)) : f ∉ t.serverOwned.columns := by
  have hall : ∀ t : Table, ∀ r ∈ t.references, r.1 ∉ t.serverOwned.columns := by decide
  exact hall t _ (mem_references h)

/-- The server does not own the trip of a row. -/
theorem Table.tripID_owned : ∀ t : Table, t.partition = .trip → columnTripID ∉ t.serverOwned.columns := by
  decide

/-- A reference is a text, NULL in a new row, and is not the mark of a retired one. -/
theorem Table.refers_text (h : t.refers f = some (parent, a)) (sqlite : Sqlite) (now : String) (v : Value) :
    Db.readBack sqlite t f v = sqlite.store .text v ∧ Db.defaultOf now t f = .null ∧ f ≠ "retired_at" := by
  have hall : ∀ t : Table, ∀ c ∈ t.columns, c.references ≠ none →
      c.affinity = .text ∧ c.default = .null ∧ c.name ≠ "retired_at" := by
    decide
  obtain ⟨c, hc, href⟩ := refers_some h
  obtain ⟨hmem, hname⟩ := column_some hc
  obtain ⟨htext, hnull, hne⟩ := hall t c hmem (by rw [href]; exact nofun)
  refine ⟨?_, ?_, hname ▸ hne⟩
  · rw [Db.readBack, hc]
    exact congrArg (sqlite.store · v) htext
  · rw [Db.defaultOf, hc, Option.map_some, hnull]

end

/-! ## What the gate looks at -/

section
variable {db : Db} {i : GuardInput} {m' : Mutation} {f s column : String} {t parent : Table}
variable {a : OnDelete} {v : Value}

/-- A reference that has passed `ownOrDropped` is to a row of the trip. -/
theorem ownOrDropped_own (h : ownOrDropped column t db i = (m', none))
    (hv : m'.fields.lookup column = some (.str s)) (hs : s ≠ "") :
    db.tripOf t s = some (.str i.tripID) := by
  unfold ownOrDropped at h
  split at h
  · next hnone =>
    obtain ⟨rfl, -⟩ := Prod.mk.inj h
    rw [string_of_lookup hv] at hnone
    cases hnone
  · next hempty =>
    obtain ⟨rfl, -⟩ := Prod.mk.inj h
    rw [string_of_lookup hv] at hempty
    exact absurd (Option.some.inj hempty) hs
  next id _ hid =>
  split at h
  · obtain ⟨rfl, -⟩ := Prod.mk.inj h
    simp at hv
  · next trip htrip =>
    obtain ⟨rfl, hown⟩ := Prod.mk.inj h
    obtain rfl : s = id := by
      rw [string_of_lookup hv] at hid
      exact Option.some.inj hid
    split at hown
    · next heq => rw [htrip, heq]
    · cases hown

/-- A reference that has passed `ownOrRefused` is to a row of the trip. -/
theorem ownOrRefused_own (h : ownOrRefused column t db i = (m', none))
    (hv : m'.fields.lookup column = some (.str s)) : db.tripOf t s = some (.str i.tripID) := by
  unfold ownOrRefused at h
  split at h
  · next hnone =>
    obtain ⟨rfl, -⟩ := Prod.mk.inj h
    rw [string_of_lookup hv] at hnone
    cases hnone
  · next id hid =>
    obtain ⟨rfl, hown⟩ := Prod.mk.inj h
    rw [string_of_lookup hv] at hid
    obtain rfl : s = id := Option.some.inj hid
    split at hown
    · assumption
    · cases hown

/-- The excursion of a note is the trip's. -/
theorem validNoteThread_excursion (hop : i.m.op ≠ .delete) (h : validNoteThread db i = (m', none))
    (hv : m'.fields.lookup "excursion_id" = some (.str s)) (hs : s ≠ "") :
    db.tripOf .excursions s = some (.str i.tripID) := by
  unfold validNoteThread at h
  rw [if_neg hop] at h
  split at h
  · dsimp only at h
    generalize (if (i.row.fields "parent_id").asString.getD "" ≠ "" then
      ((i.m.drop "parent_id").drop "title").drop "excursion_id" else i.m.drop "parent_id") = m at h
    generalize (if isNote i.row.fields = true then m else m.drop "excursion_id") = m₁ at h
    split at h
    · cases h
    split at h
    · cases h
    · exact ownOrDropped_own (i := ⟨i.tripID, i.actorID, m₁, i.row⟩) h hv hs
  · split at h
    · dsimp only at h
      generalize (if isNote i.m.get = true then i.m else i.m.drop "excursion_id") = m at h
      exact ownOrDropped_own (i := ⟨i.tripID, i.actorID, m, i.row⟩) h hv hs
    · dsimp only at h
      split at h
      · cases h
      · obtain ⟨rfl, -⟩ := Prod.mk.inj h
        simp at hv

/-- The parent of a new comment is the trip's, and no other comment gets one. -/
theorem validNoteThread_parent (hop : i.m.op ≠ .delete) (h : validNoteThread db i = (m', none))
    (hv : m'.fields.lookup "parent_id" = some (.str s)) (hs : s ≠ "") :
    db.tripOf .comments s = some (.str i.tripID) := by
  cases hp : i.row.present with
  | true =>
    rw [(validNoteThread_present hop hp h).1] at hv
    cases hv
  | false =>
    have hthin := validNoteThread_thins db i
    rw [h] at hthin
    have hnamed : i.m.string "parent_id" = some s := string_of_lookup (hthin.lookup _ _ hv)
    obtain ⟨first, hfirst, hnote⟩ := firstNoteOf_none (validNoteThread_fresh hop hp hnamed hs h).2.2
    rw [Db.tripOf, hfirst, Option.map_some, hnote.trip]

/-- A list of rules that passes has passed each of them, on a mutation that was thinned since. -/
theorem allOf_passed {rules : List GuardRule} (hthin : ∀ rule ∈ rules, rule.Thins)
    (h : allOf rules db i = (m', none)) : ∀ rule ∈ rules, ∃ m₀ m₁, Thinned i.m m₀ ∧
      rule db { i with m := m₀ } = (m₁, none) ∧ Thinned m₁ m' := by
  induction rules generalizing i with
  | nil => exact nofun
  | cons r rules ih =>
    intro rule hr
    rw [allOf] at h
    have hrest := allOf_thins fun r hr => hthin r (List.mem_cons_of_mem _ hr)
    split at h
    · cases h
    · next m₁ hm₁ =>
      have hfirst := hthin r (List.mem_cons_self ..) db i
      rw [hm₁] at hfirst
      rcases List.mem_cons.1 hr with rfl | hr
      · have hlater := hrest db { i with m := m₁ }
        rw [h] at hlater
        exact ⟨i.m, m₁, .refl i.m, hm₁, hlater⟩
      · obtain ⟨m₂, m₃, h₂, h₃, h₄⟩ := ih (fun r hr => hthin r (List.mem_cons_of_mem _ hr)) h rule hr
        exact ⟨m₂, m₃, hfirst.trans h₂, h₃, h₄⟩

theorem settingsOnly_named {settings : List String} (hop : i.m.op ≠ .delete)
    (h : settingsOnly settings db i = (m', none)) (hv : m'.fields.lookup f = some v) : f ∈ settings := by
  unfold settingsOnly at h
  obtain ⟨rfl, hok⟩ := Prod.mk.inj h
  rw [if_neg hop] at hok
  split at hok
  · cases hok
  split at hok
  · next hall =>
    rw [List.all_eq_true] at hall
    simpa using hall f (AList.mem_keys.2 (AList.lookup_isSome.1 (by rw [hv]; rfl)))
  · cases hok

/-- The guard of the comments looks at four references. -/
theorem guardFor_comments_own (hop : i.m.op ≠ .delete) (h : guardFor .comments db i = (m', none))
    (href : Table.refers .comments f = some (parent, a))
    (hf : f ∈ ["parent_id", "excursion_id", "idea_id", "day_entry_id"])
    (hv : m'.fields.lookup f = some (.str s)) (hs : s ≠ "") :
    db.tripOf parent s = some (.str i.tripID) := by
  have hpassed := allOf_passed (fun rule hr => by
    simp only [List.mem_cons, List.not_mem_nil, or_false] at hr
    rcases hr with rfl | rfl | rfl
    exacts [validNoteThread_thins, ownOrDropped_thins _ _, ownOrDropped_thins _ _]) h
  have hop' {m₀ : Mutation} (h₀ : Thinned i.m m₀) : m₀.op ≠ .delete := by rwa [h₀.frame.op]
  simp only [List.mem_cons, List.not_mem_nil, or_false] at hf
  rcases hf with rfl | rfl | rfl | rfl <;> cases href
  · obtain ⟨m₀, m₁, h₀, h₁, h₂⟩ := hpassed validNoteThread (by simp)
    exact validNoteThread_parent (i := { i with m := m₀ }) (hop' h₀) h₁ (h₂.lookup _ _ hv) hs
  · obtain ⟨m₀, m₁, h₀, h₁, h₂⟩ := hpassed validNoteThread (by simp)
    exact validNoteThread_excursion (i := { i with m := m₀ }) (hop' h₀) h₁ (h₂.lookup _ _ hv) hs
  · obtain ⟨m₀, m₁, h₀, h₁, h₂⟩ := hpassed validIdeaResult (by simp)
    exact ownOrDropped_own (i := { i with m := m₀ }) h₁ (h₂.lookup _ _ hv) hs
  · obtain ⟨m₀, m₁, h₀, h₁, h₂⟩ := hpassed validEntryStep (by simp)
    exact ownOrDropped_own (i := { i with m := m₀ }) h₁ (h₂.lookup _ _ hv) hs

/-- What the gate looks at refers to a row of the trip. -/
theorem guardFor_own (hop : i.m.op ≠ .delete) (h : guardFor t db i = (m', none))
    (href : t.refers f = some (parent, a)) (hp : parent.partition = .trip)
    (hlook : t.looksAt f v = true) (hv : m'.fields.lookup f = some v) :
    ∃ s, v = .str s ∧ db.tripOf parent s = some (.str i.tripID) := by
  have hmem := Table.mem_references href
  have htext (hs : v.asString.getD "" ≠ "") : ∃ s, v = .str s ∧ s ≠ "" := by
    cases v <;> simp_all [Value.asString]
  -- the only other reference of these tables is the trip itself
  have hcolumn {column : String} {t' : Table} {b : OnDelete}
      (hrefs : t.references = [(columnTripID, .trips, .cascade), (column, t', b)]) :
      f = column ∧ parent = t' := by
    rw [hrefs] at hmem
    simp only [List.mem_cons, List.not_mem_nil, or_false, Prod.mk.injEq] at hmem
    rcases hmem with ⟨-, rfl, -⟩ | ⟨hf, ht, -⟩
    · cases hp
    · exact ⟨hf, ht⟩
  have hdropped {column : String} {t' : Table} {b : OnDelete}
      (hrefs : t.references = [(columnTripID, .trips, .cascade), (column, t', b)])
      (hguard : guardFor t = ownOrDropped column t') (hs : v.asString.getD "" ≠ "") :
      ∃ s, v = .str s ∧ db.tripOf parent s = some (.str i.tripID) := by
    obtain ⟨rfl, rfl⟩ := hcolumn hrefs
    obtain ⟨s, rfl, hne⟩ := htext hs
    rw [hguard] at h
    exact ⟨s, rfl, ownOrDropped_own h hv hne⟩
  have hrefused {column : String} {t' : Table} {b : OnDelete}
      (hrefs : t.references = [(columnTripID, .trips, .cascade), (column, t', b)])
      (hguard : guardFor t = ownOrRefused column t') (hs : v.asString.isSome = true) :
      ∃ s, v = .str s ∧ db.tripOf parent s = some (.str i.tripID) := by
    obtain ⟨rfl, rfl⟩ := hcolumn hrefs
    obtain ⟨s, rfl⟩ : ∃ s, v = .str s := by cases v <;> simp_all [Value.asString]
    rw [hguard] at h
    exact ⟨s, rfl, ownOrRefused_own h hv⟩
  have hupload {settings : List String} (hguard : guardFor t = settingsOnly settings)
      (hrefs : ∀ f ∈ settings, t.refers f = none) :
      ∃ s, v = .str s ∧ db.tripOf parent s = some (.str i.tripID) := by
    rw [hguard] at h
    rw [hrefs f (settingsOnly_named hop h hv)] at href
    cases href
  cases t with
  | comments =>
    simp only [Table.looksAt, Bool.and_eq_true, decide_eq_true_eq] at hlook
    obtain ⟨s, rfl, hne⟩ := htext hlook.2
    exact ⟨s, rfl, guardFor_comments_own hop h href hlook.1 hv hne⟩
  | shoppingEntries => exact hdropped rfl rfl (of_decide_eq_true hlook)
  | excursions => exact hdropped rfl rfl (of_decide_eq_true hlook)
  | dayEntries => exact hdropped rfl rfl (of_decide_eq_true hlook)
  | meals => exact hdropped rfl rfl (of_decide_eq_true hlook)
  | ideaLinks => exact hrefused rfl rfl hlook
  | mealIngredients => exact hrefused rfl rfl hlook
  | dayEntryTravelers =>
    obtain ⟨s, rfl⟩ : ∃ s, v = .str s := by
      cases v <;> first | exact ⟨_, rfl⟩ | cases hlook
    have hpassed := allOf_passed (fun rule hr => by
      simp only [List.mem_cons, List.not_mem_nil, or_false] at hr
      rcases hr with rfl | rfl
      exacts [ownOrRefused_thins _ _, ownOrRefused_thins _ _]) h
    rw [show Table.references .dayEntryTravelers = [(columnTripID, .trips, .cascade),
      ("day_entry_id", .dayEntries, .cascade), ("traveler_id", .travelers, .cascade)] from rfl] at hmem
    simp only [List.mem_cons, List.not_mem_nil, or_false, Prod.mk.injEq] at hmem
    rcases hmem with ⟨-, rfl, -⟩ | ⟨rfl, rfl, -⟩ | ⟨rfl, rfl, -⟩
    · cases hp
    · obtain ⟨m₀, m₁, -, h₁, h₂⟩ := hpassed (ownOrRefused "day_entry_id" .dayEntries) (by simp)
      exact ⟨s, rfl, ownOrRefused_own (i := { i with m := m₀ }) h₁ (h₂.lookup _ _ hv)⟩
    · obtain ⟨m₀, m₁, -, h₁, h₂⟩ := hpassed (ownOrRefused "traveler_id" .travelers) (by simp)
      exact ⟨s, rfl, ownOrRefused_own (i := { i with m := m₀ }) h₁ (h₂.lookup _ _ hv)⟩
  | ideaImages => exact hupload rfl (by decide)
  | ideaTracks => exact hupload rfl (by decide)
  | excursionTracks => exact hupload rfl (by decide)
  | _ => cases hlook

end

/-! ## Writes -/

section
variable {c : Call} {σ : Server} {db db' db₁ : Db} {s : Env} {key : Key} {applied : Fields} {hlc : HLC}
variable {clocks : FieldClocks} {p : Partition} {m m' : Mutation} {id trip : String} {t : Table}
variable {rows : Rows}

/-- What was asked for in a trip writes a row of the trip, whose references stay in it. -/
theorem Asked.scoped (ha : Asked c σ.db ⟨t, id⟩ applied p m m') (ht : t.partition = .trip)
    (hc : c.Scoped σ) (put : Put c.env ⟨t, id⟩ applied hlc clocks σ.db rows) : ∃ tripID userID,
    p = tripPartition tripID userID ∧
    (∀ row, σ.db.rows.lookup ⟨t, id⟩ = some row → row.fields columnTripID = .str tripID) ∧
    σ.db.written c.env ⟨t, id⟩ applied columnTripID = .str tripID ∧
    ∀ f parent a x, t.refers f = some (parent, a) → a ≠ .noAction → parent.partition = .trip →
      applied.lookup f ≠ none → σ.db.written c.env ⟨t, id⟩ applied f = .str x →
      ⟨parent, x⟩ = (⟨t, id⟩ : Key) ∨ σ.db.tripOf parent x = some (.str tripID) := by
  obtain ⟨tripID, userID, rfl⟩ := ha.asks.trip ht
  obtain ⟨db₁, hn, hg⟩ := ha.gate
  have hop := (gate_onlyFields tripPartition_thins hg).op
  have hop' : m'.op ≠ .delete := ha.op (Table.trip_lifecycle t ht)
  have hthin := gate_thinned tripPartition_thins hg
  obtain ⟨hbelongs, hguard⟩ := trip_gate hg
  obtain ⟨hpresent, hnamed, hfresh⟩ := belongsToTrip_ok hbelongs
  obtain ⟨hmoved, hrefs⟩ := hc tripID userID t m ha.asks (hop ▸ hop')
  rw [loadRow_congr hn.rows, ha.id] at hpresent hfresh
  rw [ha.id] at hmoved
  have hstamped {f : String} (hf : f ∉ t.serverOwned.columns) :
      ((tripPartition tripID userID).stamped c.env db₁ t m).fields.lookup f = m.fields.lookup f :=
    stampServerOwned_lookup t m _ _ _ hf
  have htripOwned : columnTripID ∉ t.serverOwned.columns :=
    Table.tripID_owned t ht
  refine ⟨tripID, userID, rfl, fun row hrow => ?_, ?_, fun f parent a x href ha' hp happ hx => ?_⟩
  · have htrip := hpresent (by rw [loadRow_of_lookup hrow])
    rwa [loadRow_of_lookup hrow] at htrip
  · have hnull : σ.db.written c.env ⟨t, id⟩ applied columnTripID ≠ .null :=
      Db.allows_notNull put.allows (t.column_tripID ht) rfl
    rcases Db.written_cases c.env ⟨t, id⟩ applied σ.db columnTripID with ⟨-, hbase⟩ | ⟨v, hv, hw⟩
    · cases hrow : σ.db.rows.lookup ⟨t, id⟩ with
      | none =>
        rw [hbase, Db.base_of_absent hrow, Db.defaultOf, t.column_tripID ht] at hnull
        exact absurd rfl hnull
      | some row =>
        have htrip := hpresent (by rw [loadRow_of_lookup hrow])
        rw [loadRow_of_lookup hrow] at htrip
        exact hbase.trans ((congrFun (Db.base_of_lookup hrow) _).trans htrip)
    · have hm' := (ha.fields _ v (by decide) hv).2
      have hm := (hstamped htripOwned).symm.trans (hthin.lookup _ _ hm')
      obtain ⟨trip, htrip, hself | hthere⟩ :=
        (Db.allows_refers put.allows (t.refers_tripID ht)).resolve_left hnull
      · cases hself
        cases ht
      rw [hw, (Table.refers_text (t.refers_tripID ht) c.env.sqlite c.env.sqlNow v).1] at htrip ⊢
      rw [htrip]
      cases hs : v.asString with
      | some named =>
        have hsame := hnamed named ((string_of_lookup (hthin.lookup _ _ hm')).trans hs)
        cases v <;> cases hs
        rw [← hsame]
        exact htrip.symm
      | none =>
        refine congrArg Value.str (hmoved ?_ v hm hs trip htrip hthere)
        by_contra hp
        have hgiven := hfresh (by simpa using hp)
          (by rw [Partition.stamped, (stampServerOwned_onlyFields ..).op]; exact hop ▸ hop')
        rw [string_of_lookup (hthin.lookup _ _ hm'), hs] at hgiven
        cases hgiven
  · obtain ⟨v, hv⟩ := Option.ne_none_iff_exists'.1 happ
    obtain ⟨htext, -, hne⟩ := t.refers_text href c.env.sqlite c.env.sqlNow v
    have hm' := (ha.fields _ v hne hv).2
    have hm := (hstamped (t.refers_owned href)).symm.trans (hthin.lookup _ _ hm')
    rw [Db.written_of_some hv, htext] at hx
    cases hlook : t.looksAt f v with
    | true =>
      obtain ⟨y, rfl, hown⟩ := guardFor_own (by
        rw [Partition.stamped, (stampServerOwned_onlyFields ..).op]; exact hop ▸ hop') hguard href hp hlook hm'
      cases hx
      refine .inr ?_
      rw [Db.tripOf, hn.rows] at hown
      exact hown
    | false =>
      have hallowed := Db.allows_refers put.allows href
      rw [Db.written_of_some hv, htext, hx] at hallowed
      obtain ⟨y, hy, hself | hthere⟩ := hallowed.resolve_left fun hnull => by cases hnull
      · cases hy
        exact .inl hself
      · cases hy
        obtain ⟨row, hrow⟩ := Option.isSome_iff_exists.1 hthere
        have hown : σ.db.tripOf parent x = some (row.fields columnTripID) := by
          rw [Db.tripOf, hrow, Option.map_some]
        rw [hrefs f parent a href ha' hp v hm hlook x _ hx hown] at hown
        exact .inr hown

/-- A write keeps trips apart if its row is of one trip, and so is what it refers to. -/
theorem Isolated.of_put (hdb : Isolated db) (trip : String) (put : Put s key applied hlc clocks db db'.rows)
    (h : key.table.partition = .trip →
      (∀ row, db.rows.lookup key = some row → row.fields columnTripID = .str trip) ∧
      db.written s key applied columnTripID = .str trip ∧
      ∀ f parent a x, key.table.refers f = some (parent, a) → a ≠ .noAction → parent.partition = .trip →
        applied.lookup f ≠ none → db.written s key applied f = .str x →
        ⟨parent, x⟩ = key ∨ db.tripOf parent x = some (.str trip)) : Isolated db' := by
  -- the trip of any row but the written one, and of the written one if it was there
  have hkept {t : Table} {x : String} {v : Value} (hp : t.partition = .trip)
      (hv : db.tripOf t x = some v) (hne : ⟨t, x⟩ ≠ key ∨ v = .str trip) : db'.tripOf t x = some v := by
    rw [Db.tripOf, put.lookup]
    split
    · next hk =>
      subst hk
      exact congrArg some ((h hp).2.1.trans (hne.resolve_left fun h => h rfl).symm)
    · exact hv
  intro k row hrow f t a x href ha ht hx
  rw [put.lookup] at hrow
  split at hrow
  · next hk =>
    subst hk
    cases hrow
    obtain ⟨hold, hnew, hrefs⟩ := h (Table.trip_of_refers href ht)
    change db.written s k applied f = .str x at hx
    have htarget : ⟨t, x⟩ = k ∨ db.tripOf t x = some (.str trip) := by
      cases happ : applied.lookup f with
      | some v => exact hrefs f t a x href ha ht (by rw [happ]; exact nofun) hx
      | none =>
        rw [Db.written_of_none happ] at hx
        cases hk : db.rows.lookup k with
        | none =>
          rw [Db.base_of_absent hk, (Table.refers_text href s.sqlite s.sqlNow .null).2.1] at hx
          cases hx
        | some old =>
          rw [Db.base_of_lookup hk] at hx
          exact .inr ((hdb k old hk f t a x href ha ht hx).trans (congrArg some (hold old hk)))
    change db'.tripOf t x = some (db.written s k applied columnTripID)
    rw [hnew]
    rcases htarget with rfl | hown
    · rw [Db.tripOf, put.lookup, if_pos rfl]
      exact congrArg some hnew
    · exact hkept ht hown (.inr rfl)
  · next hne =>
    have hown := hdb k row hrow f t a x href ha ht hx
    refine hkept ht hown ?_
    by_cases hk : ⟨t, x⟩ = key
    · refine .inr ?_
      subst hk
      obtain ⟨target, htarget, htrip⟩ := Option.map_eq_some_iff.1 hown
      rw [← htrip]
      exact (h ht).1 target htarget
    · exact .inl hk

/-- A write of a row that is there and of none of its references keeps trips apart. -/
theorem Isolated.of_kept (hdb : Isolated db) (put : Put s key applied hlc clocks db db'.rows)
    {row : StoredRow} (hrow : db.rows.lookup key = some row)
    (h : ∀ f, key.table.refers f ≠ none → applied.lookup f = none) : Isolated db' := by
  have hkept (ht : key.table.partition = .trip) : ∃ trip, row.fields columnTripID = .str trip ∧
      db.written s key applied columnTripID = .str trip := by
    have href := key.table.refers_tripID ht
    have hsame : db.written s key applied columnTripID = row.fields columnTripID := by
      rw [Db.written_of_none (h _ (by rw [href]; exact nofun)), Db.base_of_lookup hrow]
    obtain ⟨trip, htrip, -⟩ := (Db.allows_refers put.allows href).resolve_left
      (Db.allows_notNull put.allows (key.table.column_tripID ht) rfl)
    exact ⟨trip, hsame.symm.trans htrip, htrip⟩
  by_cases ht : key.table.partition = .trip
  · obtain ⟨trip, hold, hnew⟩ := hkept ht
    refine hdb.of_put _ put fun _ => ⟨fun row' hrow' => ?_, hnew, fun f parent a x href _ _ happ => ?_⟩
    · rw [hrow] at hrow'
      cases hrow'
      exact hold
    · exact absurd (h f (by rw [href]; exact nofun)) happ
  · exact hdb.of_put "" put fun h => absurd h ht

/-- A row that a delete leaves keeps its trip. -/
theorem tripOf_deleteRow (hkey : (db.rows.lookup key).isSome) (h : Db.deleteRow key db = .ok db')
    (ht : t.partition = .trip) (hthere : (db'.rows.lookup ⟨t, id⟩).isSome) :
    db'.tripOf t id = db.tripOf t id := by
  obtain ⟨row', hrow'⟩ := Option.isSome_iff_exists.1 hthere
  obtain ⟨row, hrow, -, rfl⟩ := Db.deleteRow_left hkey h hrow'
  rw [Db.tripOf, Db.tripOf, hrow', hrow]
  exact congrArg some (Db.forget_of_refers _ (.inr ⟨_, t.refers_tripID ht⟩))

/-- What is uploaded to a trip has a holder beside its trip. -/
theorem upload_holder : ∀ t ∈ uploadTables, t.partition = .trip →
    ∃ f parent a, t.refers f = some (parent, a) ∧ f ≠ columnTripID ∧ parent ≠ .trips := by
  intro t ht
  simp only [uploadTables, List.mem_cons, List.not_mem_nil, or_false] at ht
  rcases ht with rfl | rfl | rfl | rfl
  · exact fun htrip => by cases htrip
  · exact fun _ => ⟨"idea_id", .ideas, .cascade, rfl, by decide, by decide⟩
  · exact fun _ => ⟨"idea_id", .ideas, .cascade, rfl, by decide, by decide⟩
  · exact fun _ => ⟨"excursion_id", .excursions, .cascade, rfl, by decide, by decide⟩

/-- What a takeover writes. -/
theorem takenFields_named {takerID : String} {v : Value} (h : (takenFields s takerID).lookup f = some v) :
    f ∈ [fieldState, "packing_now_by", "packing_now_at"] := by
  have hkey : f ∈ takenFields s takerID := AList.lookup_isSome.1 (by rw [h]; rfl)
  simp only [takenFields, Fields.decode, List.foldl_cons, List.foldl_nil, AList.mem_insert,
    AList.notMem_empty, or_false] at hkey
  rcases hkey with rfl | rfl | rfl <;> simp

/-- A delete keeps trips apart. -/
theorem Isolated.deleteRow (hdb : Isolated db) (hkey : (db.rows.lookup key).isSome)
    (h : Db.deleteRow key db = .ok db') (hrefs : db'.RefsHold) : Isolated db' := by
  intro k row' hrow' f t a x href ha ht hx
  have hpart := Table.trip_of_refers href ht
  obtain ⟨row, hrow, -, hleft⟩ := Db.deleteRow_left hkey h hrow'
  have htrip : row'.fields columnTripID = row.fields columnTripID := by
    rw [hleft]
    exact Db.forget_of_refers _ (.inr ⟨_, k.table.refers_tripID hpart⟩)
  have hold : row.fields f = .str x := by
    rw [hleft] at hx
    rcases Db.forget_cases (db.removed key) k.table row.fields f with hsame | ⟨_, _, -, -, -, hnull⟩
    · exact hsame.symm.trans hx
    · exact absurd (hnull.symm.trans hx) nofun
  obtain ⟨y, hy, hthere⟩ := (hrefs k row' hrow' f t a href).resolve_left (by rw [hx]; exact nofun)
  obtain rfl : x = y := Value.str.inj (hx.symm.trans hy)
  rw [tripOf_deleteRow hkey h ht hthere, htrip]
  exact hdb k row hrow f t a x href ha ht hold

theorem Isolated.alters (hdb : Isolated σ.db) (hc : c.Scoped σ) (hrefs : db'.RefsHold)
    (h : Alters c σ.db db'.rows) : Isolated db' := by
  have hcongr {db₁ : Db} (hrows : db'.rows = db₁.rows) (h₁ : Isolated db₁) : Isolated db' := by
    unfold Isolated at *
    simpa only [Db.tripOf, hrows] using h₁
  have hasked {t : Table} {id : String} {applied : Fields} {p : Partition} {m m' : Mutation} {hlc : HLC}
      {clocks : FieldClocks} (ha : Asked c σ.db ⟨t, id⟩ applied p m m')
      (put : Put c.env ⟨t, id⟩ applied hlc clocks σ.db db'.rows) : Isolated db' := by
    by_cases ht : t.partition = .trip
    · obtain ⟨tripID, -, -, hold, hnew, hown⟩ := ha.scoped ht hc put
      exact hdb.of_put _ put fun _ => ⟨hold, hnew, hown⟩
    · exact hdb.of_put "" put fun h => absurd h ht
  generalize hrows : db'.rows = rows at h
  cases h with
  | nothing => exact hcongr hrows hdb
  | @deleted p m t m' db₁ hr valid gate hop present delete =>
    obtain ⟨row, hrow, -⟩ := loadRow_of_present present
    exact hcongr hrows (hdb.deleteRow (by rw [hrow]; rfl) delete (hrefs.congr hrows.symm))
  | pushed hr valid how hop put old => exact hasked (how.asked hr valid hop _) (hrows ▸ put)
  | founded hr valid gate hop fresh put absent owner =>
    have hfounded := hdb.of_put "" put fun h => absurd h (by simp [Table.partition])
    exact hfounded.of_put "" (hrows ▸ owner) fun h => absurd h (by simp [Table.partition])
  | restored hr valid noted present gate put => exact hasked (hr.asked valid noted gate _) (hrows ▸ put)
  | @taken tripID itemID takerID hlc rows hr present put =>
    obtain ⟨row, hrow, -⟩ := loadRow_of_present present
    refine hdb.of_kept (hrows ▸ put) hrow fun f hf => ?_
    refine Option.eq_none_iff_forall_ne_some.2 fun v hv => hf ?_
    have hnamed := takenFields_named (lookup_of_applied hv)
    simp only [List.mem_cons, List.not_mem_nil, or_false] at hnamed
    rcases hnamed with rfl | rfl | rfl <;> rfl
  | @attached key applied hlc clocks tripID rows k ht absent own fields put =>
    refine hdb.of_put tripID (hrows ▸ put) fun hpart => ?_
    have href := key.table.refers_tripID hpart
    obtain ⟨holder, p, b, hholder, hne, hp⟩ := upload_holder key.table ht hpart
    -- the holder is no trip, for then nothing would refer to it
    have htable : p = k.table := by
      rcases fields holder p b hholder with ⟨rfl, -⟩ | ⟨hk, -⟩
      exacts [absurd rfl hne, hk]
    refine ⟨fun row hrow => ?_, ?_, fun f parent a x href _ hp _ hx => .inr ?_⟩
    · rw [absent] at hrow
      cases hrow
    · rcases fields _ _ _ href with ⟨-, hv⟩ | ⟨hk, -⟩
      · rw [Db.written_of_some hv, (Table.refers_text href c.env.sqlite c.env.sqlNow _).1]
        rfl
      · exact absurd (htable.trans hk.symm) hp
    · rcases fields f parent a href with ⟨rfl, -⟩ | ⟨hk, hv⟩
      · rw [key.table.refers_tripID hpart] at href
        cases href
        cases hp
      · rw [Db.written_of_some hv, (Table.refers_text href c.env.sqlite c.env.sqlNow _).1] at hx
        cases hx
        rw [hk]
        exact own
  | stamped ht present fields put =>
    obtain ⟨row, hrow, -⟩ := loadRow_of_present present
    exact hdb.of_kept (hrows ▸ put) hrow fields

/-! ## One call in a trip -/

/-- What a push or a revert in a trip does to the rows. -/
inductive TripStep (c : Call) (tripID : String) (db : Db) : Rows → Prop where
  | nothing : TripStep c tripID db db.rows
  | deleted {userID m t m' db'} (ht : t.partition = .trip)
      (gate : (tripPartition tripID userID).gate c.env db t m = (m', none))
      (present : (loadRow ⟨t, m.id⟩ db).present = true) (delete : Db.deleteRow ⟨t, m.id⟩ db = .ok db') :
      TripStep c tripID db db'.rows
  | written {userID t id applied m m' hlc clocks rows} (ht : t.partition = .trip)
      (asked : Asked c db ⟨t, id⟩ applied (tripPartition tripID userID) m m')
      (put : Put c.env ⟨t, id⟩ applied hlc clocks db rows) : TripStep c tripID db rows

theorem Applied.tripStep {tripID userID : String} {res : MutationResult}
    (hr : Pushes c.request (tripPartition tripID userID) m)
    (h : Applied c.env (tripPartition tripID userID) m db res db') : TripStep c tripID db db'.rows := by
  rcases h.rows with hrows | ⟨t, m', m'', retired, db₁, valid, how, hper, hrows⟩
  · rw [hrows]
    exact .nothing
  have ht : t.partition = .trip := of_decide_eq_true (validate_ok valid).2
  obtain rfl : m'' = m' := by
    rcases how.write with ⟨-, rfl, -⟩ | ⟨-, -, hret, -⟩
    · rfl
    · cases hret
  have hhlc := (gate_onlyFields hr.thins how.gate).hlc
  obtain ⟨-, hrows⟩ | ⟨rfl, -⟩ := hrows
  · rw [hrows]
    rcases hper.put rfl (hhlc ▸ hr.hlc_ne) with ⟨-, hp, -, hdel⟩ | ⟨-, hop, hput⟩
    · exact .deleted ht how.gate hp hdel
    · exact .written ht (how.asked hr valid hop _) hput
  · cases ht

theorem Restored.tripStep {tripID userID : String} {e : ConflictEntry} {fields : Fields}
    (hr : Reverts c.request (tripPartition tripID userID) e fields)
    (h : Restored c.env (tripPartition tripID userID) e fields db db') : TripStep c tripID db db'.rows := by
  obtain ⟨t, m, hlc, db₁, db₂, row, valid, hn, hrow, hg, hu, hrows⟩ := h.rows
  have hp : (loadRow ⟨t, e.key.id⟩ db).present = true := by
    rw [loadRow_of_lookup hrow]
  rw [hrows]
  exact .written (of_decide_eq_true (validate_ok valid).2) (hr.asked valid hn hg _)
    (put_of_updateRow hn.users hn.rows hp hu)

theorem Effect.tripStep {tripID : String} (h : Effect c.env σ.hlc db c.request db')
    (hc : c.request.tripID = some tripID) : TripStep c tripID db db'.rows := by
  generalize hr : c.request = r at h hc
  cases h with
  | applied hp h =>
    cases hp with
    | trip hv =>
      cases hc
      exact h.tripStep (hr ▸ .trip hv)
    | _ => cases hc
  | reverted hp h =>
    cases hp with
    | trip hv =>
      cases hc
      exact h.tripStep (hr ▸ .trip hv)
    | _ => cases hc
  | imageStamped hs => cases hs <;> cases hc
  | _ => cases hc

/-- A push or a revert in a trip. -/
theorem step_trip {tripID : String} (σ : Server) (c : Call) (hc : c.request.tripID = some tripID) :
    TripStep c tripID σ.db (server.step σ c).2.db.rows := by
  rcases step_cases σ c with h | h
  · rw [h]
    exact .nothing
  · exact h.tripStep hc

/-- What hangs on a row of a trip is of the trip. -/
theorem Isolated.hangs (hdb : Isolated db) {k child : Key} (h : Relation.ReflTransGen db.Hangs k child)
    (hk : k.table.partition = .trip) (htrip : db.tripOf k.table k.id = some (.str trip)) :
    child.table.partition = .trip ∧ db.tripOf child.table child.id = some (.str trip) := by
  induction h with
  | refl => exact ⟨hk, htrip⟩
  | tail _ hang ih =>
    obtain ⟨hpart, hparent⟩ := ih
    obtain ⟨row, f, hrow, href, hv⟩ := hang.refers
    refine ⟨Table.trip_of_refers href hpart, ?_⟩
    have hown := hdb _ row hrow f _ _ _ href nofun hpart hv
    rw [Db.tripOf, hrow, Option.map_some, ← hown]
    exact hparent

/-- A delete of a row of a trip changes rows of the trip. -/
theorem Isolated.within_deleteRow (hdb : Isolated db) (ht : key.table.partition = .trip)
    (htrip : db.tripOf key.table key.id = some (.str trip)) (h : Db.deleteRow key db = .ok db') :
    Within trip db db' := by
  have hkey : (db.rows.lookup key).isSome := by
    obtain ⟨row, hrow, -⟩ := Option.map_eq_some_iff.1 htrip
    rw [hrow]
    rfl
  have hgone {k : Key} (hk : k ∈ db.removed key) := hdb.hangs (Db.mem_removed.1 hk) ht htrip
  intro k hne
  -- a changed row was removed, or it referred to one that was
  have hown : k.table.partition = .trip ∧ db.tripOf k.table k.id = some (.str trip) := by
    by_cases hk : k ∈ db.removed key
    · exact hgone hk
    cases hrow : db.rows.lookup k with
    | none => exact absurd ((Db.deleteRow_gone hkey h).2 (.inl hrow)) (hrow ▸ hne)
    | some row =>
      have hleft : db'.rows.lookup k = some { row with
          fields := Db.forget (db.removed key) k.table row.fields } := by
        rw [Db.deleteRow_lookup h, if_pos hkey, hrow, Option.bind_some, Db.leftOf, if_neg hk]
      have hforgot : Db.forget (db.removed key) k.table row.fields ≠ row.fields := by
        intro hsame
        rw [hleft, hsame, hrow] at hne
        exact hne rfl
      obtain ⟨f, hf⟩ := Function.ne_iff.1 hforgot
      obtain ⟨parent, id, href, hv, hmem, -⟩ := (Db.forget_cases _ _ _ f).resolve_left hf
      obtain ⟨hpart, hparent⟩ := hgone hmem
      refine ⟨Table.trip_of_refers href hpart, ?_⟩
      rw [Db.tripOf, hrow, Option.map_some, ← hdb k row hrow f parent _ id href nofun hpart hv]
      exact hparent
  refine ⟨hown.1, fun row hrow => ?_, fun row' hrow' => ?_⟩
  · have hfield := hown.2
    rw [Db.tripOf, hrow, Option.map_some] at hfield
    exact Option.some.inj hfield
  · have hfield : db'.tripOf k.table k.id = db.tripOf k.table k.id :=
      tripOf_deleteRow hkey h hown.1 (by rw [hrow']; rfl)
    rw [hown.2, Db.tripOf, hrow', Option.map_some] at hfield
    exact Option.some.inj hfield

/-- A push or a revert in a trip changes rows of the trip. -/
theorem TripStep.within {tripID : String} (h : TripStep c tripID σ.db db'.rows) (hdb : Isolated σ.db)
    (hc : c.Scoped σ) : Within tripID σ.db db' := by
  generalize hrows : db'.rows = rows at h
  cases h with
  | nothing =>
    intro k hne
    exact absurd (congrArg _ hrows) hne
  | @deleted userID m t m' db₁ ht gate present delete =>
    obtain ⟨row, hrow, -⟩ := loadRow_of_present present
    obtain ⟨hpresent, -⟩ := belongsToTrip_ok (trip_gate gate).1
    have htrip : σ.db.tripOf t m.id = some (.str tripID) := by
      have hfield := hpresent present
      rw [loadRow_of_lookup hrow] at hfield
      rw [Db.tripOf, hrow]
      exact congrArg some hfield
    have hwithin : Within tripID σ.db db₁ :=
      hdb.within_deleteRow (show (⟨t, m.id⟩ : Key).table.partition = .trip from ht) htrip delete
    unfold Within at *
    rwa [hrows]
  | @written userID t id applied m m' hlc clocks rows ht asked put =>
    obtain ⟨tripID', userID', hp, hold, hnew, -⟩ := asked.scoped ht hc put
    obtain rfl : tripID = tripID' := Option.some.inj (congrArg Partition.feed hp)
    intro k hne
    rw [hrows, put.lookup] at hne ⊢
    split at hne
    · next hk =>
      subst hk
      refine ⟨ht, hold, fun row' hrow' => ?_⟩
      rw [if_pos rfl] at hrow'
      cases hrow'
      exact hnew
    · exact absurd rfl hne

end

/-! ## Runs -/

/-- **Trips are apart, and a push to a trip writes rows of the trip**, in every run in which no write
names another trip, or a row of one, where the gate does not look. -/
theorem isolation_of_scoped (g : Generator) (calls : List Call)
    (hc : server.Legal (fun σ c => c.Scoped σ) (.fresh g) calls) :
    Isolated (server.after (.fresh g) calls).db ∧
    ∀ pre c post, calls = pre ++ c :: post → ∀ tripID, c.request.tripID = some tripID →
      Within tripID (server.after (.fresh g) pre).db (server.after (.fresh g) (pre ++ [c])).db := by
  have hinv (calls : List Call) (hc : server.Legal (fun σ c => c.Scoped σ) (.fresh g) calls) :
      Isolated (server.after (.fresh g) calls).db := by
    induction calls using List.reverseRecOn with
    | nil =>
      intro key row hr
      cases hr
    | append_singleton calls c ih =>
      have hrefs := refsHold_after g (calls ++ [c])
      rw [server.after_append] at hrefs ⊢
      exact (ih hc.append_left).alters (hc calls c [] (by simp)) hrefs (step_alters _ c)
  refine ⟨hinv calls hc, fun pre c post hcalls tripID htrip => ?_⟩
  rw [server.after_append]
  subst hcalls
  exact (step_trip _ c htrip).within (hinv pre hc.append_left) (hc pre c post rfl)

/-- A push to the master partition writes no row of a trip. -/
theorem Call.scoped_master {σ : Server} {userID : String} {m : Mutation} :
    (Call.master userID m).Scoped σ := by
  intro tripID user t m' ha
  generalize hp : tripPartition tripID user = p at ha
  cases ha with
  | push hr =>
    cases hr
    cases congrArg Partition.feed hp
  | revert hr => cases hr

/-- A push to a trip that names its trip by a text, and no row where the gate does not look. -/
theorem Call.scoped_trip {σ : Server} {tripID userID : String} {m : Mutation} {t : Table}
    (ht : Table.ofName m.table = some t)
    (htrip : (m.fields.lookup columnTripID).all (·.asString.isSome) = true)
    (hrefs : ∀ r ∈ t.references, r.2.1.partition = .trip →
      (m.fields.lookup r.1).all (t.looksAt r.1) = true) : (Call.trip tripID userID m).Scoped σ := by
  intro tripID' user t' m' ha _
  obtain ⟨-, rfl, ht'⟩ := Call.asks_trip rfl ha
  obtain rfl : t = t' := Option.some.inj (ht.symm.trans ht')
  refine ⟨fun _ v hv hs => ?_, fun f parent a href _ hp v hv hlook => ?_⟩
  · rw [hv, Option.all_some, hs] at htrip
    cases htrip
  · have hall := hrefs _ (Table.mem_references href) hp
    rw [hv, Option.all_some, hlook] at hall
    cases hall

/-- Ann's thread names her trip and a comment of it. -/
theorem isolation_of_scoped_ann : Isolated (server.after (.fresh .plain) annsThread).db ∧
    ∀ pre c post, annsThread = pre ++ c :: post → ∀ tripID, c.request.tripID = some tripID →
      Within tripID (server.after (.fresh .plain) pre).db
        (server.after (.fresh .plain) (pre ++ [c])).db := by
  refine isolation_of_scoped _ _ ?_
  simp only [annsThread, annsTrip, List.cons_append, List.nil_append, Machine.legal_cons,
    Machine.legal_nil, and_true]
  refine ⟨fun _ _ _ _ ha => absurd ha (Call.asks_addUser rfl), Call.scoped_master, ?_, ?_⟩
  · refine Call.scoped_trip (t := .comments) ?_ ?_ ?_ <;> decide +kernel
  · refine Call.scoped_trip (t := .comments) ?_ ?_ ?_ <;> decide +kernel

/-- An acknowledgement may be of a comment of another trip. -/
theorem ack_leaves_trip : ¬ ∀ (g : Generator) (calls : List Call),
    Isolated (server.after (.fresh g) calls).db ∧
    ∀ pre c post, calls = pre ++ c :: post → ∀ tripID, c.request.tripID = some tripID →
      Within tripID (server.after (.fresh g) pre).db (server.after (.fresh g) (pre ++ [c])).db := by
  intro h
  let env := { Env.plain 1760000000000 with randomID := fun n => "s" ++ toString n }
  let calls := annsThread ++ [
    .plain 1760000000000 (.addUser "bob"),
    { env, faults := fun _ => false, request := .pushMaster "bob"
        (.plain 4 .insert .trips "T2" [("name", .str "Bergen"), ("year", .float 2026)]) },
    .trip "T2" "bob" (.plain 5 .insert .noteAcks "A1"
      [("trip_id", .str "T2"), ("comment_id", .str "N1"), ("acked", .bool true)])]
  have hack : ((server.after (.fresh .plain) calls).db.rows.lookup ⟨.noteAcks, "A1"⟩).map
      (fun row => (row.fields "comment_id", row.fields columnTripID)) = some (.str "N1", .str "T2") := by
    decide +kernel
  have hnote : (server.after (.fresh .plain) calls).db.tripOf .comments "N1" = some (.str "T1") := by
    decide +kernel
  obtain ⟨row, hrow, hfields⟩ := Option.map_eq_some_iff.1 hack
  obtain ⟨hcomment, htrip⟩ := Prod.mk.inj hfields
  have hown := (h .plain calls).1 _ row hrow "comment_id" .comments .cascade "N1" rfl nofun rfl hcomment
  rw [hnote, htrip] at hown
  exact absurd hown (by decide)

end JitPack
