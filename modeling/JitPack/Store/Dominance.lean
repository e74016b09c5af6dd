import JitPack.Store.Rows

/-!
# Row clocks dominate field clocks

The clock of a stored row is meant to be the greatest the row has seen: no field clock is above it
(`Dominance`), and no write lowers it (`ClocksKept`). A merge keeps both, whatever clock it is given,
since the row takes the greater of the two clocks. The writes that stamp a row with a clock of the
server and no merge are another matter. A new file for a track and the photo of an item replace the
row's clock by the generator's next one, and do not let the generator observe the row's clock first.
They keep both properties where that makes no difference (`Generator.Passed`), and
`dominance_of_overtaking` is the run theorem under that condition.
-/

namespace JitPack

/-- No field clock of the row is above its row clock. -/
def StoredRow.Dominated (row : StoredRow) : Prop := ∀ f c, row.clocks f = some c → c ≤ row.hlc

/-- The row clocks dominate the field clocks. -/
def Dominance (db : Db) : Prop := ∀ key row, db.rows.lookup key = some row → row.Dominated

/-- No row that stays is given a smaller clock. -/
def ClocksKept (db db' : Db) : Prop := ∀ key row row',
  db.rows.lookup key = some row → db'.rows.lookup key = some row' → row.hlc ≤ row'.hlc

/-- The generator can still give a clock of the format, and its next one is greater than `h` without
observing it: the generator or the wall clock has passed `h`. -/
def Generator.Passed (g : Generator) (now : Int) (h : HLC) : Prop :=
  ¬ g.Exhausted ∧ now < 10 ^ 13 ∧
    (h = [] ∨ HLC.valid h = true ∧ ∀ p, HLC.parse h = .ok p → p.stamp ≤ g.reached ∨ p.millis < now)

theorem Generator.Passed.le {g : Generator} {now : Int} {h : HLC} (hp : g.Passed now h) :
    h ≤ (g.next now).1 := by
  obtain ⟨hex, hnow, rfl | ⟨hv, hpast⟩⟩ := hp
  · exact not_lt.1 (List.not_lt_nil _)
  · obtain ⟨p, hparse, -⟩ := HLC.valid_iff_format.1 hv
    refine (lt_next hex hnow hparse hv ?_).le
    rcases hpast p hparse with hle | hlt
    · exact hle.trans_lt reached_lt_tick
    · have := tick_cases g now
      simp only [Parts.stamp, reached, Prod.Lex.toLex_lt_toLex]
      omega

/-- Where the call stamps a stored row without a merge, the server has passed the row's clock. -/
def Call.Overtakes (σ : Server) (c : Call) : Prop :=
  match c.request with
  | .putTrack h tripID _ holderID trackID f =>
    σ.db.tripOf h.holders holderID = some (.str tripID) → ∀ row,
      σ.db.rows.lookup ⟨h.table, trackID⟩ = some row → row.fields "gpx_hash" ≠ .str (c.env.hash f.gpx) →
        σ.hlc.Passed c.env.now row.hlc
  | .setItemImage _ itemID _ | .deleteItemImage _ itemID =>
    ∀ row, σ.db.rows.lookup ⟨.items, itemID⟩ = some row → σ.hlc.Passed c.env.now row.hlc
  | _ => True

/-! ## Statements -/

/-- Both properties of one write. -/
structure Raised (db db' : Db) : Prop where
  dominance : Dominance db → Dominance db'
  kept : ClocksKept db db'

section
variable {sqlite : Sqlite} {now : String} {key : Key} {applied : Fields} {hlc : HLC}
variable {clocks : FieldClocks} {db db₁ db' : Db} {row : StoredRow}

theorem Raised.of_rows (h : db'.rows = db.rows) : Raised db db' where
  dominance hd k r hr := hd k r (h ▸ hr)
  kept k r r' hr hr' := by
    rw [h, hr] at hr'
    cases hr'
    exact le_rfl

/-- A write of one row raises the clocks if that row's new clocks are above the old ones. -/
theorem Raised.of_insert (hrows : db'.rows = db.rows.insert key row)
    (hnew : Dominance db → row.Dominated)
    (hold : ∀ old, db.rows.lookup key = some old → old.hlc ≤ row.hlc) : Raised db db' where
  dominance hd k r hr := by
    by_cases hk : k = key
    · subst hk
      rw [hrows, AList.lookup_insert] at hr
      cases hr
      exact hnew hd
    · rw [hrows, AList.lookup_insert_ne hk] at hr
      exact hd k r hr
  kept k r r' hr hr' := by
    by_cases hk : k = key
    · subst hk
      rw [hrows, AList.lookup_insert] at hr'
      cases hr'
      exact hold r hr
    · rw [hrows, AList.lookup_insert_ne hk, hr] at hr'
      cases hr'
      exact le_rfl

theorem Raised.of_insertRow (hc : ∀ f c, clocks f = some c → c ≤ hlc)
    (h : Db.insertRow sqlite now key applied hlc clocks db = .ok db') : Raised db db' := by
  obtain ⟨hnone, -, -, rfl⟩ := Db.insertRow_ok h
  refine .of_insert rfl (fun _ => hc) fun old hold => ?_
  rw [hnone] at hold
  cases hold

/-- An update raises the clocks if the new row clock is above the old one and above the new field
clocks. -/
theorem Raised.of_updateRow (hr : db.rows.lookup key = some row) (hle : row.hlc ≤ hlc)
    (hc : row.Dominated → ∀ f c, clocks f = some c → c ≤ hlc)
    (h : Db.updateRow sqlite key applied hlc clocks db = .ok db') : Raised db db' := by
  obtain ⟨-, -, rfl⟩ := Db.updateRow_ok hr h
  refine .of_insert rfl (fun hd => hc (hd key row hr)) fun old hold => ?_
  rw [hr] at hold
  cases hold
  exact hle

theorem Raised.of_deleteRow (h : Db.deleteRow key db = .ok db') : Raised db db' where
  dominance hd k r hr f c hc := by
    obtain ⟨row, hrow, hh, hcl⟩ := Db.deleteRow_old h hr
    rw [hh]
    exact hd k row hrow f c (hcl ▸ hc)
  kept k r r' hr hr' := by
    obtain ⟨row, hrow, hh, -⟩ := Db.deleteRow_old h hr'
    rw [hr] at hrow
    cases hrow
    exact hh.ge

theorem Raised.of_rows_eq {db₂ db₃ : Db} (h : Raised db db') (hrows : db.rows = db₂.rows)
    (hrows' : db₃.rows = db'.rows) : Raised db₂ db₃ where
  dominance hd := by
    unfold Dominance at hd ⊢
    rw [hrows']
    exact h.dominance (fun k r hr => hd k r (hrows ▸ hr))
  kept k r r' hr hr' := h.kept k r r' (hrows ▸ hr) (hrows' ▸ hr')

theorem Raised.trans (h : Raised db db₁) (h' : Raised db₁ db')
    (hk : ∀ k row, db.rows.lookup k = some row → (db'.rows.lookup k).isSome →
      (db₁.rows.lookup k).isSome) : Raised db db' where
  dominance hd := h'.dominance (h.dominance hd)
  kept k r r' hr hr' := by
    obtain ⟨r₁, hr₁⟩ := Option.isSome_iff_exists.1 (hk k r hr (by rw [hr']; rfl))
    exact (h.kept k r r₁ hr hr₁).trans (h'.kept k r₁ r' hr₁ hr')

end

/-! ## Writes -/

section
variable {s : Env} {p : Partition} {m : Mutation} {key : Key} {db db' : Db} {res : MutationResult}
variable {row : StoredRow}

/-- A merge into a stored row leaves no field clock above the row clock. -/
theorem merge_dominated (hr : row.Dominated) (m : Mutation) (f : String) (c : HLC)
    (hc : (merge ⟨true, row.fields, row.hlc, row.clocks⟩ m).clocks f = some c) :
    c ≤ max row.hlc m.hlc := by
  rw [merge_clocks] at hc
  split at hc
  · cases hc
    exact le_max_right _ _
  · exact (hr f c hc).trans (le_max_left _ _)

theorem Raised.of_merge {applied : Fields} (hr : db.rows.lookup key = some row) (m : Mutation)
    (h : Db.updateRow s.sqlite key applied (merge (loadRow key db) m).rowHLC
      (merge (loadRow key db) m).clocks db = .ok db') : Raised db db' := by
  rw [loadRow_of_lookup hr, merge_rowHLC] at h
  exact .of_updateRow hr (le_max_left _ _) (fun hd f c hc => merge_dominated hd m f c hc) h

theorem Raised.of_persisted (h : Persisted s key (merge (loadRow key db) m) (loadRow key db).present db
    true db') : Raised db db' := by
  cases h with
  | deleted _ _ h => exact .of_deleteRow h
  | inserted _ hp h =>
    refine .of_insertRow (fun f c hc => ?_) h
    simp only [insertedClocks, Option.or_eq_some_iff] at hc
    rw [merge_clocks] at hc
    have hnone : (loadRow key db).clocks f = none := by
      unfold loadRow at hp ⊢
      cases hr : db.rows.lookup key with
      | none => rfl
      | some row => rw [hr] at hp; cases hp
    rcases hc with hc | ⟨-, hc⟩
    · split at hc
      · cases hc
        simp
      · rw [hnone] at hc
        cases hc
    · split at hc <;> cases hc
      exact le_rfl
  | updated _ hp _ h =>
    obtain ⟨row, hr, -⟩ := loadRow_of_present hp
    exact .of_merge hr m h

theorem Raised.of_applied (h : Applied s p m db res db') : Raised db db' := by
  rcases h.rows with hrows | ⟨t, m', m'', retired, db₁, -, -, hper, ⟨-, hrows⟩ | ⟨-, hp, howner⟩⟩
  · exact .of_rows hrows
  · exact (Raised.of_persisted hper).of_rows_eq rfl hrows
  · obtain ⟨db₂, db₃, hlc, id, hrows₂, hrows₃, hi⟩ := howner
    have hraised := (Raised.of_insertRow (fun f c hc => by cases hc) hi).of_rows_eq hrows₂ hrows₃.symm
    refine (Raised.of_persisted hper).trans hraised fun k row hr _ => ?_
    cases hper with
    | deleted _ hp' => rw [hp] at hp'; cases hp'
    | updated _ hp' => rw [hp] at hp'; cases hp'
    | inserted _ _ h =>
      obtain ⟨-, -, -, rfl⟩ := Db.insertRow_ok h
      by_cases hk : k = ⟨t, m.id⟩
      · rw [hk, AList.lookup_insert]
        rfl
      · rw [AList.lookup_insert_ne hk, hr]
        rfl

theorem Raised.of_restored {e : ConflictEntry} {fields : Fields} (h : Restored s p e fields db db') :
    Raised db db' := by
  obtain ⟨t, m, hlc, db₁, db₂, row, -, hn, hr, -, hu, hrows⟩ := h.rows
  rw [← loadRow_congr hn.rows] at hu
  rw [← hn.rows] at hr
  exact (Raised.of_merge hr _ hu).of_rows_eq hn.rows hrows

theorem Raised.of_taken {tripID itemID takerID : String} (h : Taken s tripID itemID takerID db db') :
    Raised db db' := by
  cases h with
  | intro present held update => exact (Raised.of_merge present _ update).of_rows_eq rfl rfl

/-- A file that is put over a track keeps the clocks of the settings, and pins those without one to
the old row clock. -/
theorem replacedClocks_le {hlc : HLC} (hd : row.Dominated) (hle : row.hlc ≤ hlc) (f : String) (c : HLC)
    (hc : replacedClocks ⟨true, row.fields, row.hlc, row.clocks⟩ hlc f = some c) : c ≤ hlc := by
  unfold replacedClocks at hc
  split at hc
  · cases hc
    exact le_rfl
  · rcases Option.or_eq_some_iff.1 hc with hc | ⟨-, hc⟩
    · exact (hd f c hc).trans hle
    · split at hc <;> cases hc
      exact hle

/-- One effective call keeps both properties if it overtakes what it stamps. -/
theorem Raised.of_effect {σ : Server} {c : Call} (h : Effect c.env σ.hlc σ.db c.request db')
    (ho : c.Overtakes σ) : Raised σ.db db' := by
  unfold Call.Overtakes at ho
  revert ho h
  generalize c.request = r
  intro h ho
  cases h with
  | joined => exact .of_rows rfl
  | applied hr h => exact .of_applied h
  | reverted hr h => exact .of_restored h
  | taken h => exact .of_taken h
  | imageAdded h =>
    cases h with
    | intro holder insert noted =>
      exact (Raised.of_insertRow (fun f c hc => by cases hc) insert).of_rows_eq rfl noted.rows
  | trackStored h =>
    cases h with
    | inserted holder insert noted =>
      exact (Raised.of_insertRow (fun f c hc => by cases hc) insert).of_rows_eq rfl noted.rows
    | replaced holder present differs update noted =>
      have hle := (ho holder _ present differs).le
      rw [loadRow_of_lookup present] at update
      exact (Raised.of_updateRow present hle (fun hd => replacedClocks_le hd hle) update).of_rows_eq rfl
        noted.rows
  | imageStamped hr h =>
    cases h with
    | @intro row _ _ present update noted =>
      have hle : row.hlc ≤ (σ.hlc.next c.env.now).1 := by
        cases hr <;> exact (ho _ present).le
      exact (Raised.of_updateRow present hle (fun hd f c hc => (hd f c hc).trans hle) update).of_rows_eq
        rfl noted.rows

end

/-! ## Runs -/

/-- The step lemma. -/
theorem step_raised {σ : Server} {c : Call} (ho : c.Overtakes σ) :
    Raised σ.db (server.step σ c).2.db := by
  rcases step_cases σ c with h | h
  · exact .of_rows (by rw [h])
  · exact .of_effect h ho

/-- **Row clocks dominate field clocks, and no write lowers a row clock**, in every run whose track
replacements and item photos find the server ahead of the row they stamp. -/
theorem dominance_of_overtaking (g : Generator) (calls : List Call)
    (h : server.Legal (fun σ c => c.Overtakes σ) (.fresh g) calls) :
    Dominance (server.after (.fresh g) calls).db ∧
    ∀ pre c post, calls = pre ++ c :: post →
      ClocksKept (server.after (.fresh g) pre).db (server.after (.fresh g) (pre ++ [c])).db := by
  constructor
  · refine Machine.after_invariant (I := fun σ => Dominance σ.db)
      (fun σ c ho hd => (step_raised ho).dominance hd) ?_ h
    intro key row hr
    cases hr
  · intro pre c post hc
    rw [server.after_append]
    exact (step_raised (h pre c post hc)).kept

/-- A new item, pushed with the clock `hlc`, that gets a photo in October 2025. -/
def photoRun (hlc : String) : List Call := [
  .plain 1760000000000 (.addUser "ann"),
  .plain 1760000000000 (.pushMaster "ann"
    ⟨"m1", .insert, "items", "i1", Fields.decode [("name", .str "Tent")], ascii hlc⟩),
  .plain 1760000000000 (.setItemImage "ann" "i1" [1])]

/-- The photo of an item from a device whose clock is right. -/
theorem dominance_of_overtaking_photo :
    let calls := photoRun "1759999999999-0000-00000000"
    Dominance (server.after (.fresh .plain) calls).db ∧
    ∀ pre c post, calls = pre ++ c :: post →
      ClocksKept (server.after (.fresh .plain) pre).db (server.after (.fresh .plain) (pre ++ [c])).db := by
  refine dominance_of_overtaking _ _ ?_
  simp only [photoRun, Machine.legal_cons, Machine.legal_nil, and_true]
  refine ⟨trivial, trivial, fun row hrow => ⟨by decide +kernel, by decide, .inr ?_⟩⟩
  have hhlc : row.hlc = ascii "1759999999999-0000-00000000" :=
    Option.some.inj ((congrArg (Option.map StoredRow.hlc) hrow).symm.trans (by decide +kernel))
  rw [hhlc]
  refine ⟨by decide +kernel, fun p hp => .inr ?_⟩
  have hparse : HLC.parse (ascii "1759999999999-0000-00000000") =
      .ok ⟨1759999999999, 0, ascii "00000000"⟩ := by decide +kernel
  rw [hparse] at hp
  cases hp
  decide

/-- The photo of an item from a device whose clock runs ahead lowers the clock of the row, below the
clocks of its fields. -/
theorem photo_lowers_clock : ¬ ∀ (g : Generator) (calls : List Call),
    Dominance (server.after (.fresh g) calls).db ∧
    ∀ pre c post, calls = pre ++ c :: post →
      ClocksKept (server.after (.fresh g) pre).db (server.after (.fresh g) (pre ++ [c])).db := by
  intro h
  have hrun : ((server.after (.fresh .plain) (photoRun "9000000000000-0000-00000000")).db.rows.lookup
      ⟨.items, "i1"⟩).map (fun row => (row.hlc, row.clocks "name")) =
      some (ascii "1760000000000-0000-a1b2c3d4", some (ascii "9000000000000-0000-00000000")) := by
    decide +kernel
  obtain ⟨row, hrow, hclocks⟩ := Option.map_eq_some_iff.1 hrun
  have hle := (h _ _).1 _ row hrow "name" _ (Prod.mk.inj hclocks).2
  rw [(Prod.mk.inj hclocks).1] at hle
  revert hle
  decide

end JitPack
