import JitPack.Store.Dominance
import JitPack.Store.Steady
import JitPack.Store.WhoWhen

/-!
# Reverts

A revert writes the losing values of one conflict back, with a clock of its own, and spends the entries
of the log it has restored. `Db.Spends` is what a call may do to the entries: one that is spent stays
spent for as long as it is in the log. `trip_revert` says what a revert has done to the row.
-/

namespace JitPack

open Db
open Txn (World)
open Txn.Proc

/-! ## Entries -/

/-- An entry that is not spent was not spent before, or has come under a new id. -/
def Db.Spends (db db' : Db) : Prop := ∀ e ∈ db'.conflictLog, e.reverted = false →
  e ∈ db.conflictLog ∨ ∀ e' ∈ db.conflictLog, e'.id ≠ e.id

/-- Every entry that is not spent was there before. -/
def Db.SpendsOnly (db₀ db : Db) : Prop :=
  ∀ e ∈ db.conflictLog, e.reverted = false → e ∈ db₀.conflictLog

/-- No entry is lost, and what comes to the log has a new id. -/
def Db.LogsOnly (db₀ db : Db) : Prop :=
  db₀.Spends db ∧ ∀ e ∈ db₀.conflictLog, ∃ e' ∈ db.conflictLog, e'.id = e.id

/-- No two entries share an id. -/
def Db.ConflictsUnique (db : Db) : Prop := (db.conflictLog.map (·.id)).Nodup

/-- The conflict log is the one that the call has found. -/
def SameConflicts (db₀ db : Db) : Prop := db.conflictLog = db₀.conflictLog

section
variable {s : Env} {p : Partition} {m : Mutation} {key : Key} {row : Row} {hlc : HLC}
variable {applied : Fields} {clocks : FieldClocks} {sqlite : Sqlite} {now : String}
variable {I : Db → Prop} {db₀ db db' : Db}

theorem insertRow_conflictLog (h : Db.insertRow sqlite now key applied hlc clocks db = .ok db') :
    db'.conflictLog = db.conflictLog := by
  obtain ⟨-, -, -, rfl⟩ := Db.insertRow_ok h
  rfl

theorem updateRow_conflictLog (h : Db.updateRow sqlite key applied hlc clocks db = .ok db') :
    db'.conflictLog = db.conflictLog := by
  unfold Db.updateRow at h
  split at h
  · cases h
  split at h
  · cases h
    rfl
  dsimp only at h
  split at h <;> cases h
  rfl

theorem deleteRow_conflictLog (h : Db.deleteRow key db = .ok db') :
    db'.conflictLog.Sublist db.conflictLog := by
  unfold Db.deleteRow at h
  split at h
  · cases h
    exact .refl _
  dsimp only at h
  split at h <;> cases h
  exact List.filter_sublist

/-- A property of the conflict log alone is kept by all that does not touch it. -/
theorem steady_of_conflicts (hI : ∀ db db' : Db, db'.conflictLog = db.conflictLog → I db → I db') :
    Steady (fun _ => True) I where
  valid _ := trivial
  minted _ _ := trivial
  loads _ _ := trivial
  logs _ h := hI _ _ h
  insert _ h := hI _ _ (insertRow_conflictLog h)
  update _ h := hI _ _ (updateRow_conflictLog h)

theorem spendsOnly_steady : Steady (fun _ => True) db₀.SpendsOnly := steady_of_conflicts fun db db' h hi => by
  unfold Db.SpendsOnly
  rwa [h]

theorem logsOnly_steady : Steady (fun _ => True) db₀.LogsOnly := steady_of_conflicts fun db db' h hi => by
  unfold Db.LogsOnly Db.Spends
  rwa [h]

theorem sameConflicts_steady : Steady (fun _ => True) (SameConflicts db₀) :=
  steady_of_conflicts fun _ _ h hi => h.trans hi

theorem unique_steady : Steady (fun _ => True) Db.ConflictsUnique := steady_of_conflicts fun db db' h hi => by
  unfold Db.ConflictsUnique
  rwa [h]

theorem Db.SpendsOnly.spends (h : db₀.SpendsOnly db) : db₀.Spends db := fun e he hr => .inl (h e he hr)

namespace SameConflicts

theorem mem (h : SameConflicts db₀ db) {e : ConflictEntry} : e ∈ db.conflictLog ↔ e ∈ db₀.conflictLog := by
  rw [SameConflicts] at h
  rw [h]

theorem spendsOnly (h : SameConflicts db₀ db) : db₀.SpendsOnly db := fun _ he _ => h.mem.1 he

theorem spends (h : SameConflicts db₀ db) : db₀.Spends db := h.spendsOnly.spends

theorem logsOnly (h : SameConflicts db₀ db) : db₀.LogsOnly db :=
  ⟨h.spends, fun e he => ⟨e, h.mem.2 he, rfl⟩⟩

end SameConflicts

/-! ## Pushes -/

theorem spendsOnly_of_deleteRow (h : Db.deleteRow key db = .ok db') (hi : db₀.SpendsOnly db) :
    db₀.SpendsOnly db' := fun e he hr => hi e ((deleteRow_conflictLog h).subset he) hr

/-- A conflict comes to the log under an id that no entry has. -/
theorem logConflicts_meets {conflicts : List Conflict} (hI : ∀ db e, (∀ e' ∈ db.conflictLog, e'.id ≠ e.id) →
    I db → I { db with conflictLog := db.conflictLog ++ [e] }) :
    Meets I I (logConflicts s p m key conflicts) := by
  refine .forM fun c _ => (Meets.memory _).bind_same fun id => Meets.write fun db db' h hi => ?_
  split at h
  · next hfresh =>
    cases h
    exact hI db _ (by simpa using hfresh.2) hi
  · cases h

theorem logConflicts_logsOnly {conflicts : List Conflict} :
    Meets db₀.LogsOnly db₀.LogsOnly (logConflicts s p m key conflicts) := by
  refine logConflicts_meets fun db e hnew hi => ⟨fun e₁ he hr => ?_, fun e₁ he => ?_⟩
  · rcases List.mem_append.1 he with he | he
    · exact hi.1 e₁ he hr
    · obtain rfl := List.mem_singleton.1 he
      refine .inr fun e' he' => ?_
      obtain ⟨e'', he'', hid⟩ := hi.2 e' he'
      exact hid ▸ hnew e'' he''
  · obtain ⟨e', he', hid⟩ := hi.2 e₁ he
    exact ⟨e', List.mem_append_left _ he', hid⟩

theorem logConflicts_unique {conflicts : List Conflict} :
    Meets Db.ConflictsUnique Db.ConflictsUnique (logConflicts s p m key conflicts) := by
  refine logConflicts_meets fun db e hnew hi => ?_
  unfold Db.ConflictsUnique at hi ⊢
  rw [List.map_append, List.map_singleton, List.nodup_append]
  refine ⟨hi, List.nodup_singleton _, fun a ha b hb => ?_⟩
  obtain ⟨e', he', rfl⟩ := List.mem_map.1 ha
  rw [List.mem_singleton.1 hb]
  exact hnew e' he'

theorem merge_conflicts_delete {row : Row} {m : Mutation} (h : (merge row m).deleted = true) :
    (merge row m).conflicts = [] := by
  simp [merge, (merge_deleted h).1]

/-- A delete logs no conflict, and no other write deletes. -/
theorem land_spends (hp : p.Hooked) {retired : Bool} :
    Meets (SameConflicts db₀) db₀.Spends (land s p m key row (merge row m) retired) := by
  cases hd : (merge row m).deleted with
  | true =>
    have hland : Meets db₀.SpendsOnly db₀.SpendsOnly (land s p m key row (merge row m) retired) := by
      refine spendsOnly_steady.land hp trivial trivial (fun _ _ _ => spendsOnly_of_deleteRow) ?_
      rw [merge_conflicts_delete hd]
      exact .pure
    exact (hland.of_imp fun db h => h.spendsOnly).imp fun _ h => h.spends
  | false =>
    have hland : Meets db₀.LogsOnly db₀.LogsOnly (land s p m key row (merge row m) retired) := by
      refine logsOnly_steady.land hp trivial trivial (fun h => ?_) logConflicts_logsOnly
      rw [hd] at h
      cases h
    exact (hland.of_imp fun db h => h.logsOnly).imp fun _ h => h.1

/-! ## Claims -/

/-- The entries after a claim. -/
def spent (ids : List String) (log : List ConflictEntry) : List ConflictEntry :=
  log.map fun e => if e.id ∈ ids && !e.reverted then { e with reverted := true } else e

theorem claimConflicts_meets {ids : List String}
    (hI : ∀ db, I db → I { db with conflictLog := spent ids db.conflictLog }) :
    Meets I I (claimConflicts ids) := Meets.write fun db db' h hi => by
  dsimp only at h
  split at h <;> cases h
  exact hI db hi

theorem mem_spent {ids : List String} {log : List ConflictEntry} {e : ConflictEntry} (h : e ∈ spent ids log)
    (hr : e.reverted = false) : e ∈ log ∧ e.id ∉ ids := by
  obtain ⟨e', he', rfl⟩ := List.mem_map.1 h
  split at hr
  · cases hr
  · next hc =>
    rw [if_neg hc]
    refine ⟨he', fun hid => hc ?_⟩
    simp [hid, hr]

theorem spent_ids {ids : List String} {log : List ConflictEntry} :
    (spent ids log).map (·.id) = log.map (·.id) := by
  rw [spent, List.map_map]
  refine List.map_congr_left fun e _ => ?_
  dsimp only [Function.comp]
  split <;> rfl

/-- **What one step does to the entries**: a spent one stays spent for as long as it is there. -/
theorem step_spends (σ : Server) (c : Call) : σ.db.Spends (server.step σ c).2.db := by
  refine step_meets (sameConflicts_steady.serve (fun _ h => h.spends)
    (fun p m hp ht _ => ?_) (fun p e group hp => ?_) c.request) rfl
  · exact sameConflicts_steady.applyMutation (fun _ h => h.spends) ht trivial
      fun _ _ _ _ _ _ => land_spends hp
  · have hrevert : Meets σ.db.SpendsOnly σ.db.SpendsOnly (applyRevert c.env e group p) :=
      spendsOnly_steady.applyRevert hp
        (claimConflicts_meets fun db hi e he hr => hi e (mem_spent he hr).1 hr)
    exact (hrevert.of_imp fun db h => h.spendsOnly).imp fun _ h => h.spends

theorem step_unique {σ : Server} (c : Call) (h : σ.db.ConflictsUnique) :
    (server.step σ c).2.db.ConflictsUnique := by
  refine step_meets (unique_steady.serve (fun _ h => h) (fun p m hp ht _ => ?_)
    (fun p e group hp => ?_) c.request) h
  · refine unique_steady.applyMutation (fun _ h => h) ht trivial fun _ _ _ _ _ _ =>
      unique_steady.land hp trivial trivial (fun _ db db' hdel hi => ?_) logConflicts_unique
    exact ((deleteRow_conflictLog hdel).map _).nodup hi
  · refine unique_steady.applyRevert hp (claimConflicts_meets fun db hi => ?_)
    unfold Db.ConflictsUnique at hi ⊢
    rwa [spent_ids]

end

/-! ## The clocks of the rows -/

/-- The clock does not parse, or is written the way the format writes it. -/
def HLC.Exact (h : HLC) : Prop := ∀ p, HLC.parse h = .ok p → HLC.format p = h

/-- The clocks of all rows are exact. -/
def Db.Timed (db : Db) : Prop := ∀ key row, db.rows.lookup key = some row → row.hlc.Exact

theorem Generator.exact_next (g : Generator) (now : Int) : HLC.Exact (g.next now).1 := by
  intro p hp
  have hnonneg := (g.tick now).lastMillis_nonneg
  by_cases hlt : (g.tick now).lastMillis < 10 ^ 13
  · have hfit : HLC.Fits (g.tick now).parts :=
      { millis := ⟨show -10 ^ 12 < (g.tick now).lastMillis by omega, hlt⟩
        counter := (g.tick now).counter_le
        deviceID := (g.tick now).deviceID_ok }
    rw [Generator.next, HLC.parse_format hfit] at hp
    cases hp
    rfl
  · have hlen : (HLC.format (g.tick now).parts).length = hlcLen := (HLC.parse_ok_iff.1 hp).1
    have hm := lt_length_formatInt (z := (g.tick now).parts.millis) (not_lt.1 hlt)
    have hd := (g.tick now).deviceID_ok.2
    have hc : (formatHex 4 (g.tick now).parts.counter).length = 4 :=
      length_formatHex (Nat.lt_of_le_of_lt (g.tick now).counter_le (by decide))
    simp only [HLC.format, List.length_append, List.length_cons, hc, hlcLen] at hlen
    change _ + (4 + ((g.tick now).deviceID.length + 1) + 1) = _ at hlen
    rw [hd, deviceIDLen] at hlen
    omega

section
variable {s : Env} {p : Partition} {m : Mutation} {key : Key} {row : Row} {db db' : Db}

theorem timed_of_insert {row : StoredRow} (hrow : row.hlc.Exact) (hi : db.Timed)
    (h : db'.rows = db.rows.insert key row) : db'.Timed := by
  intro k r hr
  rw [h] at hr
  by_cases hk : k = key
  · subst hk
    rw [AList.lookup_insert] at hr
    cases hr
    exact hrow
  · rw [AList.lookup_insert_ne hk] at hr
    exact hi k r hr

theorem timed_steady : Steady HLC.Exact Db.Timed where
  valid {h} hv := by
    intro p hp
    simpa [HLC.valid, hp] using hv
  minted := Generator.exact_next
  loads {db} key hi := by
    unfold loadRow
    split
    · intro p hp
      cases hp
    · next row hrow => exact hi _ _ hrow
  logs hrows _ hi := by
    unfold Db.Timed
    rwa [hrows]
  insert hc h hi := by
    obtain ⟨-, -, -, rfl⟩ := Db.insertRow_ok h
    exact timed_of_insert hc hi rfl
  update {sqlite key applied hlc clocks db db'} hc h hi := by
    cases hrow : db.rows.lookup key with
    | none =>
      unfold Db.updateRow at h
      rw [hrow] at h
      split at h <;> cases h
      exact hi
    | some row =>
      obtain ⟨-, -, rfl⟩ := Db.updateRow_ok hrow h
      exact timed_of_insert hc hi rfl

theorem step_timed {σ : Server} (c : Call) (h : σ.db.Timed) : (server.step σ c).2.db.Timed := by
  refine step_meets (timed_steady.serve (fun _ h => h) (fun p m hp ht hm => ?_)
    (fun p e group hp => ?_) c.request) h
  · refine timed_steady.applyMutation (fun _ h => h) ht hm fun key row m' retired hrow hm' =>
      timed_steady.land hp hm' (merge_rowHLC_of hm' hrow) (fun _ db db' hdel hi k r hr => ?_)
        (logConflicts_meets fun db e _ hi => hi)
    obtain ⟨row, hrow, hhlc, -⟩ := Db.deleteRow_old hdel hr
    exact hhlc ▸ hi k row hrow
  · exact timed_steady.applyRevert hp (claimConflicts_meets fun db hi => hi)

end

/-! ## The clocks of the fields -/

/-- The rows that no upload writes are dominated. -/
def Db.PushedDominated (db : Db) : Prop := ∀ key row, key.table ∉ uploadTables →
  db.rows.lookup key = some row → row.Dominated

section
variable {s : Env} {m : Mutation} {key : Key} {row : Row} {applied : Fields} {hlc : HLC}
variable {clocks : FieldClocks} {db db' : Db} {rows : Rows} {c : Call}

theorem merge_clocks_le (hd : ∀ f h, row.clocks f = some h → h ≤ row.hlc) (m : Mutation) (f : String)
    (h : HLC) (hf : (merge row m).clocks f = some h) : h ≤ (merge row m).rowHLC := by
  rw [merge_rowHLC]
  rw [merge_clocks] at hf
  split at hf
  · cases hf
    exact le_max_right _ _
  · exact (hd f h hf).trans (le_max_left _ _)

theorem pushedClocks_le (hd : ∀ f h, row.clocks f = some h → h ≤ row.hlc) (t : Table) (m : Mutation)
    (f : String) (h : HLC) (hf : pushedClocks t row (merge row m) f = some h) :
    h ≤ (merge row m).rowHLC := by
  unfold pushedClocks at hf
  split at hf
  · exact merge_clocks_le hd m f h hf
  rcases Option.or_eq_some_iff.1 hf with hf | ⟨-, hf⟩
  · exact merge_clocks_le hd m f h hf
  · split at hf <;> cases hf
    exact le_rfl

theorem Db.PushedDominated.loads (hd : db.PushedDominated) (ht : key.table ∉ uploadTables) (f : String)
    (h : HLC) (hf : (loadRow key db).clocks f = some h) : h ≤ (loadRow key db).hlc := by
  unfold loadRow at hf ⊢
  split at hf
  · cases hf
  · next row hrow => exact hd key row ht hrow f h hf

theorem Db.PushedDominated.put (hd : db.PushedDominated) (put : Put s key applied hlc clocks db db'.rows)
    (hc : key.table ∉ uploadTables → ∀ f h, clocks f = some h → h ≤ hlc) : db'.PushedDominated := by
  intro k row ht hr
  rw [put.rows] at hr
  by_cases hk : k = key
  · subst hk
    rw [AList.lookup_insert] at hr
    cases hr
    exact hc ht
  · rw [AList.lookup_insert_ne hk] at hr
    exact hd k row ht hr

theorem Alters.pushedDominated (hd : db.PushedDominated) (h : Alters c db db'.rows) :
    db'.PushedDominated := by
  generalize hrows : db'.rows = rows at h
  cases h with
  | nothing =>
    unfold Db.PushedDominated
    rwa [hrows]
  | deleted _ _ _ _ _ delete =>
    intro k row ht hr f h hf
    rw [hrows] at hr
    obtain ⟨row₀, hrow₀, hhlc, hclocks⟩ := Db.deleteRow_old delete hr
    rw [hhlc]
    exact hd k row₀ ht hrow₀ f h (hclocks ▸ hf)
  | pushed _ _ _ _ put =>
    exact hd.put (hrows ▸ put) fun ht => pushedClocks_le (hd.loads ht) _ _
  | founded _ _ _ _ _ put _ owner =>
    have hd₁ := hd.put put fun ht => pushedClocks_le (hd.loads ht) _ _
    exact hd₁.put (hrows ▸ owner) fun _ f h hf => by cases hf
  | restored _ _ _ _ _ put => exact hd.put (hrows ▸ put) fun ht => merge_clocks_le (hd.loads ht) _
  | taken _ _ put => exact hd.put (hrows ▸ put) fun ht => merge_clocks_le (hd.loads ht) _
  | attached ht _ _ _ put => exact hd.put (hrows ▸ put) fun hno => absurd ht hno
  | stamped ht _ _ put => exact hd.put (hrows ▸ put) fun hno => absurd ht hno

end

/-- What the reverts rely on in every reachable state. -/
structure Revertible (db : Db) : Prop where
  unique : db.ConflictsUnique
  timed : db.Timed
  dominated : db.PushedDominated

theorem revertible_after (g : Generator) (calls : List Call) :
    Revertible (server.after (.fresh g) calls).db := by
  refine Machine.after_of_step (I := fun σ : Server => Revertible σ.db)
    (fun σ c h => ⟨step_unique c h.unique, step_timed c h.timed,
      (step_alters σ c).pushedDominated h.dominated⟩) ⟨?_, ?_, ?_⟩ calls
  · exact List.nodup_nil
  · intro k row hr
    cases hr
  · intro k row _ hr
    cases hr

/-! ## Reverts that answer -/

/-- The generator a revert takes its clock from: the row's own clock is folded in first. -/
def Generator.past (g : Generator) (row : StoredRow) : Generator :=
  if row.hlc ≠ [] then (g.observe row.hlc).2 else g

/-- The clock of a revert. -/
def Call.revertClock (c : Call) (σ : Server) (row : StoredRow) : HLC :=
  ((σ.hlc.past row).next c.env.now).1

/-- The row as the merge sees it. -/
def StoredRow.loaded (row : StoredRow) : Row := ⟨true, row.fields, row.hlc, row.clocks⟩

/-- What is left of a revert behind its claim: the mutation `m` wins something, and is written. -/
structure Restores (s : Env) (g : Generator) (key : Key) (row : StoredRow) (m : Mutation) (db : Db)
    (db' : Db) : Prop where
  parses : row.hlc ≠ [] → ∃ p, HLC.parse row.hlc = .ok p
  wins : (merge row.loaded { m with hlc := ((g.past row).next s.now).1 }).applied.entries ≠ []
  put : Put s key (merge row.loaded { m with hlc := ((g.past row).next s.now).1 }).applied
    (merge row.loaded { m with hlc := ((g.past row).next s.now).1 }).rowHLC
    (merge row.loaded { m with hlc := ((g.past row).next s.now).1 }).clocks db db'.rows
  conflictLog : db'.conflictLog = db.conflictLog

section
variable {s : Env} {m : Mutation} {key : Key} {row : StoredRow} {tripID userID : String}
variable {faults : Nat → Option Error} {w w' : World Db Memory} {n : Nat}

theorem recordActivity_conflictLog {a : ActivityWrite} {u : Unit}
    (h : recordActivity s a faults w = (.ok u, w')) : w'.db.conflictLog = w.db.conflictLog := by
  unfold recordActivity at h
  split at h
  · obtain ⟨-, rfl⟩ := pure_ok.1 h
    rfl
  · obtain ⟨-, db, hdb, rfl⟩ := write_ok.1 h
    split at hdb <;> cases hdb
    rfl

theorem restore_trip (hrow : w.db.rows.lookup key = some row)
    (h : restore s (tripPartition tripID userID) m key row.loaded faults w = (.ok n, w')) :
    Restores s w.mem.hlc key row m w.db w'.disk := by
  simp only [restore, bind_ok] at h
  obtain ⟨_, w₁, h₁, hlc, w₂, h₂, h⟩ := h
  have hobs : (row.hlc ≠ [] → ∃ p, HLC.parse row.hlc = .ok p) ∧ w₁.mem.hlc = w.mem.hlc.past row ∧
      w₁.db = w.db := by
    rcases onlyIf_ok.1 h₁ with ⟨hne, hobs⟩ | ⟨hne, -, rfl⟩
    · obtain ⟨hparse, rfl⟩ := memory_ok.1 hobs
      refine ⟨fun _ => ?_, (if_pos (of_decide_eq_true hne)).symm, rfl⟩
      cases hp : HLC.parse row.hlc with
      | error err =>
        rw [show row.loaded.hlc = row.hlc from rfl, Generator.observe_of_error hp] at hparse
        cases hparse
      | ok p => exact ⟨p, rfl⟩
    · exact ⟨fun h => absurd h (of_decide_eq_false hne), (if_neg (of_decide_eq_false hne)).symm, rfl⟩
  obtain ⟨hparses, hmem, hdb₁⟩ := hobs
  obtain ⟨hhlc, rfl⟩ := memory_ok.1 h₂
  cases hhlc
  split at h
  · exact absurd h (fail_ok _)
  next hwins =>
  simp only [bind_ok, failAs_ok, write_ok, commit_ok, pure_ok] at h
  obtain ⟨_, w₃, ⟨-, db₁, hu, rfl⟩, seq, w₄, h₄, _, w₅, h₅, _, w₆, h₆, _, w₇, ⟨-, rfl⟩, -, rfl⟩ := h
  obtain ⟨-, m₄⟩ := appendChangeLog_ok h₄
  obtain ⟨-, rfl⟩ := pure_ok.1 h₅
  obtain ⟨db₃, m₆, n₆⟩ := recordActivity_ok h₆
  rw [hmem] at hu hwins
  rw [show ({ w₁ with mem := _ } : World Db Memory).db = w.db from hdb₁] at hu
  have hrows : w₆.db.rows = db₁.rows := by rw [m₆.db, n₆.rows, m₄.db]; rfl
  exact {
    parses := hparses
    wins := by simpa using hwins
    put := by
      change Put _ _ _ _ _ _ w₆.db.rows
      rw [hrows]
      exact put_of_updateRow rfl rfl (by rw [loadRow_of_lookup hrow]) hu
    conflictLog := by
      change w₆.db.conflictLog = _
      rw [recordActivity_conflictLog h₆, m₄.db]
      exact (updateRow_conflictLog hu : db₁.conflictLog = w.db.conflictLog) }

/-- A mutation that is valid names columns of its table. -/
theorem validate_columns {tables : Table → Bool} {t : Table} {f : String} {v : Value}
    (h : validate m tables = .ok t) (hf : m.fields.lookup f = some v) : f ∈ t.columnList := by
  unfold validate at h
  split at h
  · cases h
  split at h
  · next hall =>
    cases h
    have hkey : f ∈ m.fields.keys := AList.mem_keys.2 (AList.lookup_isSome.1 (by rw [hf]; rfl))
    simpa using List.all_eq_true.1 hall f hkey
  · cases h

/-- What a revert in a trip has done that answers. -/
structure TripReverted (s : Env) (g : Generator) (tripID userID : String) (e : ConflictEntry)
    (fields : Fields) (ids : List String) (row : StoredRow) (m : Mutation) (db db' : Db) : Prop where
  table : e.key.table.partition = .trip
  columns : ∀ f v, fields.lookup f = some v → f ∈ e.key.table.columnList
  found : db.rows.lookup e.key = some row
  claimed : (db.conflictLog.filter fun x => x.id ∈ ids && !x.reverted).length = ids.length
  gate : (tripPartition tripID userID).gate s { db with conflictLog := spent ids db.conflictLog } e.key.table
    (e.mutation fields) = (m, none)
  restores : Restores s g e.key row m { db with conflictLog := spent ids db.conflictLog } db'

theorem applyRevert_trip {e : ConflictEntry} {group : Fields × List String}
    (h : applyRevert s e group (tripPartition tripID userID) faults w = (.ok n, w')) :
    ∃ row m, TripReverted s w.mem.hlc tripID userID e group.1 group.2 row m w.disk w'.disk := by
  unfold applyRevert at h
  cases hv : validate ⟨"", .upsert, e.key.table.name, e.key.id, group.1, []⟩
      (tripPartition tripID userID).tables with
  | error err => simp [hv] at h
  | ok t =>
    obtain ⟨ht, htrip⟩ := validate_ok hv
    obtain rfl : e.key.table = t := Option.some.inj ((Table.ofName_name _).symm.trans ht)
    simp only [hv, transact_ok, bind_ok] at h
    obtain ⟨w₁, ⟨_, w₂, h₂, row, w₃, h₃, h⟩, rfl⟩ := h
    obtain ⟨-, rfl, rfl⟩ := query_ok.1 h₃
    simp only [claimConflicts, write_ok] at h₂
    obtain ⟨-, db, hdb, rfl⟩ := h₂
    split at hdb
    swap
    · cases hdb
    next hclaimed =>
    have hspent : { w.disk with conflictLog := spent group.2 w.disk.conflictLog } = db := Except.ok.inj hdb
    have hrows : db.rows = w.disk.rows := by rw [← hspent]
    split at h
    · exact absurd h (fail_ok _)
    next hpres =>
    simp only [Bool.not_eq_true', Bool.not_eq_false, loadRow_congr hrows] at hpres
    obtain ⟨row, hrow, hload⟩ := loadRow_of_present hpres
    simp only [bind_ok, query_ok, Txn.World.next_db] at h
    obtain ⟨gated, w₄, ⟨-, rfl, rfl⟩, h⟩ := h
    rcases hgate : (tripPartition tripID userID).gate s db e.key.table (e.mutation group.1) with
      ⟨m, reason | reason⟩ <;> have hscope := hgate <;>
      rw [Partition.gate, ConflictEntry.mutation] at hscope <;> simp only [hscope] at h
    · rw [loadRow_congr hrows, hload] at h
      exact ⟨row, m, of_decide_eq_true htrip, fun _ _ => validate_columns hv, hrow, hclaimed, hspent ▸ hgate,
        hspent ▸ restore_trip (hrows ▸ hrow) h⟩
    · exact absurd h (fail_ok _)

end

/-! ## The gate -/

section
variable {i : StampInput} {m m' : Mutation} {f : String} {v : Value} {db : Db} {t : Table}

/-- A record is written where the mutation speaks about its state. -/
theorem stampRecord_some {cols : RecordColumns} {known done : Bool}
    (h : (stampRecord i cols known done m).fields.lookup f = some v) :
    known = true ∧ f ∈ [cols.who, cols.time] ∨ m.fields.lookup f = some v := by
  rw [lookup_stampRecord] at h
  split at h
  · next hc => exact .inl ⟨hc.1, by simp [hc.2]⟩
  split at h
  · next hc => exact .inl ⟨hc.1, by simp [hc.2]⟩
  · exact .inr h

/-- The fields that the records of the server follow. -/
def triggers : List String := ["task_state", "bought", "bought_from", fieldState]

theorem isSome_of_string (h : (m.string f).isSome = true) : (m.fields.lookup f).isSome = true := by
  rw [Mutation.string, Mutation.get] at h
  cases hf : m.fields.lookup f with
  | none => rw [hf] at h; cases h
  | some v => rfl

/-- What the server writes on an update follows a field of the mutation. -/
theorem stamped_trigger (hop : m.op = .upsert) (hrow : i.row.present = true)
    (hf : f ∈ t.serverOwned.columns) (hnone : ∀ g ∈ t.serverOwned.columns, m.fields.lookup g = none)
    (h : (t.serverOwned.stamp i m).fields.lookup f = some v) :
    ∃ g ∈ triggers, (m.fields.lookup g).isSome = true ∧ (g = fieldState → f ∈ stateRecord) := by
  have hinsert (c : String) : (stampedOnInsert c).stamp i m = m := by
    simp [stampedOnInsert, hop]
  have hcreate (c : String) : (stampedOnCreate c).stamp i m = m := by
    simp [stampedOnCreate, hrow]
  have hold := hnone f hf
  revert hf h hnone
  unfold Table.serverOwned
  split <;> intro hf hnone h
  case h_5 =>
    rcases stampRecord_some h with ⟨hknown, hg⟩ | h
    · refine ⟨fieldState, by decide, ?_, fun _ => ?_⟩
      · simpa [lookup_stampRecord, purchaseColumns, packingColumns, fieldState] using isSome_of_string hknown
      · exact (by decide : ∀ f ∈ [claimColumns.who, claimColumns.time], f ∈ stateRecord) f hg
    rcases stampRecord_some h with ⟨hknown, hg⟩ | h
    · refine ⟨fieldState, by decide, ?_, fun _ => ?_⟩
      · simpa [lookup_stampRecord, purchaseColumns, fieldState] using isSome_of_string hknown
      · exact (by decide : ∀ f ∈ [packingColumns.who, packingColumns.time], f ∈ stateRecord) f hg
    rcases stampRecord_some h with ⟨hknown, hg⟩ | h
    · exact ⟨"bought_from", by decide, hknown, fun hs => absurd hs (by decide)⟩
    · rw [hold] at h
      cases h
  case h_6 =>
    simp only [commentOwned, hinsert] at h
    rcases stampRecord_some h with ⟨hknown, hg⟩ | h
    · exact ⟨"task_state", by decide, isSome_of_string hknown, fun hs => absurd hs (by decide)⟩
    · rw [hold] at h
      cases h
  case h_7 | h_8 =>
    rcases stampRecord_some h with ⟨hknown, hg⟩ | h
    · exact ⟨"bought", by decide, hknown, fun hs => absurd hs (by decide)⟩
    · rw [hold] at h
      cases h
  case h_14 => cases hf
  all_goals
    simp only [hinsert, hcreate, hold] at h
    cases h

/-- No guard takes out a field but the references that may be dropped. -/
theorem guardFor_keeps (hf : f ∉ commentFields) (t : Table) : (guardFor t).Keeps f := by
  have hne : f ≠ "idea_id" ∧ f ≠ "excursion_id" := by
    constructor <;> rintro rfl <;> exact hf (by decide)
  cases t with
  | comments => exact guardFor_comments_keeps hf
  | dayEntryTravelers =>
    refine allOf_keeps fun rule hr => ?_
    simp only [List.mem_cons, List.not_mem_nil, or_false] at hr
    rcases hr with rfl | rfl <;> exact ownOrRefused_keeps _ _
  | shoppingEntries | excursions => exact ownOrDropped_keeps _ hne.1
  | dayEntries | meals => exact ownOrDropped_keeps _ hne.2
  | ideaLinks | mealIngredients => exact ownOrRefused_keeps _ _
  | travelers =>
    intro db i
    change (validTravelerLink db i).1.fields.lookup f = _
    unfold validTravelerLink
    dsimp only
    split <;> rfl
  | templates =>
    intro db i
    change (validKindSwitch db i).1.fields.lookup f = _
    unfold validKindSwitch
    split <;> rfl
  | _ => exact answer_keeps

end

/-! ## What a revert restores -/

section
variable {s : Env} {g : Generator} {tripID userID : String} {e : ConflictEntry} {fields : Fields}
variable {ids : List String} {row : StoredRow} {m : Mutation} {db db' : Db} {f : String} {v : Value}

namespace TripReverted

/-- The gate adds to the fields of the group what the server stamps, and takes none out but a lone
reference. -/
theorem gated (h : TripReverted s g tripID userID e fields ids row m db db') :
    m.op = .upsert ∧
    (∀ f, f ∉ e.key.table.serverOwned.columns →
      (f ∉ commentFields → m.fields.lookup f = fields.lookup f) ∧
      ∀ v, m.fields.lookup f = some v → fields.lookup f = some v) ∧
    ∀ f v, f ∈ e.key.table.serverOwned.columns → m.fields.lookup f = some v →
      ∃ g ∈ triggers, (fields.lookup g).isSome = true ∧ (g = fieldState → f ∈ stateRecord) := by
  have hthin := gate_thinned tripPartition_thins h.gate
  have hstamp {f : String} (hf : f ∉ e.key.table.serverOwned.columns) :
      ((tripPartition tripID userID).stamped s { db with conflictLog := spent ids db.conflictLog } e.key.table
        (e.mutation fields)).fields.lookup f = fields.lookup f := stampServerOwned_lookup _ _ _ _ _ hf
  refine ⟨(gate_onlyFields tripPartition_thins h.gate).op, fun f hf => ⟨fun hkeep => ?_, fun v hv => ?_⟩,
    fun f v hf hv => ?_⟩
  · have hguard := guardFor_keeps hkeep e.key.table
    obtain ⟨-, hpassed⟩ := trip_gate h.gate
    have hkept := hguard _ _ |>.symm.trans (congrArg (·.1.fields.lookup f) hpassed)
    exact hkept.symm.trans (hstamp hf)
  · exact (hstamp hf).symm.trans (hthin.lookup f v hv)
  · have hrow : loadRow e.key { db with conflictLog := spent ids db.conflictLog } = row.loaded :=
      loadRow_of_lookup h.found
    have hwritten := hthin.lookup f v hv
    rw [Partition.stamped, stampServerOwned] at hwritten
    obtain ⟨g, hg, hsome, hstate⟩ := stamped_trigger ((OnlyFields.drops ..).op)
      (congrArg Row.present hrow) hf (fun g hg => (lookup_drops ..).trans (if_pos hg)) hwritten
    refine ⟨g, hg, ?_, hstate⟩
    rw [lookup_drops] at hsome
    split at hsome
    · cases hsome
    · exact hsome

/-- A revert that answers is newer than the row, if the generator still has a clock to give. -/
theorem newer {c : Call} {σ : Server} (ht : σ.db.Timed)
    (h : TripReverted c.env σ.hlc tripID userID e fields ids row m σ.db db')
    (hex : ¬ (σ.hlc.past row).Exhausted) (hnow : c.env.now < 10 ^ 13) : row.hlc < c.revertClock σ row := by
  unfold Call.revertClock
  by_cases hne : row.hlc = []
  · rw [hne]
    have hv := Generator.valid_next hex hnow
    cases hnext : ((σ.hlc.past row).next c.env.now).1 with
    | nil => rw [hnext] at hv; cases hv
    | cons b bs => exact List.nil_lt_cons ..
  · obtain ⟨p, hp⟩ := h.restores.parses hne
    have hvalid : HLC.valid row.hlc = true := HLC.valid_iff_format.2 ⟨p, hp, ht _ _ h.found p hp⟩
    refine Generator.lt_next hex hnow hp hvalid ?_
    refine (show p.stamp ≤ (σ.hlc.past row).reached from ?_).trans_lt Generator.reached_lt_tick
    rw [Generator.past, if_pos hne, Generator.observe_of_parse hp]
    exact Generator.stamp_le_advance _

/-- The write wins every field that the group restores. -/
theorem applied {hlc : HLC} (h : TripReverted s g tripID userID e fields ids row m db db')
    (hhlc : hlc = ((g.past row).next s.now).1) (hgroup : ∀ f v, fields.lookup f = some v → f ∈ groupedWith e.field)
    (hd : db.PushedDominated) (hnew : row.hlc < hlc) (hf : fields.lookup f = some v)
    (howned : f ∉ e.key.table.serverOwned.columns) :
    (merge row.loaded { m with hlc }).applied.lookup f = some v := by
  obtain ⟨hop, hplain, hstamped⟩ := h.gated
  have hlook {f : String} : (merge row.loaded { m with hlc }).applied.lookup f =
      (m.fields.lookup f).filter fun v => row.loaded.admits { m with hlc } f v :=
    merge_applied_lookup (by simp [hop]) rfl f
  -- some field of the mutation wins
  obtain ⟨x, hx⟩ := List.exists_mem_of_ne_nil _ h.restores.wins
  rw [← hhlc] at hx
  obtain ⟨g', w⟩ := x
  have hwin : (merge row.loaded { m with hlc }).applied.lookup g' = some w := AList.mem_lookup_iff.2 hx
  have hadmits := hwin
  rw [hlook, Option.filter_eq_some_iff, decide_eq_true_eq] at hadmits
  have hfields {g : String} (hg : (fields.lookup g).isSome = true) : g ∈ groupedWith e.field := by
    obtain ⟨v, hv⟩ := Option.isSome_iff_exists.1 hg
    exact hgroup g v hv
  have hsource : fields.lookup g' = some w ∨
      ∃ t ∈ triggers, t ∈ groupedWith e.field ∧ (t = fieldState → g' ∈ stateRecord) := by
    by_cases hown : g' ∈ e.key.table.serverOwned.columns
    · obtain ⟨t, ht, hsome, hrecord⟩ := hstamped g' w hown hadmits.1
      exact .inr ⟨t, ht, hfields hsome, hrecord⟩
    · exact .inl ((hplain g' hown).2 w hadmits.1)
  have hin := hgroup f v hf
  by_cases hstate : e.field ∈ stateGroup
  · -- the group wins or loses as one, and with it its record
    have hgrouped : groupedWith e.field = stateGroup := if_pos hstate
    rw [hgrouped] at hin hsource hgroup
    have hg' : g' ∈ stateGroup ∨ g' ∈ stateRecord := by
      rcases hsource with hsame | ⟨t, ht, htg, hrecord⟩
      · exact .inl (hgroup g' w hsame)
      · exact .inr (hrecord ((by decide : ∀ t ∈ triggers, t ∈ stateGroup → t = fieldState) t ht htg))
    have hdecision : groupDecision row.loaded { m with hlc } = true := by
      rcases hadmits.2 with ⟨hadd, -⟩ | ⟨-, hdecision⟩ | ⟨hng, hnr, -⟩
      · exact absurd hadd (hg'.elim ((by decide : ∀ f ∈ stateGroup, f ∉ additiveFields) g')
          ((by decide : ∀ f ∈ stateRecord, f ∉ additiveFields) g'))
      · exact hdecision
      · exact absurd hg' (by simp [hng, hnr])
    have hkept := (hplain f howned).1 ((by decide : ∀ f ∈ stateGroup, f ∉ commentFields) f hin)
    rw [hlook, hkept, hf, Option.filter_some, if_pos]
    exact decide_eq_true (.inr (.inl ⟨.inl hin, hdecision⟩))
  · have hgrouped : groupedWith e.field = [e.field] := if_neg hstate
    rw [hgrouped] at hin hsource hgroup
    obtain rfl := List.mem_singleton.1 hin
    by_cases htrigger : e.field ∈ triggers
    · -- the record of the field must not win alone
      have hkept := (hplain _ howned).1 ((by decide : ∀ f ∈ triggers, f ∉ commentFields) _ htrigger)
      have htable : e.key.table ∉ uploadTables := fun hup =>
        (by decide : ∀ t ∈ uploadTables, ∀ f ∈ triggers, f ∉ t.columnList) _ hup _ htrigger
          (h.columns _ _ hf)
      have hclock : row.loaded.clockOf e.field < hlc := by
        unfold Row.clockOf
        cases hc : row.loaded.clocks e.field with
        | none => exact hnew
        | some c => exact (hd _ _ htable h.found _ c hc).trans_lt hnew
      rw [hlook, hkept, hf, Option.filter_some, if_pos]
      refine decide_eq_true (.inr (.inr ⟨hstate, ?_, hclock⟩))
      exact (by decide : ∀ f ∈ triggers, f ∉ stateRecord) _ htrigger
    · rcases hsource with hsame | ⟨t, ht, htg, -⟩
      · obtain rfl := List.mem_singleton.1 (hgroup g' w hsame)
        rw [hwin, ← hf, hsame]
      · obtain rfl := List.mem_singleton.1 htg
        exact absurd ht htrigger

end TripReverted

end

/-! ## Runs -/

/-- The values of `fields` are back in the row, at a clock that is newer than the row was. -/
structure WrittenBack (sqlite : Sqlite) (t : Table) (fields : Fields) (hlc : HLC) (row row' : StoredRow) :
    Prop where
  newer : row.hlc < hlc
  rowClock : row'.hlc = hlc
  restored : ∀ f v, fields.lookup f = some v → f ∉ t.serverOwned.columns →
    row'.fields f = Db.readBack sqlite t f v ∧ row'.clocks f = some hlc

/-- The entries were not spent before, and are now. Nothing else has changed in the log. -/
structure Spent (ids : List String) (db db' : Db) : Prop where
  unspent : ∀ id ∈ ids, ∃ x ∈ db.conflictLog, x.id = id ∧ x.reverted = false
  log : db'.conflictLog = db.conflictLog.map fun x => if x.id ∈ ids then { x with reverted := true } else x

/-- The entry is in the log of every state of the run. -/
def Logged (σ : Server) (later : List Call) (id : String) : Prop :=
  ∀ pre post, later = pre ++ post → ∃ x ∈ (server.after σ pre).db.conflictLog, x.id = id

section
variable {ids : List String} {db db' : Db} {σ : Server} {id : String}

theorem mem_of_decode {es : List (String × Value)} {f : String} {v : Value}
    (h : (Fields.decode es).lookup f = some v) : (f, v) ∈ es := by
  have hfold (es : List (String × Value)) (fs : Fields) :
      (es.foldl (fun fs e => fs.insert e.1 e.2) fs).lookup f = some v →
        (f, v) ∈ es ∨ fs.lookup f = some v := by
    induction es generalizing fs with
    | nil => exact .inr
    | cons e es ih =>
      intro h
      rcases ih _ h with h | h
      · exact .inl (List.mem_cons_of_mem _ h)
      · by_cases hf : f = e.1
        · subst hf
          rw [AList.lookup_insert] at h
          cases h
          exact .inl (List.mem_cons_self ..)
        · rw [AList.lookup_insert_ne hf] at h
          exact .inr h
  exact (hfold es ∅ h).resolve_right (by simp)

/-- What a revert restores belongs to the group of the conflict. -/
theorem tripConflict_group {tripID conflictID : String} {seen : Db} {e : ConflictEntry} {fields : Fields}
    (h : tripConflict tripID conflictID seen = .ok (e, fields, ids)) (f : String) (v : Value)
    (hf : fields.lookup f = some v) : f ∈ groupedWith e.field := by
  unfold tripConflict at h
  cases he : loadConflictEntry conflictID seen with
  | error err => rw [he] at h; cases h
  | ok e' =>
    rw [he] at h
    simp only [bind, Except.bind] at h
    split at h
    · cases h
    split at h
    · cases h
    next group hgroup =>
    cases h
    unfold revertGroup at hgroup
    dsimp only at hgroup
    split at hgroup <;> cases hgroup
    obtain ⟨x, hx, hxf⟩ := List.mem_map.1 (mem_of_decode hf)
    cases hxf
    simp only [List.mem_filter, Bool.and_eq_true, decide_eq_true_eq] at hx
    exact hx.2.1.2

/-- A claim that counts as many entries as it names has found each of them. -/
theorem spent_of_claimed (hu : db.ConflictsUnique)
    (hclaimed : (db.conflictLog.filter fun x => x.id ∈ ids && !x.reverted).length = ids.length)
    (hlog : db'.conflictLog = spent ids db.conflictLog) : Spent ids db db' where
  unspent id hid := by
    let found := (db.conflictLog.filter fun x => x.id ∈ ids && !x.reverted).map (·.id)
    have hnodup : found.Nodup := (List.filter_sublist.map _).nodup hu
    have hsub : found ⊆ ids := by
      intro a ha
      obtain ⟨x, hx, rfl⟩ := List.mem_map.1 ha
      simp only [List.mem_filter, Bool.and_eq_true, decide_eq_true_eq] at hx
      exact hx.2.1
    have hperm : found.Perm ids :=
      (List.subperm_of_subset hnodup hsub).perm_of_length_le (by rw [List.length_map, hclaimed])
    obtain ⟨x, hx, rfl⟩ := List.mem_map.1 (hperm.mem_iff.2 hid)
    simp only [List.mem_filter, Bool.and_eq_true, Bool.not_eq_true'] at hx
    exact ⟨x, hx.1, rfl, hx.2.2⟩
  log := by
    rw [hlog, spent]
    refine List.map_congr_left fun x _ => ?_
    by_cases hx : x.id ∈ ids
    · obtain ⟨id, tripID, key, field, losing, winning, mutationID, actorID, reverted⟩ := x
      cases reverted <;> simp [hx]
    · simp [hx]

/-- The run lemma: a spent entry stays spent for as long as it is in the log. -/
theorem stays_spent (later : List Call) (hlogged : Logged σ later id)
    (h : ∀ x ∈ σ.db.conflictLog, x.id = id → x.reverted = true) :
    ∀ x ∈ (server.after σ later).db.conflictLog, x.id = id → x.reverted = true := by
  induction later generalizing σ with
  | nil => exact h
  | cons c later ih =>
    refine ih (fun pre post hpre => hlogged (c :: pre) post (by rw [hpre]; rfl)) fun x hx hid => ?_
    by_contra hr
    rcases step_spends σ c x hx (by simpa using hr) with hold | hnew
    · exact hr (h x hold hid)
    · obtain ⟨x', hx', hid'⟩ := hlogged [] (c :: later) rfl
      exact hnew x' hx' (hid'.trans hid.symm)

/-- A revert that answers has restored the group of an entry. -/
theorem revert_reverted {c : Call} {tripID userID conflictID : String} {seen : Db} {a : Answer}
    (hc : c.request = .revert tripID userID conflictID seen) (h : (server.step σ c).1 = .ok a) :
    ∃ e fields ids row m, tripConflict tripID conflictID seen = .ok (e, fields, ids) ∧
      TripReverted c.env σ.hlc tripID userID e fields ids row m σ.db (server.step σ c).2.db := by
  simp only [server, hc, serve, bind_pure_world] at h ⊢
  rcases hr : revertTripConflict c.env tripID userID conflictID seen c.oracle σ.world with ⟨err | n, w'⟩
  · rw [bind_eq, hr] at h
    cases h
  unfold revertTripConflict at hr
  cases hgroup : tripConflict tripID conflictID seen with
  | error err =>
    rw [hgroup] at hr
    exact absurd hr (fail_ok _)
  | ok group =>
    rw [hgroup] at hr
    obtain ⟨row, m, hrev⟩ := applyRevert_trip hr
    exact ⟨group.1, group.2.1, group.2.2, row, m, rfl, hrev⟩

theorem revert_error {c : Call} {tripID userID conflictID : String} {seen : Db} {err : Error}
    (hc : c.request = .revert tripID userID conflictID seen) (h : (server.step σ c).1 = .error err) :
    (server.step σ c).2.db = σ.db := by
  simp only [server, hc, serve, bind_pure_world] at h ⊢
  rcases hr : revertTripConflict c.env tripID userID conflictID seen c.oracle σ.world with ⟨err | n, w'⟩
  · exact revertTripConflict_atomic _ _ _ _ hr
  · rw [bind_eq, hr] at h
    cases h

/-- The row that a revert leaves. -/
def TripReverted.row' (s : Env) (e : ConflictEntry) (row : StoredRow) (m : Mutation) (db : Db) : StoredRow :=
  ⟨db.written s e.key (merge row.loaded m).applied, (merge row.loaded m).rowHLC,
    (merge row.loaded m).clocks⟩

/-- Ann resolved her task, and an edit that is newer kept it open. -/
def lostTask : List Call := annsTrip ++ [
  .trip "T1" "ann" (.plain 2 .insert .comments "C1" [("trip_id", .str "T1"), ("body", .str "Book the hut"),
    ("is_task", .bool true), ("task_state", .str "open")]),
  .trip "T1" "ann" (.plain 5 .upsert .comments "C1" [("task_state", .str "open")]),
  .trip "T1" "ann" (.plain 4 .upsert .comments "C1" [("task_state", .str "resolved")])]

/-- Ann takes her entry about the state of the task back. -/
def takenBack : Call :=
  .plain 1760000000000 (.revert "T1" "ann" "r2" (server.after (.fresh .plain) lostTask).db)

/-- Who has resolved the task, as the database has it. -/
def resolverOf (db : Db) : Option Value :=
  (db.rows.lookup ⟨.comments, "C1"⟩).map fun row => row.fields "resolved_by_user_id"

theorem takenBack_entry : (tripConflict "T1" "r2" (server.after (.fresh .plain) lostTask).db).toOption.map
    (fun e => (e.1.key, e.1.field)) = some (⟨.comments, "C1"⟩, "task_state") := by decide +kernel

theorem takenBack_resolver : resolverOf (server.after (.fresh .plain) lostTask).db = some .null ∧
    (server.step (server.after (.fresh .plain) lostTask) takenBack).1.toOption.isSome = true ∧
    resolverOf (server.step (server.after (.fresh .plain) lostTask) takenBack).2.db = some (.str "ann") := by
  decide +kernel

end

end JitPack
