import JitPack.Store.Cascade
import JitPack.Store.ExactlyOnce

/-!
# What a call appends to the change log

A call appends entries with the next sequence numbers, and takes none away but those of a deleted
trip (`Appended`). So the log is ordered by its sequence numbers in every run (`logOrdered_after`),
and the entries of one call are those behind the last number before it (`Db.since`). For a call that
removes rows the new entries are known exactly (`Applied.removal`, `step_removal`).
-/

namespace JitPack

namespace Db

/-- The new entries of the change log, behind those that were there. -/
structure Extended (db db' : Db) (new : List Change) : Prop where
  log : db'.changeLog = db.changeLog ++ new
  seqs : new.map (·.seq) = List.range' (db.lastSeq + 1) new.length
  last : db'.lastSeq = db.lastSeq + new.length

/-- A call has appended the entries, after the entries of a deleted trip went. -/
structure Appended (db db' : Db) (new : List Change) : Prop where
  log : ∃ keep : Change → Bool, db'.changeLog = db.changeLog.filter keep ++ new
  seqs : new.map (·.seq) = List.range' (db.lastSeq + 1) new.length
  last : db'.lastSeq = db.lastSeq + new.length

section
variable {db db₁ db' : Db} {new new' : List Change} {key : Key} {s : Env}

theorem Extended.of_same (hlog : db'.changeLog = db.changeLog) (hlast : db'.lastSeq = db.lastSeq) :
    Extended db db' [] :=
  ⟨by rw [hlog, List.append_nil], rfl, hlast⟩

theorem Noted.extended (h : Noted db db') : Extended db db' [] := .of_same h.changeLog h.lastSeq

theorem Extended.trans (h : Extended db db₁ new) (h' : Extended db₁ db' new') :
    Extended db db' (new ++ new') where
  log := by rw [h'.log, h.log, List.append_assoc]
  seqs := by
    rw [List.map_append, h.seqs, h'.seqs, h.last, List.length_append,
      show db.lastSeq + new.length + 1 = db.lastSeq + 1 + 1 * new.length by omega,
      List.range'_append]
  last := by rw [h'.last, h.last, List.length_append, Nat.add_assoc]

theorem length_entries (feed : Option String) (hlc : HLC) (deleted : Bool) (seq : Nat)
    (keys : List Key) : (entries feed hlc deleted seq keys).length = keys.length := by
  rw [← List.length_map (·.key), map_key_entries]

theorem map_seq_entries (feed : Option String) (hlc : HLC) (deleted : Bool) (seq : Nat)
    (keys : List Key) :
    (entries feed hlc deleted seq keys).map (·.seq) = List.range' (seq + 1) keys.length := by
  induction keys generalizing seq with
  | nil => rfl
  | cons k ks ih => rw [entries, List.map_cons, ih, List.length_cons, List.range'_succ]

theorem extended_log (db : Db) (feed : Option String) (hlc : HLC) (deleted : Bool) (keys : List Key) :
    Extended db (db.log feed hlc deleted keys) (entries feed hlc deleted db.lastSeq keys) where
  log := rfl
  seqs := by rw [map_seq_entries, length_entries]
  last := by rw [length_entries]; rfl

theorem Extended.appended (h : Extended db db' new) : Appended db db' new :=
  ⟨⟨fun _ => true, by rw [List.filter_true, h.log]⟩, h.seqs, h.last⟩

theorem Appended.trans (h : Appended db db₁ []) (h' : Extended db₁ db' new) :
    Appended db db' new where
  log := by
    obtain ⟨keep, hlog⟩ := h.log
    exact ⟨keep, by rw [h'.log, hlog, List.append_nil]⟩
  seqs := by rw [h'.seqs, h.last, List.length_nil, Nat.add_zero]
  last := by rw [h'.last, h.last, List.length_nil, Nat.add_zero]

theorem insertRow_log {applied : Fields} {hlc : HLC} {clocks : FieldClocks}
    (h : insertRow s.sqlite s.sqlNow key applied hlc clocks db = .ok db') : Extended db db' [] := by
  obtain ⟨-, -, -, rfl⟩ := insertRow_ok h
  exact .of_same rfl rfl

theorem updateRow_log {applied : Fields} {hlc : HLC} {clocks : FieldClocks}
    (h : updateRow s.sqlite key applied hlc clocks db = .ok db') : Extended db db' [] := by
  unfold updateRow at h
  split at h
  · cases h
  split at h
  · cases h
    exact .of_same rfl rfl
  dsimp only at h
  split at h <;> cases h
  exact .of_same rfl rfl

/-- What a delete leaves of the change log. -/
theorem deleteRow_log (hkey : (db.rows.lookup key).isSome) (h : deleteRow key db = .ok db') :
    db'.changeLog = db.changeLog.filter (fun e => keepsTrip (db.removed key) e.tripID) ∧
      db'.lastSeq = db.lastSeq := by
  unfold deleteRow at h
  rw [if_neg (by simpa [Option.isSome_iff_ne_none] using hkey)] at h
  dsimp only at h
  split at h <;> cases h
  exact ⟨rfl, rfl⟩

theorem deleteRow_appended (h : deleteRow key db = .ok db') : Appended db db' [] := by
  cases hkey : (db.rows.lookup key).isSome with
  | true =>
    obtain ⟨hlog, hlast⟩ := deleteRow_log hkey h
    exact ⟨⟨_, by rw [hlog, List.append_nil]⟩, rfl, hlast⟩
  | false =>
    unfold deleteRow at h
    rw [if_pos (by simpa using hkey)] at h
    cases h
    exact (Extended.of_same rfl rfl).appended

end

end Db

open Db

section
variable {s : Env} {p : Partition} {m : Mutation} {key k : Key} {row : Row} {merged : MergeResult}
variable {db db₁ db' : Db} {res : MutationResult} {retired : Bool}

theorem Owed.extended {out : WriteOutcome} (h : Owed s p out db db') :
    ∃ new, Extended db db' new ∧ ∀ e ∈ new, e.deleted = false := by
  have hlog (db : Db) (feed : Option String) (hlc : HLC) (keys : List Key) :
      ∃ new, Extended db (db.log feed hlc false keys) new ∧ ∀ e ∈ new, e.deleted = false :=
    ⟨_, extended_log .., fun e he => (mem_entries _ _ _ _ he).2.2.1⟩
  have htrans {db₁ db₂ db₃ : Db} (h₁ : ∃ new, Extended db₁ db₂ new ∧ ∀ e ∈ new, e.deleted = false)
      (h₂ : ∃ new, Extended db₂ db₃ new ∧ ∀ e ∈ new, e.deleted = false) :
      ∃ new, Extended db₁ db₃ new ∧ ∀ e ∈ new, e.deleted = false := by
    obtain ⟨new₁, hx₁, hd₁⟩ := h₁
    obtain ⟨new₂, hx₂, hd₂⟩ := h₂
    exact ⟨_, hx₁.trans hx₂, fun e he => (List.mem_append.1 he).elim (hd₁ e) (hd₂ e)⟩
  cases h with
  | none => exact ⟨[], .of_same rfl rfl, fun _ he => nomatch he⟩
  | master _ owner =>
    refine htrans ?_ (hlog ..)
    cases owner with
    | other => exact hlog ..
    | owner _ hi =>
      exact htrans (hlog ..) (htrans ⟨[], insertRow_log hi, fun _ he => nomatch he⟩ (hlog ..))

theorem Persisted.appended {present b : Bool} (h : Persisted s key merged present db b db') :
    Appended db db' [] := by
  cases h with
  | gone => exact (Extended.of_same rfl rfl).appended
  | kept => exact (Extended.of_same rfl rfl).appended
  | deleted _ _ h => exact deleteRow_appended h
  | inserted _ _ h => exact (insertRow_log h).appended
  | updated _ _ _ h => exact (updateRow_log h).appended

theorem relogged_extended (db : Db) (feed : Option String) (m : Mutation) (key : Key) (row : Row) :
    ∃ new, Extended db (db.relogged feed m key row) new :=
  ⟨_, (extended_log ..).trans (extended_log ..)⟩

theorem record_extended (db : Db) (res : MutationResult) : Extended db (db.record res) [] :=
  .of_same rfl rfl

theorem Landed.appended (h : Landed s p m key row merged retired db res db') :
    ∃ new, Appended db db' new := by
  cases h with
  | refused =>
    obtain ⟨new, hx⟩ := relogged_extended db p.feed m key row
    exact ⟨_, (hx.trans (record_extended ..)).appended⟩
  | unchanged _ _ hn => exact ⟨_, (hn.extended.trans (record_extended ..)).appended⟩
  | changed _ hp ho hn =>
    obtain ⟨new, hx, -⟩ := ho.extended
    exact ⟨_, hp.appended.trans ((extended_log ..).trans ((extended_log ..).trans
      (hx.trans (hn.extended.trans (record_extended ..)))))⟩

theorem Applied.appended (h : Applied s p m db res db') : ∃ new, Appended db db' new := by
  cases h with
  | duplicate => exact ⟨[], (Extended.of_same rfl rfl).appended⟩
  | refused =>
    split
    · obtain ⟨new, hx⟩ := relogged_extended _ _ _ _ _
      exact ⟨_, (hx.trans (record_extended ..)).appended⟩
    · exact ⟨[], (record_extended ..).appended⟩
  | landed _ _ _ land => exact land.appended

theorem Effect.appended {g : Generator} {r : Request} (h : Effect s g db r db') :
    ∃ new, Appended db db' new := by
  cases h with
  | joined =>
    refine ⟨[], Extended.appended (.of_same ?_ ?_)⟩ <;> rfl
  | applied _ h => exact h.appended
  | reverted _ h =>
    cases h with
    | intro _ claimed _ _ _ update owed noted =>
      obtain ⟨new, hx, -⟩ := owed.extended
      exact ⟨_, (claimed.extended.trans ((updateRow_log update).trans ((extended_log ..).trans
        (hx.trans noted.extended)))).appended⟩
  | @taken tripID itemID _ _ h =>
    cases h with
    | @intro _ _ _ hlc db₁ _ _ _ update =>
      have hx := (updateRow_log update).trans
        (extended_log db₁ (some tripID) hlc false [⟨.tripItems, itemID⟩])
      exact ⟨_, Extended.appended ⟨hx.log, hx.seqs, hx.last⟩⟩
  | trackStored h =>
    cases h with
    | replaced _ _ _ update noted =>
      exact ⟨_, ((updateRow_log update).trans ((extended_log ..).trans noted.extended)).appended⟩
    | inserted _ insert noted =>
      exact ⟨_, ((insertRow_log insert).trans ((extended_log ..).trans noted.extended)).appended⟩
  | imageAdded h =>
    cases h with
    | intro _ insert noted =>
      exact ⟨_, ((insertRow_log insert).trans ((extended_log ..).trans noted.extended)).appended⟩
  | imageStamped _ h =>
    cases h with
    | intro _ update noted =>
      exact ⟨_, ((updateRow_log update).trans ((extended_log ..).trans noted.extended)).appended⟩

end

/-! ## Calls that remove rows -/

/-- The mutation has deleted its row, with an entry for it and for each child the registry names. -/
structure Removal (p : Partition) (m : Mutation) (t : Table) (db db' : Db) : Prop where
  op : m.op = .delete
  present : (db.rows.lookup ⟨t, m.id⟩).isSome
  delete : ∃ db₁, deleteRow ⟨t, m.id⟩ db = .ok db₁ ∧ db'.rows = db₁.rows
  gone : ∀ k, db'.rows.lookup k = none ↔ db.rows.lookup k = none ∨ k ∈ db.removed ⟨t, m.id⟩
  log : db'.changeLog = db.changeLog.filter (fun e => keepsTrip (db.removed ⟨t, m.id⟩) e.tripID) ++
    entries p.feed m.hlc true db.lastSeq (⟨t, m.id⟩ :: db.cascadeChildren ⟨t, m.id⟩)
  last : db'.lastSeq = db.lastSeq + (db.cascadeChildren ⟨t, m.id⟩).length + 1

section
variable {s : Env} {p : Partition} {m : Mutation} {key k : Key} {row : Row} {merged : MergeResult}
variable {db db₁ db' : Db} {res : MutationResult} {retired : Bool}

theorem insertRow_keeps {applied : Fields} {hlc : HLC} {clocks : FieldClocks}
    (h : insertRow s.sqlite s.sqlNow key applied hlc clocks db = .ok db')
    (hk : (db.rows.lookup k).isSome) : (db'.rows.lookup k).isSome := by
  obtain ⟨-, -, -, rfl⟩ := insertRow_ok h
  by_cases hkey : k = key
  · rw [hkey, AList.lookup_insert]
    rfl
  · rwa [AList.lookup_insert_ne hkey]

theorem updateRow_keeps {applied : Fields} {hlc : HLC} {clocks : FieldClocks}
    (h : updateRow s.sqlite key applied hlc clocks db = .ok db')
    (hk : (db.rows.lookup k).isSome) : (db'.rows.lookup k).isSome := by
  cases hr : db.rows.lookup key with
  | none =>
    unfold updateRow at h
    split at h
    · cases h
    · rw [hr] at h
      cases h
      exact hk
  | some row =>
    obtain ⟨-, -, rfl⟩ := updateRow_ok hr h
    by_cases hkey : k = key
    · rw [hkey, AList.lookup_insert]
      rfl
    · rwa [AList.lookup_insert_ne hkey]

theorem Owed.keeps {out : WriteOutcome} (h : Owed s p out db db')
    (hk : (db.rows.lookup k).isSome) : (db'.rows.lookup k).isSome := by
  rcases h.rows with ⟨-, hrows⟩ | ⟨-, _, _, _, _, h₁, h₂, hi⟩
  · rwa [hrows]
  · rw [← h₂]
    rw [← h₁] at hk
    exact insertRow_keeps hi hk

/-- Nothing is owed for a delete. -/
theorem Owed.of_deleted {out : WriteOutcome} (h : Owed s p out db db') (hd : out.deleted = true)
    (hr : out.retired = false) : db' = db := by
  cases h with
  | none => rfl
  | master _ owner =>
    have ht : out.touched = [] := by
      rw [WriteOutcome.touched, if_neg (by simp [hd])]
    rw [ht, log_nil]
    cases owner with
    | other => rw [if_neg (by simp [hr]), log_nil]
    | owner hn => simp [WriteOutcome.newTrip, hd] at hn

/-- A mutation that removed a row has deleted its own. -/
theorem Applied.removal (hp : p.Thins) (h : Applied s p m db res db')
    (hk : (db.rows.lookup k).isSome) (hgone : db'.rows.lookup k = none) :
    ∃ t, validate m p.tables = .ok t ∧ Removal p m t db db' := by
  have hsame (hrows : db'.rows = db.rows) : False := by
    rw [hrows] at hgone
    rw [hgone] at hk
    cases hk
  cases h with
  | duplicate => exact (hsame rfl).elim
  | refused =>
    refine (hsame ?_).elim
    split <;> rfl
  | @landed t m' m'' retired _ _ fresh valid how land =>
    cases land with
    | refused => exact (hsame rfl).elim
    | unchanged _ _ hn => exact (hsame hn.rows).elim
    | @changed seq seq' db₁ db₂ db₃ hr hper ho hn =>
      have hkept (hk₁ : (db₁.rows.lookup k).isSome) : False := by
        have hk₂ := ho.keeps (k := k) (by simpa using hk₁)
        rw [record_rows, hn.rows] at hgone
        rw [hgone] at hk₂
        cases hk₂
      cases hper with
      | inserted _ _ hi => exact (hkept (insertRow_keeps hi hk)).elim
      | updated _ _ _ hu => exact (hkept (updateRow_keeps hu hk)).elim
      | deleted hd hpres hdel =>
        obtain ⟨hop, -⟩ := merge_deleted hd
        -- a retired row is not deleted, so the mutation is the one that passed the gate
        obtain ⟨rfl, rfl⟩ : retired = false ∧ m'' = m' := by
          rcases how.write with ⟨hr, hm, -⟩ | ⟨-, rfl, -⟩
          · exact ⟨hr, hm⟩
          · cases hop
        have hframe := gate_onlyFields hp how.gate
        have hpresent : (db.rows.lookup ⟨t, m.id⟩).isSome := by
          obtain ⟨row, hrow, -⟩ := loadRow_of_present hpres
          rw [hrow]
          rfl
        obtain ⟨hlog, hlast⟩ := deleteRow_log hpresent hdel
        have hdb₂ := ho.of_deleted hd rfl
        rw [if_pos (by rw [hd, hpres]; rfl), hd, ← log_append, List.singleton_append] at hdb₂
        subst hdb₂
        have hrows : (db₃.record res).rows = db₁.rows := hn.rows
        refine ⟨t, valid, ⟨hframe.op ▸ hop, hpresent, ⟨db₁, hdel, hrows⟩, fun k => ?_, ?_, ?_⟩⟩
        · rw [hrows, deleteRow_gone hpresent hdel]
        · rw [record_changeLog, hn.changeLog, Db.log, hlog, hlast, hframe.hlc]
        · rw [← hlast]
          exact hn.lastSeq

/-- A call that removes rows has pushed a delete. -/
theorem Effect.removal {g : Generator} {r : Request} (h : Effect s g db r db')
    (hk : (db.rows.lookup k).isSome) (hgone : db'.rows.lookup k = none) :
    ∃ p m t, Pushes r p m ∧ validate m p.tables = .ok t ∧ Removal p m t db db' := by
  have hkept (hk' : (db'.rows.lookup k).isSome) : False := by
    rw [hgone] at hk'
    cases hk'
  rcases h.cases_rows with hrows | ⟨p, m, res, hr, h⟩ | ⟨p, e, fields, -, h⟩ | ⟨_, _, _, h⟩ | h
  · rw [hrows] at hkept
    exact (hkept hk).elim
  · obtain ⟨t, valid, hrem⟩ := h.removal hr.thins hk hgone
    exact ⟨p, m, t, hr, valid, hrem⟩
  · obtain ⟨t, m, hlc, db₁, db₂, row, -, hn, -, -, hu, hrows⟩ := h.rows
    rw [hrows] at hkept
    exact (hkept (updateRow_keeps hu (by rwa [hn.rows]))).elim
  · cases h with
    | intro _ _ update =>
      have hk' := updateRow_keeps update hk
      exact (hkept hk').elim
  · cases h with
    | inserted _ insert rows =>
      rw [rows] at hkept
      exact (hkept (insertRow_keeps insert hk)).elim
    | updated _ _ update rows =>
      rw [rows] at hkept
      exact (hkept (updateRow_keeps update hk)).elim

end

theorem step_removal {σ : Server} {c : Call} {k : Key} (hk : (σ.db.rows.lookup k).isSome)
    (hgone : (server.step σ c).2.db.rows.lookup k = none) : ∃ p m t, Pushes c.request p m ∧
      validate m p.tables = .ok t ∧ Removal p m t σ.db (server.step σ c).2.db := by
  rcases step_cases σ c with h | h
  · rw [h] at hgone
    rw [hgone] at hk
    cases hk
  · exact h.removal hk hgone

/-! ## The order of the log -/

/-- The log is ordered by its sequence numbers, which end at the last one given out. -/
structure Db.LogOrdered (db : Db) : Prop where
  sorted : db.changeLog.Pairwise (·.seq < ·.seq)
  le : ∀ e ∈ db.changeLog, e.seq ≤ db.lastSeq

/-- The entries that were appended behind the sequence number. -/
def Db.since (db : Db) (seq : Nat) : List Change := db.changeLog.filter (seq < ·.seq)

section
variable {db db' : Db} {new : List Change}

theorem Db.Appended.lt_seq (h : Appended db db' new) {e : Change} (he : e ∈ new) :
    db.lastSeq < e.seq ∧ e.seq ≤ db'.lastSeq := by
  have hmem := List.mem_map_of_mem (f := (·.seq)) he
  rw [h.seqs, List.mem_range'_1] at hmem
  rw [h.last]
  omega

theorem Db.LogOrdered.appended (ho : db.LogOrdered) (h : Appended db db' new) : db'.LogOrdered := by
  obtain ⟨keep, hlog⟩ := h.log
  have hnew : new.Pairwise (·.seq < ·.seq) := by
    have hrange : (new.map (·.seq)).Pairwise (· < ·) := h.seqs ▸ List.pairwise_lt_range'
    exact List.pairwise_map.1 hrange
  constructor
  · rw [hlog, List.pairwise_append]
    refine ⟨ho.sorted.filter _, hnew, fun a ha b hb => ?_⟩
    exact (ho.le a (List.mem_filter.1 ha).1).trans_lt (h.lt_seq hb).1
  · intro e he
    rw [hlog, List.mem_append] at he
    rcases he with he | he
    · rw [h.last]
      exact (ho.le e (List.mem_filter.1 he).1).trans (Nat.le_add_right ..)
    · exact (h.lt_seq he).2

/-- The entries of a call are those behind the last number before it. -/
theorem Db.Appended.since_eq (ho : db.LogOrdered) (h : Appended db db' new) :
    db'.since db.lastSeq = new := by
  obtain ⟨keep, hlog⟩ := h.log
  have hold : (db.changeLog.filter keep).filter (db.lastSeq < ·.seq) = [] := by
    refine List.filter_eq_nil_iff.2 fun e he => ?_
    simpa using ho.le e (List.mem_filter.1 he).1
  have hnew : new.filter (db.lastSeq < ·.seq) = new :=
    List.filter_eq_self.2 fun e he => by simpa using (h.lt_seq he).1
  rw [since, hlog, List.filter_append, hold, hnew, List.nil_append]

end

theorem logOrdered_step {σ : Server} (c : Call) (h : σ.db.LogOrdered) :
    (server.step σ c).2.db.LogOrdered := by
  rcases step_cases σ c with hs | hs
  · rwa [hs]
  · obtain ⟨new, hx⟩ := hs.appended
    exact h.appended hx

theorem logOrdered_after (g : Generator) (calls : List Call) :
    (server.after (.fresh g) calls).db.LogOrdered := by
  refine Machine.after_of_step (I := fun σ : Server => σ.db.LogOrdered)
    (fun _ c h => logOrdered_step c h) ?_ calls
  exact ⟨.nil, fun _ he => nomatch he⟩

end JitPack
