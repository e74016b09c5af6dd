import JitPack.Store.Log

/-!
# Deletes on the feed

A call that removes rows logs the delete of its own row first and then the children that the registry
names (`Removal`). Two things are asked of these entries. They should stand leaf-first, as the
registry promises: `leafFirst_iff` says that they do so only where there is no child to name. And
each removed row should have one entry, on the feed of its own partition: `removalsFed_iff` says
exactly when. The registry names children two references deep, and the replies to a note on a packing
row are three deep.
-/

namespace JitPack

open Db

/-! ## Entries -/

section
variable {feed : Option String} {hlc : HLC} {deleted : Bool} {seq : Nat} {keys : List Key} {k : Key}

theorem exists_mem_entries (feed : Option String) (hlc : HLC) (deleted : Bool) (seq : Nat)
    (h : k ∈ keys) : ∃ e ∈ entries feed hlc deleted seq keys,
    e.key = k ∧ e.deleted = deleted ∧ seq < e.seq := by
  rw [← map_key_entries feed hlc deleted keys seq] at h
  obtain ⟨e, he, rfl⟩ := List.mem_map.1 h
  have hseq := List.mem_map_of_mem (f := (·.seq)) he
  rw [map_seq_entries, List.mem_range'_1] at hseq
  exact ⟨e, he, rfl, (mem_entries _ _ _ _ he).2.2.1, by omega⟩

/-- Each row has an entry for each time it is named. -/
theorem feeds_entries (seq : Nat) (keys : List Key) (k : Key) :
    ((entries feed hlc true seq keys).filter fun e => e.key = k && e.deleted).map (·.tripID) =
      List.replicate (keys.count k) feed := by
  induction keys generalizing seq with
  | nil => rfl
  | cons k' ks ih =>
    rw [entries, List.filter_cons]
    by_cases hk : k' = k
    · simp [hk, ih, List.replicate_succ]
    · simp [hk, ih]

end

/-- The request is about this row. -/
def Request.target : Request → Option Key
  | .push _ _ m | .pushMaster _ m => (Table.ofName m.table).map (⟨·, m.id⟩)
  | .deleteMasterRow _ key _ => some key
  | .pruneMasterItem _ id _ => some ⟨.items, id⟩
  | _ => none

theorem Table.ofName_name (t : Table) : Table.ofName t.name = some t := by
  cases t <;> rfl

theorem Pushes.target {r : Request} {p : Partition} {m : Mutation} {t : Table} (h : Pushes r p m)
    (hv : validate m p.tables = .ok t) : r.target = some ⟨t, m.id⟩ := by
  have ht := (validate_ok hv).1
  cases h with
  | trip => simp [Request.target, ht]
  | master => simp [Request.target, ht]
  | @deleteRow _ key =>
    rw [Table.ofName_name] at ht
    cases ht
    rfl
  | prune =>
    rw [Table.ofName_name] at ht
    cases ht
    rfl

/-- What a call that removed its row has logged. -/
theorem step_deletes {σ : Server} {c : Call} {key : Key} (ho : σ.db.LogOrdered)
    (ht : c.request.target = some key) (hkey : (σ.db.rows.lookup key).isSome)
    (hgone : (server.step σ c).2.db.rows.lookup key = none) :
    ∃ p m, Pushes c.request p m ∧ p.tables key.table = true ∧
      (server.step σ c).2.db.since σ.db.lastSeq =
        entries p.feed m.hlc true σ.db.lastSeq (key :: σ.db.cascadeChildren key) ∧
      ∀ k, (server.step σ c).2.db.rows.lookup k = none ↔
        σ.db.rows.lookup k = none ∨ k ∈ σ.db.removed key := by
  obtain ⟨p, m, t, hp, hv, hrem⟩ := step_removal hkey hgone
  rw [hp.target hv] at ht
  cases ht
  refine ⟨p, m, hp, (validate_ok hv).2, ?_, hrem.gone⟩
  refine Appended.since_eq ho ⟨⟨_, hrem.log⟩, ?_, ?_⟩
  · rw [map_seq_entries, length_entries]
  · rw [hrem.last, length_entries, List.length_cons, Nat.add_assoc]

/-! ## The registry -/

/-- The query finds the rows that hold the parent in this column. -/
def Where.finds (column : String) : Where → Bool
  | .eq c => c = column
  | .within .. => false
  | .or a b => a.finds column || b.finds column

theorem Where.holds_of_finds {db : Db} {id column : String} {row : StoredRow} {q : Where}
    (h : q.finds column = true) (hv : row.fields column = .str id) : q.holds db id row = true := by
  induction q with
  | eq c =>
    obtain rfl := of_decide_eq_true h
    simpa [holds] using hv
  | within => cases h
  | or a b iha ihb =>
    simp only [finds, Bool.or_eq_true] at h
    simp only [holds, Bool.or_eq_true]
    exact h.imp iha ihb

theorem Where.holds_eq {db : Db} {id column : String} {row : StoredRow} :
    (Where.eq column).holds db id row = true ↔ row.fields column = .str id := by
  simp [holds]

theorem Where.holds_within {db : Db} {id column parentColumn : String} {t : Table} {row : StoredRow} :
    (Where.within column t parentColumn).holds db id row = true ↔
      ∃ x middle, row.fields column = .str x ∧ db.rows.lookup ⟨t, x⟩ = some middle ∧
        middle.fields parentColumn = .str id := by
  unfold holds
  cases row.fields column <;> simp
  next x => cases db.rows.lookup ⟨t, x⟩ <;> simp

theorem Where.holds_or {db : Db} {id : String} {row : StoredRow} {a b : Where} :
    (Where.or a b).holds db id row = true ↔ a.holds db id row = true ∨ b.holds db id row = true := by
  simp [holds]

/-- The registry names every child that hangs directly on a row of a trip. -/
theorem cascades_find : ∀ t : Table, t.partition = .trip → ∀ child : Table, ∀ c ∈ child.columns,
    c.references = some ⟨.table t, .cascade⟩ →
    ∃ q ∈ t.cascades, q.table = child ∧ q.cond.finds c.name = true := by
  decide

/-- Below the children of a row of a trip there is nothing, packing rows and notes apart. -/
theorem cascades_end : ∀ t : Table, t.partition = .trip → t ≠ .tripItems → t ≠ .comments →
    ∀ q ∈ t.cascades, ∀ child : Table, ∀ c ∈ child.columns,
      c.references ≠ some ⟨.table q.table, .cascade⟩ := by
  decide

theorem cascades_nodup : ∀ t : Table, (t.cascades.map (·.table)).Nodup := by
  decide

theorem cascades_self : ∀ t : Table, t ≠ .comments → t ∉ t.cascades.map (·.table) := by
  decide

/-- Only the replies to a note and the ticks on it hang on the note. -/
theorem hangs_on_note : ∀ child : Table, ∀ c ∈ child.columns,
    c.references = some ⟨.table .comments, .cascade⟩ →
    child = .comments ∧ c.name = "parent_id" ∨ child = .noteAcks ∧ c.name = "comment_id" := by
  decide

theorem hangs_on_ack : ∀ child : Table, ∀ c ∈ child.columns,
    c.references ≠ some ⟨.table .noteAcks, .cascade⟩ := by
  decide

/-! ## Leaf first -/

/-- A call's delete entries stand leaf-first: a removed row before every row whose removal took it
along. -/
def LeafFirst (db db' : Db) : Prop :=
  ∀ parent child, child ≠ parent → Relation.TransGen db.Hangs parent child →
    ((db.rows.lookup parent).isSome ∧ db'.rows.lookup parent = none) →
    ((db.rows.lookup child).isSome ∧ db'.rows.lookup child = none) →
    ∀ e ∈ db'.since db.lastSeq, ∀ e' ∈ db'.since db.lastSeq, e.key = child ∧ e.deleted = true →
      e'.key = parent ∧ e'.deleted = true → e.seq < e'.seq

/-- **A delete is logged leaf-first exactly if the registry names no other row for it**: the entry of
the deleted row stands before those of its children. -/
theorem leafFirst_iff (g : Generator) (calls : List Call) (c : Call) (key : Key)
    (ht : c.request.target = some key)
    (hkey : ((server.after (.fresh g) calls).db.rows.lookup key).isSome)
    (hgone : (server.after (.fresh g) (calls ++ [c])).db.rows.lookup key = none) :
    LeafFirst (server.after (.fresh g) calls).db (server.after (.fresh g) (calls ++ [c])).db ↔
      ∀ k ∈ (server.after (.fresh g) calls).db.cascadeChildren key, k = key := by
  rw [server.after_append] at hgone ⊢
  obtain ⟨p, m, -, -, hsince, hremoved⟩ := step_deletes (logOrdered_after g calls) ht hkey hgone
  generalize server.after (.fresh g) calls = σ at *
  constructor
  · intro h k hk
    by_contra hne
    have hchain := cascadeChildren_hang hk
    have hkrow := removed_present hkey (cascadeChildren_removed hk)
    have hkgone := (hremoved k).2 (.inr (cascadeChildren_removed hk))
    -- the entry of the deleted row is the first one
    obtain ⟨e, he, hek, hed, hseq⟩ := exists_mem_entries p.feed m.hlc true (σ.db.lastSeq + 1) hk
    have hlt := h key k hne hchain ⟨hkey, hgone⟩ ⟨hkrow, hkgone⟩ e
      (hsince ▸ List.mem_cons_of_mem _ he) ⟨σ.db.lastSeq + 1, p.feed, key, true, m.hlc⟩
      (hsince ▸ List.mem_cons_self ..) ⟨hek, hed⟩ ⟨rfl, rfl⟩
    exact absurd hlt (by simp only; omega)
  · intro h parent child hne _ _ _ e he e' he' hchild hparent
    have hown {e : Change} (he : e ∈ (server.step σ c).2.db.since σ.db.lastSeq) : e.key = key := by
      rw [hsince] at he
      rcases List.mem_cons.1 (mem_entries _ _ _ _ he).2.2.2 with hk | hk
      · exact hk
      · exact h _ hk
    exact absurd (hchild.1.symm.trans ((hown he).trans ((hown he').symm.trans hparent.1))) hne

/-- Ann's trip with a packing row and a note on it. -/
def notedRow : List Call := annsTrip ++ [
  .trip "T1" "ann" (.plain 2 .insert .tripItems "i1" [("trip_id", .str "T1"), ("name", .str "Tent")]),
  .trip "T1" "ann" (.plain 3 .insert .comments "n1" [("trip_id", .str "T1"),
    ("trip_item_id", .str "i1"), ("body", .str "Dry it first")])]

/-- The row with the note, after the delete of one of the two. -/
def without (t : Table) (id : String) : Server :=
  server.after (.fresh .plain) (notedRow ++ [.trip "T1" "ann" (.plain 4 .delete t id [])])

/-- What a delete names is gone, and the note goes with the row, which is logged first. -/
theorem noted_deletes :
    let db := (server.after (.fresh .plain) notedRow).db
    let hlc := ascii "1759999999999-0004-00000000"
    ((db.rows.lookup ⟨.comments, "n1"⟩).isSome ∧
      (without .comments "n1").db.rows.lookup ⟨.comments, "n1"⟩ = none) ∧
    ((db.rows.lookup ⟨.tripItems, "i1"⟩).isSome ∧
      (without .tripItems "i1").db.rows.lookup ⟨.tripItems, "i1"⟩ = none) ∧
    (without .tripItems "i1").db.rows.lookup ⟨.comments, "n1"⟩ = none ∧
    db.hangsOn ⟨.tripItems, "i1"⟩ ⟨.comments, "n1"⟩ = true ∧
    (⟨6, some "T1", ⟨.comments, "n1"⟩, true, hlc⟩ : Change) ∈
      (without .tripItems "i1").db.since db.lastSeq ∧
    (⟨5, some "T1", ⟨.tripItems, "i1"⟩, true, hlc⟩ : Change) ∈
      (without .tripItems "i1").db.since db.lastSeq := by
  decide +kernel

/-- The delete of the note alone. -/
theorem leafFirst_iff_note :
    let c := Call.trip "T1" "ann" (.plain 4 .delete .comments "n1" [])
    LeafFirst (server.after (.fresh .plain) notedRow).db
      (server.after (.fresh .plain) (notedRow ++ [c])).db ↔
      ∀ k ∈ (server.after (.fresh .plain) notedRow).db.cascadeChildren ⟨.comments, "n1"⟩,
        k = ⟨.comments, "n1"⟩ :=
  leafFirst_iff .plain notedRow _ ⟨.comments, "n1"⟩ rfl noted_deletes.1.1 noted_deletes.1.2

/-- The delete of a packing row is logged before the delete of the note on it. -/
theorem row_before_its_note : ¬ ∀ (g : Generator) (calls : List Call) (c : Call) (key : Key),
    c.request.target = some key →
    ((server.after (.fresh g) calls).db.rows.lookup key).isSome →
    (server.after (.fresh g) (calls ++ [c])).db.rows.lookup key = none →
    LeafFirst (server.after (.fresh g) calls).db (server.after (.fresh g) (calls ++ [c])).db := by
  intro h
  obtain ⟨⟨hnote, -⟩, ⟨hrow, hrowGone⟩, hnoteGone, hhangs, hlater, hearlier⟩ := noted_deletes
  have hfirst := h .plain notedRow (.trip "T1" "ann" (.plain 4 .delete .tripItems "i1" []))
    ⟨.tripItems, "i1"⟩ rfl hrow hrowGone ⟨.tripItems, "i1"⟩ ⟨.comments, "n1"⟩ (by decide)
    (.single hhangs) ⟨hrow, hrowGone⟩ ⟨hnote, hnoteGone⟩
  have hlt := hfirst _ hlater _ hearlier ⟨rfl, rfl⟩ ⟨rfl, rfl⟩
  exact absurd hlt (by decide)

/-! ## One entry for each row -/

/-- The feed that a row travels on. -/
def Key.feed (k : Key) (row : StoredRow) : Option String :=
  if k.table.partition = .trip then (row.fields columnTripID).asString else none

/-- Each row that the call removed has one delete entry, on its own feed. -/
def RemovalsFed (db db' : Db) : Prop :=
  ∀ k row, db.rows.lookup k = some row → db'.rows.lookup k = none →
    ((db'.since db.lastSeq).filter fun e => e.key = k && e.deleted).map (·.tripID) = [k.feed row]

namespace Db

variable {db : Db} {key k parent child : Key}

/-- Every reply to a note on the packing row is on the row itself. -/
def RepliesOnRow (db : Db) (id : String) : Prop := ∀ n note r reply,
  db.rows.lookup ⟨.comments, n⟩ = some note → note.fields "trip_item_id" = .str id →
  db.rows.lookup ⟨.comments, r⟩ = some reply → reply.fields "parent_id" = .str n →
  reply.fields "trip_item_id" = .str id

/-- The note is not its own parent, and nothing answers its replies but the note itself. -/
def OneLevel (db : Db) (id : String) : Prop :=
  (∀ note, db.rows.lookup ⟨.comments, id⟩ = some note → note.fields "parent_id" ≠ .str id) ∧
  ∀ n reply r answer, db.rows.lookup ⟨.comments, n⟩ = some reply →
    reply.fields "parent_id" = .str id → db.rows.lookup ⟨.comments, r⟩ = some answer →
    answer.fields "parent_id" = .str n → r = id

theorem nodup_select (t : Table) (p : StoredRow → Bool) : (db.select t p).Nodup := by
  have hkeys : ((db.rows.entries.filter fun e => e.1.table = t && p e.2).map (·.1)).Nodup :=
    (List.filter_sublist.map _).nodup db.rows.nodupKeys
  rw [select, show (fun e : Sigma fun _ : Key => StoredRow => e.1.id) = Key.id ∘ Sigma.fst from rfl,
    ← List.map_map]
  refine hkeys.map_on fun k hk k' hk' hid => ?_
  simp only [List.mem_map, List.mem_filter, Bool.and_eq_true, decide_eq_true_eq] at hk hk'
  obtain ⟨e, ⟨-, ht, -⟩, rfl⟩ := hk
  obtain ⟨e', ⟨-, ht', -⟩, rfl⟩ := hk'
  rcases e with ⟨⟨_, _⟩, _⟩
  rcases e' with ⟨⟨_, _⟩, _⟩
  cases ht
  cases ht'
  cases hid
  rfl

theorem nodup_cascadeChildren : (db.cascadeChildren key).Nodup := by
  have htables := List.pairwise_map.1 (cascades_nodup key.table)
  refine List.nodup_flatMap.2 ⟨fun q _ => ?_, htables.imp fun {q q'} hne => ?_⟩
  · exact (nodup_select ..).map fun _ _ h => (Key.mk.inj h).2
  · intro k hk hk'
    obtain ⟨_, -, rfl⟩ := List.mem_map.1 hk
    obtain ⟨_, -, h⟩ := List.mem_map.1 hk'
    exact hne (Key.mk.inj h).1.symm

theorem table_of_cascadeChildren (h : k ∈ db.cascadeChildren key) :
    k.table ∈ key.table.cascades.map (·.table) := by
  obtain ⟨q, hq, ht, -⟩ := mem_cascadeChildren.1 h
  exact List.mem_map.2 ⟨q, hq, ht⟩

/-- What hangs directly on a row of a trip is named. -/
theorem Hangs.named (hp : key.table.partition = .trip) (h : db.Hangs key k) :
    k ∈ db.cascadeChildren key := by
  obtain ⟨row, hrow, href⟩ := hangs_iff.1 h
  obtain ⟨c, hc, hcol, hv⟩ := refersTo_iff.1 href
  obtain ⟨q, hq, ht, hfinds⟩ := cascades_find _ hp _ c hc hcol
  exact mem_cascadeChildren.2 ⟨q, hq, ht, row, hrow, Where.holds_of_finds hfinds hv⟩

theorem Hangs.on_note {id : String} (h : db.Hangs ⟨.comments, id⟩ k) :
    ∃ row, db.rows.lookup k = some row ∧
      (k.table = .comments ∧ row.fields "parent_id" = .str id ∨
        k.table = .noteAcks ∧ row.fields "comment_id" = .str id) := by
  obtain ⟨row, hrow, href⟩ := hangs_iff.1 h
  obtain ⟨c, hc, hcol, hv⟩ := refersTo_iff.1 href
  refine ⟨row, hrow, ?_⟩
  rcases hangs_on_note _ c hc hcol with ⟨ht, hn⟩ | ⟨ht, hn⟩
  · exact .inl ⟨ht, hn ▸ hv⟩
  · exact .inr ⟨ht, hn ▸ hv⟩

/-- A reply to a note hangs on it. -/
theorem hangs_of_reply {n r : String} {reply : StoredRow}
    (hr : db.rows.lookup ⟨.comments, r⟩ = some reply) (hv : reply.fields "parent_id" = .str n) :
    db.Hangs ⟨.comments, n⟩ ⟨.comments, r⟩ :=
  .of_column hr (show Table.hangsBy .comments "parent_id" .comments = true from rfl) hv

theorem not_hangs_on_ack (id : String) (k : Key) : ¬ db.Hangs ⟨.noteAcks, id⟩ k := by
  intro h
  obtain ⟨row, -, href⟩ := hangs_iff.1 h
  obtain ⟨c, hc, hcol, -⟩ := refersTo_iff.1 href
  exact hangs_on_ack _ c hc hcol

/-- Everything removed is named if what hangs on a child is named. -/
theorem removed_named (hp : key.table.partition = .trip)
    (hclosed : ∀ child ∈ db.cascadeChildren key, ∀ k, db.Hangs child k →
      k = key ∨ k ∈ db.cascadeChildren key) (hk : k ∈ db.removed key) :
    k = key ∨ k ∈ db.cascadeChildren key := by
  induction mem_removed.1 hk with
  | refl => exact .inl rfl
  | tail hchain hlast ih =>
    rcases ih (mem_removed.2 hchain) with rfl | hchild
    · exact .inr (hlast.named hp)
    · exact hclosed _ hchild _ hlast

theorem mem_cascadeChildren_row {id : String} : k ∈ db.cascadeChildren ⟨.tripItems, id⟩ ↔
    ∃ row, db.rows.lookup k = some row ∧
      (k.table = .comments ∧ row.fields "trip_item_id" = .str id ∨
        k.table = .noteAcks ∧ ∃ n note, row.fields "comment_id" = .str n ∧
          db.rows.lookup ⟨.comments, n⟩ = some note ∧ note.fields "trip_item_id" = .str id) := by
  rw [mem_cascadeChildren]
  simp only [Table.cascades, List.mem_cons, List.not_mem_nil, or_false, exists_eq_or_imp, exists_eq_left,
    Where.holds_eq, Where.holds_within]
  constructor
  · rintro (⟨ht, row, hrow, h⟩ | ⟨ht, row, hrow, h⟩)
    exacts [⟨row, hrow, .inl ⟨ht.symm, h⟩⟩, ⟨row, hrow, .inr ⟨ht.symm, h⟩⟩]
  · rintro ⟨row, hrow, ⟨ht, h⟩ | ⟨ht, h⟩⟩
    exacts [.inl ⟨ht.symm, row, hrow, h⟩, .inr ⟨ht.symm, row, hrow, h⟩]

theorem mem_cascadeChildren_note {id : String} : k ∈ db.cascadeChildren ⟨.comments, id⟩ ↔
    ∃ row, db.rows.lookup k = some row ∧
      (k.table = .comments ∧ row.fields "parent_id" = .str id ∨
        k.table = .noteAcks ∧ (row.fields "comment_id" = .str id ∨
          ∃ n note, row.fields "comment_id" = .str n ∧
            db.rows.lookup ⟨.comments, n⟩ = some note ∧ note.fields "parent_id" = .str id)) := by
  rw [mem_cascadeChildren]
  simp only [Table.cascades, List.mem_cons, List.not_mem_nil, or_false, exists_eq_or_imp, exists_eq_left,
    Where.holds_eq, Where.holds_within, Where.holds_or]
  constructor
  · rintro (⟨ht, row, hrow, h⟩ | ⟨ht, row, hrow, h⟩)
    exacts [⟨row, hrow, .inl ⟨ht.symm, h⟩⟩, ⟨row, hrow, .inr ⟨ht.symm, h⟩⟩]
  · rintro ⟨row, hrow, ⟨ht, h⟩ | ⟨ht, h⟩⟩
    exacts [.inl ⟨ht.symm, row, hrow, h⟩, .inr ⟨ht.symm, row, hrow, h⟩]

/-- A delete of a packing row removes what the registry names exactly if the replies to its notes are
on the row. -/
theorem row_named_iff {id : String} :
    (∀ k ∈ db.removed ⟨.tripItems, id⟩,
      k = ⟨.tripItems, id⟩ ∨ k ∈ db.cascadeChildren ⟨.tripItems, id⟩) ↔ db.RepliesOnRow id := by
  constructor
  · intro h n note r reply hn hnote hr hreply
    have hchild : ⟨.comments, n⟩ ∈ db.cascadeChildren ⟨.tripItems, id⟩ :=
      mem_cascadeChildren_row.2 ⟨note, hn, .inl ⟨rfl, hnote⟩⟩
    have hchain := (cascadeChildren_hang hchild).tail (hangs_of_reply hr hreply)
    rcases h _ (mem_removed.2 hchain.to_reflTransGen) with h | h
    · cases h
    · obtain ⟨row, hrow, ⟨-, h⟩ | ⟨h, -⟩⟩ := mem_cascadeChildren_row.1 h
      · rw [hr] at hrow
        cases hrow
        exact h
      · cases h
  · intro h k hk
    refine removed_named rfl (fun child hchild k hk => .inr ?_) hk
    obtain ⟨t, n⟩ := child
    obtain ⟨note, hn, ⟨ht, hnote⟩ | ⟨ht, -⟩⟩ := mem_cascadeChildren_row.1 hchild <;> cases ht
    · obtain ⟨row, hrow, ⟨ht, hv⟩ | ⟨ht, hv⟩⟩ := hk.on_note
      · obtain ⟨t, r⟩ := k
        cases ht
        exact mem_cascadeChildren_row.2 ⟨row, hrow, .inl ⟨rfl, h n note r row hn hnote hrow hv⟩⟩
      · exact mem_cascadeChildren_row.2 ⟨row, hrow, .inr ⟨ht, n, note, hv, hn, hnote⟩⟩
    · exact absurd hk (not_hangs_on_ack _ _)

/-- A delete of a note removes what the registry names, each once, exactly if the thread below it is
one level deep. -/
theorem note_named_iff {id : String} :
    ((∀ k ∈ db.removed ⟨.comments, id⟩,
      k = ⟨.comments, id⟩ ∨ k ∈ db.cascadeChildren ⟨.comments, id⟩) ∧
      (⟨.comments, id⟩ : Key) ∉ db.cascadeChildren ⟨.comments, id⟩) ↔ db.OneLevel id := by
  have hself : (⟨.comments, id⟩ : Key) ∉ db.cascadeChildren ⟨.comments, id⟩ ↔
      ∀ note, db.rows.lookup ⟨.comments, id⟩ = some note → note.fields "parent_id" ≠ .str id := by
    rw [mem_cascadeChildren_note]
    constructor
    · exact fun h note hn hv => h ⟨note, hn, .inl ⟨rfl, hv⟩⟩
    · rintro h ⟨note, hn, ⟨-, hv⟩ | ⟨ht, -⟩⟩
      · exact h note hn hv
      · cases ht
  rw [hself, OneLevel, and_comm]
  refine and_congr_right fun hown => ?_
  constructor
  · intro h n reply r answer hn hreply hr hanswer
    have hchild : ⟨.comments, n⟩ ∈ db.cascadeChildren ⟨.comments, id⟩ :=
      mem_cascadeChildren_note.2 ⟨reply, hn, .inl ⟨rfl, hreply⟩⟩
    have hchain := (cascadeChildren_hang hchild).tail (hangs_of_reply hr hanswer)
    rcases h _ (mem_removed.2 hchain.to_reflTransGen) with h | h
    · exact (Key.mk.inj h).2
    · obtain ⟨row, hrow, ⟨-, hv⟩ | ⟨ht, -⟩⟩ := mem_cascadeChildren_note.1 h
      · rw [hr] at hrow
        cases hrow
        -- an answer to two notes: then the first is the second, which is no reply of its own
        rw [hanswer] at hv
        cases hv
        exact absurd hreply (hown reply hn)
      · cases ht
  · intro h k hk
    refine removed_named rfl (fun child hchild k hk => ?_) hk
    obtain ⟨t, n⟩ := child
    obtain ⟨reply, hn, ⟨ht, hreply⟩ | ⟨ht, -⟩⟩ := mem_cascadeChildren_note.1 hchild <;> cases ht
    · obtain ⟨row, hrow, ⟨ht, hv⟩ | ⟨ht, hv⟩⟩ := hk.on_note
      · obtain ⟨t, r⟩ := k
        cases ht
        exact .inl (congrArg _ (h n reply r row hn hreply hrow hv))
      · exact .inr (mem_cascadeChildren_note.2
          ⟨row, hrow, .inr ⟨ht, .inr ⟨n, reply, hv, hn, hreply⟩⟩⟩)
    · exact absurd hk (not_hangs_on_ack _ _)

theorem named_once_iff : (∀ k ∈ db.removed key, (key :: db.cascadeChildren key).count k = 1) ↔
    (∀ k ∈ db.removed key, k = key ∨ k ∈ db.cascadeChildren key) ∧
      key ∉ db.cascadeChildren key := by
  constructor
  · intro h
    refine ⟨fun k hk => ?_, fun hself => ?_⟩
    · exact List.mem_cons.1 (List.count_pos_iff.1 (by rw [h k hk]; exact Nat.one_pos))
    · have hone := h key self_mem_removed
      rw [List.count_cons_self, Nat.add_eq_right, List.count_eq_zero] at hone
      exact hone hself
  · rintro ⟨h, hself⟩ k hk
    exact List.count_eq_one_of_mem (List.nodup_cons.2 ⟨hself, nodup_cascadeChildren⟩)
      (List.mem_cons.2 (h k hk))

/-- A delete of a row of a trip removes what the registry names, each once, exactly if the threads
under it end where the registry ends. -/
theorem removed_once_iff (hp : key.table.partition = .trip) :
    (∀ k ∈ db.removed key, (key :: db.cascadeChildren key).count k = 1) ↔
      (key.table = .tripItems → db.RepliesOnRow key.id) ∧
        (key.table = .comments → db.OneLevel key.id) := by
  rw [named_once_iff]
  obtain ⟨t, id⟩ := key
  have hself (ht : t ≠ .comments) : (⟨t, id⟩ : Key) ∉ db.cascadeChildren ⟨t, id⟩ :=
    fun h => cascades_self t ht (table_of_cascadeChildren h)
  by_cases hc : t = .comments
  · subst hc
    rw [note_named_iff]
    simp
  by_cases hi : t = .tripItems
  · subst hi
    rw [row_named_iff]
    simp [hself hc]
  · simp only [hi, hc, false_implies, and_self, iff_true]
    refine ⟨fun k hk => removed_named hp (fun child hchild k hk => ?_) hk, hself hc⟩
    obtain ⟨q, hq, ht, -⟩ := mem_cascadeChildren.1 hchild
    obtain ⟨row, -, href⟩ := hangs_iff.1 hk
    obtain ⟨c, hcol, hparent, -⟩ := refersTo_iff.1 href
    exact absurd (ht ▸ hparent) (cascades_end t hp hi hc q hq _ c hcol)

end Db

/-- **Every row that a delete on a trip's partition removes has one delete entry, on its own feed**,
exactly if no row of another trip goes with it, the replies to notes on a deleted packing row are
themselves on the row, and the thread of a deleted note is one level deep. -/
theorem removalsFed_iff (g : Generator) (calls : List Call) (c : Call) (tripID userID : String)
    (m : Mutation) (key : Key) (hr : c.request = .push tripID userID m)
    (ht : c.request.target = some key)
    (hkey : ((server.after (.fresh g) calls).db.rows.lookup key).isSome)
    (hgone : (server.after (.fresh g) (calls ++ [c])).db.rows.lookup key = none) :
    RemovalsFed (server.after (.fresh g) calls).db (server.after (.fresh g) (calls ++ [c])).db ↔
      (∀ k ∈ (server.after (.fresh g) calls).db.removed key, ∀ row,
        (server.after (.fresh g) calls).db.rows.lookup k = some row → k.feed row = some tripID) ∧
      (key.table = .tripItems → (server.after (.fresh g) calls).db.RepliesOnRow key.id) ∧
      (key.table = .comments → (server.after (.fresh g) calls).db.OneLevel key.id) := by
  rw [server.after_append] at hgone ⊢
  obtain ⟨p, m', hp, htable, hsince, hremoved⟩ := step_deletes (logOrdered_after g calls) ht hkey hgone
  generalize server.after (.fresh g) calls = σ at *
  obtain ⟨htrip, hfeed⟩ : key.table.partition = .trip ∧ p.feed = some tripID := by
    rw [hr] at hp
    cases hp
    exact ⟨of_decide_eq_true htable, rfl⟩
  rw [← removed_once_iff htrip]
  have hentry (k : Key) (row : StoredRow) :
      ((((server.step σ c).2.db.since σ.db.lastSeq).filter fun e => e.key = k && e.deleted).map
        (·.tripID) = [k.feed row]) ↔
      (key :: σ.db.cascadeChildren key).count k = 1 ∧ k.feed row = some tripID := by
    rw [hsince, feeds_entries, hfeed]
    constructor
    · intro h
      have hlen := congrArg List.length h
      rw [List.length_replicate, List.length_singleton] at hlen
      rw [hlen] at h
      exact ⟨hlen, (List.singleton_inj.1 h).symm⟩
    · rintro ⟨hcount, hfeed⟩
      rw [hcount, hfeed]
      rfl
  constructor
  · intro h
    have hone (k : Key) (hk : k ∈ σ.db.removed key) (row : StoredRow)
        (hrow : σ.db.rows.lookup k = some row) :=
      (hentry k row).1 (h k row hrow ((hremoved k).2 (.inr hk)))
    refine ⟨fun k hk row hrow => (hone k hk row hrow).2, fun k hk => ?_⟩
    obtain ⟨row, hrow⟩ := Option.isSome_iff_exists.1 (removed_present hkey hk)
    exact (hone k hk row hrow).1
  · rintro ⟨hown, hone⟩ k row hrow hkgone
    rcases (hremoved k).1 hkgone with hk | hk
    · rw [hrow] at hk
      cases hk
    · exact (hentry k row).2 ⟨hone k hk, hown k hk row hrow⟩

/-- A note with a reply, which is then put on the packing row. -/
def answeredRow : List Call := notedRow ++ [
  .trip "T1" "ann" (.plain 4 .insert .comments "n2" [("trip_id", .str "T1"), ("body", .str "Who?")]),
  .trip "T1" "ann" (.plain 5 .insert .comments "r2" [("trip_id", .str "T1"), ("parent_id", .str "n2"),
    ("body", .str "Me")]),
  .trip "T1" "ann" (.plain 6 .upsert .comments "n2" [("trip_item_id", .str "i1")])]

/-- The delete of a packing row with a note. -/
theorem removalsFed_iff_row :
    let c := Call.trip "T1" "ann" (.plain 4 .delete .tripItems "i1" [])
    let db := (server.after (.fresh .plain) notedRow).db
    RemovalsFed db (server.after (.fresh .plain) (notedRow ++ [c])).db ↔
      (∀ k ∈ db.removed ⟨.tripItems, "i1"⟩, ∀ row, db.rows.lookup k = some row →
        k.feed row = some "T1") ∧
      ((⟨.tripItems, "i1"⟩ : Key).table = .tripItems → db.RepliesOnRow "i1") ∧
      ((⟨.tripItems, "i1"⟩ : Key).table = .comments → db.OneLevel "i1") :=
  removalsFed_iff .plain notedRow _ "T1" "ann" _ ⟨.tripItems, "i1"⟩ rfl rfl
    noted_deletes.2.1.1 noted_deletes.2.1.2

/-- Without the packing row, the reply is gone, and the log does not say so. -/
theorem answered_deletes :
    let db := (server.after (.fresh .plain) answeredRow).db
    let db' := (server.after (.fresh .plain)
      (answeredRow ++ [.trip "T1" "ann" (.plain 7 .delete .tripItems "i1" [])])).db
    (db.rows.lookup ⟨.tripItems, "i1"⟩).isSome ∧ db'.rows.lookup ⟨.tripItems, "i1"⟩ = none ∧
    (db.rows.lookup ⟨.comments, "r2"⟩).isSome ∧ db'.rows.lookup ⟨.comments, "r2"⟩ = none ∧
    ((db'.since db.lastSeq).filter
      fun e => e.key = ⟨.comments, "r2"⟩ && e.deleted).length ≠ 1 := by
  decide +kernel

/-- The reply goes with the packing row, and no device is told. -/
theorem reply_goes_untold : ¬ ∀ (g : Generator) (calls : List Call) (c : Call) (tripID userID : String)
    (m : Mutation) (key : Key), c.request = .push tripID userID m → c.request.target = some key →
    ((server.after (.fresh g) calls).db.rows.lookup key).isSome →
    (server.after (.fresh g) (calls ++ [c])).db.rows.lookup key = none →
    RemovalsFed (server.after (.fresh g) calls).db (server.after (.fresh g) (calls ++ [c])).db := by
  intro h
  obtain ⟨hrow, hrowGone, hthere, hreplyGone, huntold⟩ := answered_deletes
  have hfed := h .plain answeredRow (.trip "T1" "ann" (.plain 7 .delete .tripItems "i1" [])) "T1" "ann" _
    ⟨.tripItems, "i1"⟩ rfl rfl hrow hrowGone
  obtain ⟨reply, hreply⟩ := Option.isSome_iff_exists.1 hthere
  have hone := congrArg List.length (hfed ⟨.comments, "r2"⟩ reply hreply hreplyGone)
  rw [List.length_map, List.length_singleton] at hone
  exact huntold hone

end JitPack
