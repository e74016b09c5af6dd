import JitPack.Store.Applied

/-!
# What a call can do to the database

`step_cases` inverts a step of the server: either the database is as it was, or the call has done one
of the writes that `Effect` lists, whole. A call that fails half way falls under the first case,
since every write of the store commits last (the lemmas `…_atomic`).
-/

namespace JitPack

open Txn (World)
open Txn.Proc

/-! ## The writes that answer -/

/-- What a revert of the entry `e` has done that restored `fields`. -/
inductive Restored (s : Env) (p : Partition) (e : ConflictEntry) (fields : Fields) (db : Db) :
    Db → Prop where
  | intro {t m hlc seq db₁ db₂ db₃ db₄}
      (valid : validate ⟨"", .upsert, e.key.table.name, e.key.id, fields, []⟩ p.tables = .ok t)
      (claimed : db.Noted db₁) (present : (loadRow ⟨t, e.key.id⟩ db).present = true)
      (gate : p.gate s db₁ t ⟨"", .upsert, e.key.table.name, e.key.id, fields, []⟩ = (m, none))
      (wins : (merge (loadRow ⟨t, e.key.id⟩ db) { m with hlc }).applied.entries ≠ [])
      (update : Db.updateRow s.sqlite ⟨t, e.key.id⟩
        (merge (loadRow ⟨t, e.key.id⟩ db) { m with hlc }).applied
        (merge (loadRow ⟨t, e.key.id⟩ db) { m with hlc }).rowHLC
        (merge (loadRow ⟨t, e.key.id⟩ db) { m with hlc }).clocks db₁ = .ok db₂)
      (owed : Owed s p
        ⟨{ m with hlc }, ⟨t, e.key.id⟩, loadRow ⟨t, e.key.id⟩ db, false, false, seq⟩
        (db₂.log p.feed hlc false [⟨t, e.key.id⟩]) db₃)
      (noted : db₃.Noted db₄) : Restored s p e fields db db₄

/-- The fields that a takeover writes. -/
def takenFields (s : Env) (takerID : String) : Fields :=
  Fields.decode [(fieldState, .str statePackingNow), ("packing_now_by", .str takerID),
    ("packing_now_at", .str (Now.rfc3339 s.now))]

/-- The mutation of a takeover. -/
def takeoverOf (s : Env) (itemID takerID : String) (hlc : HLC) : Mutation :=
  ⟨"", .upsert, Table.name .tripItems, itemID, takenFields s takerID, hlc⟩

/-- What a takeover has done. -/
inductive Taken (s : Env) (tripID itemID takerID : String) (db : Db) : Db → Prop where
  | intro {row name holder hlc db₁} {event : LockEvent}
      (present : db.rows.lookup ⟨.tripItems, itemID⟩ = some row)
      (held : heldClaim tripID itemID takerID db = .ok (name, holder))
      (update : Db.updateRow s.sqlite ⟨.tripItems, itemID⟩
        (merge (loadRow ⟨.tripItems, itemID⟩ db) (takeoverOf s itemID takerID hlc)).applied
        (merge (loadRow ⟨.tripItems, itemID⟩ db) (takeoverOf s itemID takerID hlc)).rowHLC
        (merge (loadRow ⟨.tripItems, itemID⟩ db) (takeoverOf s itemID takerID hlc)).clocks db = .ok db₁) :
      Taken s tripID itemID takerID db
        { db₁.log (some tripID) hlc false [⟨.tripItems, itemID⟩] with
          lockEvents := db₁.lockEvents ++ [event] }

/-- The fields of a new track. -/
def TrackFile.inserted (f : TrackFile) (h : TrackHolder) (tripID holderID hash : String)
    (position : Int) : Fields :=
  Fields.decode (f.fileFields hash ++ f.rowFields h tripID holderID position)

/-- The fields of a new picture of an idea. -/
def ideaImageFields (tripID ideaID hash : String) (position : Int) : Fields :=
  Fields.decode [("trip_id", .str tripID), ("idea_id", .str ideaID), ("image_hash", .str hash),
    ("position", .int position)]

/-- What a track upload has done. The clock is the generator's next one. -/
inductive TrackStored (s : Env) (g : Generator) (h : TrackHolder) (tripID holderID trackID : String)
    (f : TrackFile) (db : Db) : Db → Prop where
  | replaced {row db₁ db₂}
      (holder : db.tripOf h.holders holderID = some (.str tripID))
      (present : db.rows.lookup ⟨h.table, trackID⟩ = some row)
      (differs : row.fields "gpx_hash" ≠ .str (s.hash f.gpx))
      (update : Db.updateRow s.sqlite ⟨h.table, trackID⟩ (Fields.decode (f.fileFields (s.hash f.gpx)))
        (g.next s.now).1 (replacedClocks (loadRow ⟨h.table, trackID⟩ db) (g.next s.now).1) db = .ok db₁)
      (noted : (db₁.log (some tripID) (g.next s.now).1 false [⟨h.table, trackID⟩]).Noted db₂) :
      TrackStored s g h tripID holderID trackID f db db₂
  | inserted {next db₁ db₂}
      (holder : db.tripOf h.holders holderID = some (.str tripID))
      (insert : Db.insertRow s.sqlite s.sqlNow ⟨h.table, trackID⟩
        (f.inserted h tripID holderID (s.hash f.gpx) next) (g.next s.now).1 (fun _ => none) db = .ok db₁)
      (noted : (db₁.log (some tripID) (g.next s.now).1 false [⟨h.table, trackID⟩]).Noted db₂) :
      TrackStored s g h tripID holderID trackID f db db₂

/-- What the upload of a picture of an idea has done. -/
inductive ImageAdded (s : Env) (g : Generator) (tripID ideaID imageID : String) (hash : String)
    (db : Db) : Db → Prop where
  | intro {next db₁ db₂} (holder : db.tripOf .ideas ideaID = some (.str tripID))
      (insert : Db.insertRow s.sqlite s.sqlNow ⟨.ideaImages, imageID⟩
        (ideaImageFields tripID ideaID hash next) (g.next s.now).1 (fun _ => none) db = .ok db₁)
      (noted : (db₁.log (some tripID) (g.next s.now).1 false [⟨.ideaImages, imageID⟩]).Noted db₂) :
      ImageAdded s g tripID ideaID imageID hash db db₂

/-- What the stamp of an item's photo has done. -/
inductive ImageStamped (s : Env) (g : Generator) (itemID : String) (hash : Option String) (db : Db) :
    Db → Prop where
  | intro {row db₁ db₂} (present : db.rows.lookup ⟨.items, itemID⟩ = some row)
      (update : Db.updateRow s.sqlite ⟨.items, itemID⟩
        (Fields.decode [("image_hash", (hash.map Value.str).getD .null)]) (g.next s.now).1 row.clocks db =
          .ok db₁)
      (noted : (db₁.log none (g.next s.now).1 false [⟨.items, itemID⟩]).Noted db₂) :
      ImageStamped s g itemID hash db db₂

section
variable {s : Env} {p : Partition} {m : Mutation} {key : Key} {row : Row}
variable {faults : Nat → Option Error} {w w' : World Db Memory}

/-- The row that `loadRow` finds. -/
theorem loadRow_of_present {db : Db} (h : (loadRow key db).present = true) :
    ∃ row, db.rows.lookup key = some row ∧ loadRow key db = ⟨true, row.fields, row.hlc, row.clocks⟩ := by
  unfold loadRow at h ⊢
  cases hr : db.rows.lookup key with
  | none => rw [hr] at h; cases h
  | some row => exact ⟨row, rfl, rfl⟩

theorem loadRow_of_lookup {db : Db} {row : StoredRow} (h : db.rows.lookup key = some row) :
    loadRow key db = ⟨true, row.fields, row.hlc, row.clocks⟩ := by
  unfold loadRow
  rw [h]

theorem loadRow_congr {db db' : Db} (h : db'.rows = db.rows) : loadRow key db' = loadRow key db := by
  unfold loadRow
  rw [h]

theorem memory_moved {α : Type} {f : Memory → Except Error α × Memory} {a : α}
    (h : memory f faults w = (.ok a, w')) : w'.db = w.db ∧ w'.disk = w.disk := by
  obtain ⟨-, rfl⟩ := memory_ok.1 h
  exact ⟨rfl, rfl⟩

theorem onlyIf_observe_ok {c : Bool} {h : HLC} {u : Unit}
    (ho : onlyIf c (observe h) () faults w = (.ok u, w')) : w'.db = w.db ∧ w'.disk = w.disk := by
  rcases onlyIf_ok.1 ho with ⟨-, ho⟩ | ⟨-, -, rfl⟩
  · exact memory_moved ho
  · exact ⟨rfl, rfl⟩

theorem claimConflicts_ok {ids : List String} {u : Unit}
    (h : claimConflicts ids faults w = (.ok u, w')) :
    ∃ db, w'.db = db ∧ w'.disk = w.disk ∧ w.db.Noted db := by
  simp only [claimConflicts, write_ok] at h
  obtain ⟨-, db, hdb, rfl⟩ := h
  split at hdb
  · cases hdb
    exact ⟨_, rfl, rfl, rfl, rfl, rfl, rfl, rfl, rfl⟩
  · cases hdb

theorem restore_ok {n : Nat} (hp : p.Hooked)
    (h : restore s p m key row faults w = (.ok n, w')) :
    ∃ hlc seq db₁ db₂ db₃, (merge row { m with hlc }).applied.entries ≠ [] ∧
      Db.updateRow s.sqlite key (merge row { m with hlc }).applied (merge row { m with hlc }).rowHLC
        (merge row { m with hlc }).clocks w.db = .ok db₁ ∧
      Owed s p ⟨{ m with hlc }, key, row, false, false, seq⟩ (db₁.log p.feed hlc false [key]) db₂ ∧
      db₂.Noted db₃ ∧ w'.disk = db₃ := by
  simp only [restore, bind_ok] at h
  obtain ⟨_, w₁, h₁, hlc, w₂, h₂, h⟩ := h
  obtain ⟨hdb₁, -⟩ := onlyIf_observe_ok h₁
  obtain ⟨hdb₂, -⟩ := memory_moved h₂
  split at h
  · exact absurd h (fail_ok _)
  next hwins =>
  simp only [bind_ok, failAs_ok, write_ok, commit_ok, pure_ok] at h
  obtain ⟨_, w₃, ⟨-, db₁, hu, rfl⟩, seq, w₄, h₄, _, w₅, h₅, _, w₆, h₆, _, w₇, ⟨-, rfl⟩, -, rfl⟩ := h
  obtain ⟨-, m₄⟩ := appendChangeLog_ok h₄
  obtain ⟨db₂, m₅, owed⟩ := owed_ok hp h₅
  obtain ⟨db₃, m₆, n₆⟩ := recordActivity_ok h₆
  rw [hdb₂, hdb₁] at hu
  rw [m₄.db] at owed
  rw [m₅.db] at n₆
  exact ⟨hlc, seq, db₁, db₂, db₃, by simpa using hwins, hu, owed, n₆, m₆.db⟩

theorem applyRevert_ok {e : ConflictEntry} {group : Fields × List String} {n : Nat} (hp : p.Hooked)
    (h : applyRevert s e group p faults w = (.ok n, w')) : Restored s p e group.1 w.disk w'.disk := by
  unfold applyRevert at h
  cases hv : validate ⟨"", .upsert, e.key.table.name, e.key.id, group.1, []⟩ p.tables with
  | error err => simp [hv] at h
  | ok t =>
    simp only [hv, transact_ok, bind_ok] at h
    obtain ⟨w₁, ⟨_, w₂, h₂, row, w₃, h₃, h⟩, rfl⟩ := h
    obtain ⟨db, hdb, -, hn⟩ := claimConflicts_ok h₂
    obtain ⟨-, rfl, rfl⟩ := query_ok.1 h₃
    have hrow : loadRow ⟨t, e.key.id⟩ db = loadRow ⟨t, e.key.id⟩ w.disk := loadRow_congr hn.rows
    rw [hdb, hrow] at h
    split at h
    · exact absurd h (fail_ok _)
    next hpres =>
    simp only [bind_ok, query_ok, Txn.World.next_db] at h
    obtain ⟨gated, w₄, ⟨-, rfl, rfl⟩, h⟩ := h
    rw [hdb] at h
    rcases hg : p.gate s db t ⟨"", .upsert, e.key.table.name, e.key.id, group.1, []⟩ with
      ⟨m, reason | reason⟩ <;> have hscope := hg <;> rw [Partition.gate, hrow] at hscope <;>
      simp only [hscope] at h
    · obtain ⟨hlc, seq, db₁, db₂, db₃, wins, update, owed, noted, hdisk⟩ := restore_ok hp h
      simp only [Txn.World.next_db, hdb] at update
      exact hdisk ▸ .intro hv hn (by simpa using hpres) hg wins update owed noted
    · exact absurd h (fail_ok _)

theorem takeOverClaim_ok {tripID itemID takerID : String} {event : LockEvent}
    (h : takeOverClaim s tripID itemID takerID faults w = (.ok event, w')) :
    Taken s tripID itemID takerID w.disk w'.disk := by
  simp only [takeOverClaim, transact_ok, bind_ok] at h
  obtain ⟨w₁, ⟨⟨name, holder⟩, w₂, h₂, row, w₃, h₃, _, w₄, h₄, hlc, w₅, h₅, h⟩, rfl⟩ := h
  obtain ⟨-, db, hdb, rfl⟩ := exec_ok.1 h₂
  obtain ⟨-, rfl, rfl⟩ := query_ok.1 h₃
  obtain ⟨hdb₄, -⟩ := onlyIf_observe_ok h₄
  obtain ⟨hdb₅, -⟩ := memory_moved h₅
  have hheld : heldClaim tripID itemID takerID w.disk = .ok (name, holder) ∧ db = w.disk := by
    revert hdb
    cases heldClaim tripID itemID takerID w.disk with
    | error err => intro hdb; cases hdb
    | ok held => intro hdb; cases hdb; exact ⟨rfl, rfl⟩
  obtain ⟨hheld, rfl⟩ := hheld
  simp only [write_ok, commit_ok, pure_ok] at h
  obtain ⟨_, w₆, ⟨-, db₁, hu, rfl⟩, _, w₇, h₇, id, w₈, h₈, _, w₉, ⟨-, db₂, hdb₂, rfl⟩, _, w₁₀,
    ⟨-, rfl⟩, rfl, rfl⟩ := h
  obtain ⟨-, m₇⟩ := appendChangeLog_ok h₇
  obtain ⟨hdb₈, -⟩ := memory_moved h₈
  rw [hdb₅, hdb₄] at hu
  split at hdb₂
  · rw [hdb₈, m₇.db] at hdb₂
    cases hdb₂
    have hpres : ∃ row, w.disk.rows.lookup ⟨.tripItems, itemID⟩ = some row := by
      revert hheld
      unfold heldClaim
      cases w.disk.rows.lookup ⟨.tripItems, itemID⟩ with
      | none => intro hheld; cases hheld
      | some row => intro _; exact ⟨row, rfl⟩
    obtain ⟨row, hrow⟩ := hpres
    exact .intro hrow hheld hu
  · cases hdb₂

theorem countAndNext_ok {t : Table} {column holderID : String} {r : Nat × Int}
    (h : countAndNext s t column holderID faults w = (.ok r, w')) :
    w'.db = w.db ∧ w'.disk = w.disk := by
  obtain ⟨-, db, hdb, rfl⟩ := exec_ok.1 h
  dsimp only at hdb
  split at hdb
  · cases hdb
    exact ⟨rfl, rfl⟩
  · cases hdb

theorem storeTrack_ok {h : TrackHolder} {hlc : HLC} {tripID holderID trackID hash : String}
    {f : TrackFile} {r : Fields × Int}
    (hs : storeTrack s h hlc tripID holderID trackID hash row f faults w = (.ok r, w')) :
    (row.present = true ∧ Db.updateRow s.sqlite ⟨h.table, trackID⟩ (Fields.decode (f.fileFields hash))
      hlc (replacedClocks row hlc) w.db = .ok w'.db) ∨
    (row.present = false ∧ ∃ next, Db.insertRow s.sqlite s.sqlNow ⟨h.table, trackID⟩
      (f.inserted h tripID holderID hash next) hlc (fun _ => none) w.db = .ok w'.db) := by
  unfold storeTrack at hs
  cases hp : row.present with
  | true =>
    simp only [hp, if_true, replaceTrack, storeBytes, bind_ok, write_ok, pure_ok] at hs
    obtain ⟨_, _, ⟨-, db, hu, rfl⟩, _, _, ⟨-, _, h', rfl⟩, -, rfl⟩ := hs
    cases h'
    exact .inl ⟨rfl, hu⟩
  | false =>
    simp only [hp, Bool.false_eq_true, if_false, insertTrack, bind_ok] at hs
    obtain ⟨⟨count, next⟩, w₁, h₁, hs⟩ := hs
    obtain ⟨hdb, -⟩ := countAndNext_ok h₁
    dsimp only at hs
    split at hs
    · exact absurd hs (fail_ok _)
    · simp only [storeBytes, bind_ok, write_ok, pure_ok] at hs
      obtain ⟨_, _, ⟨-, db, hi, rfl⟩, _, _, ⟨-, _, h', rfl⟩, -, rfl⟩ := hs
      cases h'
      rw [hdb] at hi
      exact .inr ⟨rfl, next, hi⟩

theorem putTrack_ok {h : TrackHolder} {tripID userID holderID trackID : String} {f : TrackFile}
    {track : Track} (ht : putTrack s h tripID userID holderID trackID f faults w = (.ok track, w')) :
    w'.disk = w.disk ∨ TrackStored s w.mem.hlc h tripID holderID trackID f w.disk w'.disk := by
  unfold putTrack at ht
  split at ht
  · exact absurd ht (fail_ok _)
  split at ht
  · exact absurd ht (fail_ok _)
  simp only [transact_ok, bind_ok] at ht
  obtain ⟨w₁, ⟨onTrip, w₂, h₂, ht⟩, rfl⟩ := ht
  obtain ⟨-, rfl, rfl⟩ := query_ok.1 h₂
  split at ht
  · exact absurd ht (fail_ok _)
  next holder =>
  simp only [bind_ok] at ht
  obtain ⟨before, w₃, h₃, ht⟩ := ht
  obtain ⟨-, rfl, rfl⟩ := query_ok.1 h₃
  split at ht
  · exact absurd ht (fail_ok _)
  simp only [bind_ok] at ht
  obtain ⟨hlc, w₄, h₄, ht⟩ := ht
  obtain ⟨hhlc, rfl⟩ := memory_ok.1 h₄
  obtain rfl : (w.mem.hlc.next s.now).1 = hlc := Except.ok.inj hhlc
  split at ht
  · simp only [pure_ok] at ht
    obtain ⟨-, rfl⟩ := ht
    exact .inl rfl
  next hdiff =>
  simp only [bind_ok, commit_ok, pure_ok] at ht
  obtain ⟨⟨applied, position⟩, w₅, h₅, _, w₆, h₆, _, w₇, h₇, _, w₈, ⟨-, rfl⟩, -, rfl⟩ := ht
  obtain ⟨-, m₆⟩ := appendChangeLog_ok h₆
  obtain ⟨db₂, m₇, n₇⟩ := recordActivity_ok h₇
  rw [m₆.db] at n₇
  refine .inr ?_
  simp only [m₇.db]
  simp only [Bool.not_eq_true', decide_eq_false_iff_not, not_not] at holder
  rcases storeTrack_ok h₅ with ⟨hpres, hu⟩ | ⟨hpres, next, hi⟩
  · obtain ⟨row, hrow, hload⟩ := loadRow_of_present hpres
    refine .replaced holder hrow ?_ hu n₇
    intro hsame
    exact hdiff ⟨hpres, (congrFun (congrArg Row.fields hload) _).trans hsame⟩
  · exact .inserted holder hi n₇

theorem addIdeaImage_ok {tripID userID ideaID imageID : String} {jpeg : List UInt8}
    {image : IdeaImage}
    (h : addIdeaImage s tripID userID ideaID imageID jpeg faults w = (.ok image, w')) :
    w'.disk = w.disk ∨
      ImageAdded s w.mem.hlc tripID ideaID imageID (s.hash jpeg) w.disk w'.disk := by
  unfold addIdeaImage at h
  split at h
  · exact absurd h (fail_ok _)
  simp only [transact_ok, bind_ok] at h
  obtain ⟨w₁, ⟨onTrip, w₂, h₂, h⟩, rfl⟩ := h
  obtain ⟨-, rfl, rfl⟩ := query_ok.1 h₂
  split at h
  · exact absurd h (fail_ok _)
  next holder =>
  simp only [bind_ok] at h
  obtain ⟨known, w₃, h₃, h⟩ := h
  obtain ⟨-, rfl, rfl⟩ := query_ok.1 h₃
  split at h
  · simp only [pure_ok] at h
    obtain ⟨-, rfl⟩ := h
    exact .inl rfl
  simp only [bind_ok] at h
  obtain ⟨⟨count, next⟩, w₄, h₄, h⟩ := h
  obtain ⟨hdb₄, -⟩ := countAndNext_ok h₄
  have hmem : w₄.mem = w.mem := by
    obtain ⟨-, db, -, rfl⟩ := exec_ok.1 h₄
    rfl
  dsimp only at h
  split at h
  · exact absurd h (fail_ok _)
  simp only [storeBytes, bind_ok, write_ok, commit_ok, pure_ok] at h
  obtain ⟨hlc, w₅, h₅, _, _, ⟨-, db₁, hi, rfl⟩, _, _, ⟨-, _, h', rfl⟩, _, w₆, h₆, _, w₇, h₇, _, w₈,
    ⟨-, rfl⟩, -, rfl⟩ := h
  cases h'
  obtain ⟨hhlc, rfl⟩ := memory_ok.1 h₅
  obtain rfl : (w₄.mem.hlc.next s.now).1 = hlc := Except.ok.inj hhlc
  rw [hmem] at hi h₆
  obtain ⟨-, m₆⟩ := appendChangeLog_ok h₆
  obtain ⟨db₂, m₇, n₇⟩ := recordActivity_ok h₇
  rw [m₆.db] at n₇
  simp only [hdb₄, Txn.World.next_db] at hi
  simp only [m₇.db]
  simp only [Bool.not_eq_true', decide_eq_false_iff_not, not_not] at holder
  exact .inr (.intro holder hi n₇)

theorem withImageTx_ok {userID itemID : String} {hash : Option String} {u : Unit}
    (h : withImageTx s userID itemID hash faults w = (.ok u, w')) :
    ImageStamped s w.mem.hlc itemID hash w.disk w'.disk := by
  simp only [withImageTx, transact_ok, bind_ok] at h
  obtain ⟨w₁, ⟨before, w₂, h₂, hlc, w₃, h₃, _, w₄, h₄, h⟩, rfl⟩ := h
  obtain ⟨-, rfl, rfl⟩ := query_ok.1 h₂
  obtain ⟨hhlc, rfl⟩ := memory_ok.1 h₃
  obtain rfl : (w.mem.hlc.next s.now).1 = hlc := Except.ok.inj hhlc
  obtain ⟨-, db₁, hu, rfl⟩ := write_ok.1 h₄
  split at h
  · exact absurd h (fail_ok _)
  next hpres =>
  simp only [storeBytes, bind_ok, write_ok, commit_ok] at h
  obtain ⟨_, _, ⟨-, _, h', rfl⟩, _, w₅, h₅, _, w₆, h₆, -, rfl⟩ := h
  cases h'
  obtain ⟨-, m₅⟩ := appendChangeLog_ok h₅
  obtain ⟨db₂, m₆, n₆⟩ := recordActivity_ok h₆
  rw [m₅.db] at n₆
  obtain ⟨row, hrow, hload⟩ := loadRow_of_present (by simpa using hpres)
  simp only [Txn.World.next_db] at hload hu hrow
  rw [hload] at hu
  simp only [m₆.db]
  exact .intro hrow hu n₆

/-- A delete over REST that has got to its push has done what the push did. -/
theorem deleteWithClock_cases {rowHLC : HLC} (hp : p.Hooked)
    (hf : ∀ n, faults n ≠ some .constraint) :
    (deleteWithClock s key rowHLC p faults w).2.disk = w.disk ∨
    ∃ id hlc res, hlc ≠ [] ∧ Applied s p ⟨id, .delete, key.table.name, key.id, ∅, hlc⟩ w.disk res
      (deleteWithClock s key rowHLC p faults w).2.disk := by
  rcases hr : deleteWithClock s key rowHLC p faults w with ⟨e | res, w'⟩
  · refine .inl ((deleteWithClock_atomic hp) _ _ _ _ hr)
  · simp only [deleteWithClock, bind_ok] at hr
    obtain ⟨_, w₁, h₁, id, w₂, h₂, hlc, w₃, h₃, h⟩ := hr
    obtain ⟨-, hd₁⟩ := onlyIf_observe_ok h₁
    obtain ⟨-, hd₂⟩ := memory_moved h₂
    obtain ⟨-, hd₃⟩ := memory_moved h₃
    obtain ⟨db, happ, hdisk, -⟩ := applyMutation_ok hp hf h
    rw [hd₃, hd₂, hd₁] at happ
    refine .inr ⟨id, hlc, res, ?_, hdisk ▸ happ⟩
    obtain ⟨hhlc, -⟩ := memory_ok.1 h₃
    obtain rfl : (w₂.mem.hlc.next s.now).1 = hlc := Except.ok.inj hhlc
    simp [Generator.next, HLC.format]

/-- What follows the push of a delete over REST only reads. -/
theorem deleteMasterRow_disk {userID : String} {seen : Db} :
    (deleteMasterRow s userID key seen faults w).2.disk = w.disk ∨
    key.table ∈ deletableMasterTables ∧ ∃ row : StoredRow,
      (deleteMasterRow s userID key seen faults w).2.disk =
        (deleteWithClock s key row.hlc (masterPartition userID) faults w).2.disk := by
  unfold deleteMasterRow
  split
  · exact .inl rfl
  next ht =>
  cases seen.rows.lookup key with
  | none => exact .inl rfl
  | some row =>
    exact .inr ⟨not_not.1 ht, row, Keeps.after_bind (f := onDisk)
      (fun _ => .bind (.onlyIf (.query _)) fun _ => .pure) faults w⟩

end

/-! ## One step of the server -/

/-- The request is the push of the mutation to the partition, or ends with it. -/
inductive Pushes : Request → Partition → Mutation → Prop where
  | trip {tripID userID m} (hv : HLC.valid m.hlc = true) :
      Pushes (.push tripID userID m) (tripPartition tripID userID) m
  | master {userID m} (hv : HLC.valid m.hlc = true) :
      Pushes (.pushMaster userID m) (masterPartition userID) m
  | deleteRow {userID key seen id hlc} (ht : key.table ∈ deletableMasterTables) (hh : hlc ≠ []) :
      Pushes (.deleteMasterRow userID key seen) (masterPartition userID)
        ⟨id, .delete, key.table.name, key.id, ∅, hlc⟩
  | prune {userID itemID seen id hlc} (hh : hlc ≠ []) :
      Pushes (.pruneMasterItem userID itemID seen) (prunePartition userID)
        ⟨id, .delete, Table.name .items, itemID, ∅, hlc⟩

/-- A push has a clock. -/
theorem Pushes.hlc_ne {r : Request} {p : Partition} {m : Mutation} (h : Pushes r p m) : m.hlc ≠ [] := by
  cases h with
  | trip hv => exact fun hn => by rw [hn] at hv; cases hv
  | master hv => exact fun hn => by rw [hn] at hv; cases hv
  | deleteRow _ hh => exact hh
  | prune hh => exact hh

/-- The request is a revert of the entry, in the partition it was pushed to, with these fields. -/
inductive Reverts : Request → Partition → ConflictEntry → Fields → Prop where
  | trip {tripID userID conflictID seen e group} (h : tripConflict tripID conflictID seen = .ok (e, group)) :
      Reverts (.revert tripID userID conflictID seen) (tripPartition tripID userID) e group.1
  | master {userID conflictID seen e group} (h : masterConflict userID conflictID seen = .ok (e, group)) :
      Reverts (.revertMaster userID conflictID seen) (masterPartition userID) e group.1

/-- The authenticated user of a call. -/
def Request.caller : Request → Option String
  | .restart _ | .addUser _ => none
  | .push _ userID _ | .pushMaster userID _ | .revert _ userID _ _ | .revertMaster userID _ _
  | .takeOver _ _ userID | .putTrack _ _ userID _ _ _ | .addIdeaImage _ userID _ _ _
  | .setItemImage userID _ _ | .deleteItemImage userID _ | .deleteMasterRow userID _ _
  | .pruneMasterItem userID _ _ => some userID

theorem Pushes.caller {r : Request} {p : Partition} {m : Mutation} (h : Pushes r p m) :
    r.caller = some p.actorID := by
  cases h <;> rfl

theorem Reverts.caller {r : Request} {p : Partition} {e : ConflictEntry} {fields : Fields}
    (h : Reverts r p e fields) : r.caller = some p.actorID := by
  cases h <;> rfl

/-- The request stamps the photo of an item. -/
inductive Stamps (s : Env) : Request → String → Option String → Prop where
  | set {userID itemID jpeg} : Stamps s (.setItemImage userID itemID jpeg) itemID (some (s.hash jpeg))
  | delete {userID itemID} : Stamps s (.deleteItemImage userID itemID) itemID none

/-- What a request does to the database if it does anything. -/
inductive Effect (s : Env) (g : Generator) (db : Db) : Request → Db → Prop where
  | joined {userID} : Effect s g db (.addUser userID) { db with users := db.users ++ [userID] }
  | applied {r p m res db'} (hr : Pushes r p m) (h : Applied s p m db res db') : Effect s g db r db'
  | reverted {r p e fields db'} (hr : Reverts r p e fields) (h : Restored s p e fields db db') :
      Effect s g db r db'
  | taken {tripID itemID takerID db'} (h : Taken s tripID itemID takerID db db') :
      Effect s g db (.takeOver tripID itemID takerID) db'
  | trackStored {h tripID userID holderID trackID f db'}
      (hs : TrackStored s g h tripID holderID trackID f db db') :
      Effect s g db (.putTrack h tripID userID holderID trackID f) db'
  | imageAdded {tripID userID ideaID imageID jpeg db'}
      (h : ImageAdded s g tripID ideaID imageID (s.hash jpeg) db db') :
      Effect s g db (.addIdeaImage tripID userID ideaID imageID jpeg) db'
  | imageStamped {r itemID hash db'} (hr : Stamps s r itemID hash)
      (h : ImageStamped s g itemID hash db db') : Effect s g db r db'

section
variable {s : Env} {faults : Nat → Option Error} {w : World Db Memory} {α : Type} {x : Proc α}

/-- A write that commits last has failed and done nothing, or has answered. -/
theorem failed_or_answered (hx : Atomic onDisk x) (faults : Nat → Option Error) (w : World Db Memory) :
    (x faults w).2.disk = w.disk ∨ ∃ a, x faults w = (.ok a, (x faults w).2) := by
  rcases hr : x faults w with ⟨e | a, w'⟩
  · exact .inl (hx _ _ _ _ hr)
  · exact .inr ⟨a, rfl⟩

theorem push_cases {m : Mutation} {p : Partition} (hp : p.Hooked)
    (hf : ∀ n, faults n ≠ some .constraint) :
    (push s m p faults w).2.disk = w.disk ∨
    HLC.valid m.hlc = true ∧ ∃ res, Applied s p m w.disk res (push s m p faults w).2.disk := by
  unfold push
  split
  · next hv =>
    rw [bind_pure_world]
    rcases failed_or_answered ((applyMutation_atomic hp).comp Prod.fst) faults w with hd | ⟨res, hr⟩
    · exact .inl hd
    · obtain ⟨db, happ, hdisk, -⟩ := applyMutation_ok hp hf hr
      exact .inr ⟨hv.1, res, hdisk ▸ happ⟩
  · exact .inl rfl

theorem addUser_ok {userID : String} {w' : World Db Memory} {u : Unit}
    (h : addUser userID faults w = (.ok u, w')) :
    w'.disk = { w.disk with users := w.disk.users ++ [userID] } := by
  simp only [addUser, transact_ok, bind_ok, write_ok, commit_ok] at h
  obtain ⟨_, ⟨_, _, ⟨-, db, hdb, rfl⟩, -, rfl⟩, rfl⟩ := h
  split at hdb <;> cases hdb
  rfl

/-- **One call of the server does nothing to the database, or one of the writes of `Effect`.** -/
theorem serve_cases (hf : ∀ n, faults n ≠ some .constraint) (r : Request) :
    (serve s r faults w).2.disk = w.disk ∨
    Effect s w.mem.hlc w.disk r (serve s r faults w).2.disk := by
  cases r with
  | restart deviceID =>
    simp only [serve, bind_pure_world]
    exact .inl rfl
  | addUser userID =>
    simp only [serve, bind_pure_world]
    exact failed_or_answered addUser_atomic faults w |>.imp_right fun ⟨_, hr⟩ => addUser_ok hr ▸ .joined
  | push tripID userID m =>
    exact push_cases tripPartition_hooked hf |>.imp_right fun ⟨hv, _, h⟩ => .applied (.trip hv) h
  | pushMaster userID m =>
    exact push_cases masterPartition_hooked hf |>.imp_right fun ⟨hv, _, h⟩ => .applied (.master hv) h
  | revert tripID userID conflictID seen =>
    simp only [serve, bind_pure_world]
    rcases failed_or_answered revertTripConflict_atomic faults w with hd | ⟨n, hr⟩
    · exact .inl hd
    · unfold revertTripConflict at hr ⊢
      cases hc : tripConflict tripID conflictID seen with
      | error err => simp [hc] at hr
      | ok eg =>
        simp only [hc] at hr ⊢
        exact .inr (.reverted (.trip hc) (applyRevert_ok tripPartition_hooked hr))
  | revertMaster userID conflictID seen =>
    simp only [serve, bind_pure_world]
    rcases failed_or_answered revertMasterConflict_atomic faults w with hd | ⟨n, hr⟩
    · exact .inl hd
    · unfold revertMasterConflict at hr ⊢
      cases hc : masterConflict userID conflictID seen with
      | error err => simp [hc] at hr
      | ok eg =>
        simp only [hc] at hr ⊢
        exact .inr (.reverted (.master hc) (applyRevert_ok masterPartition_hooked hr))
  | takeOver tripID itemID takerID =>
    simp only [serve, bind_pure_world]
    exact failed_or_answered takeOverClaim_atomic faults w |>.imp_right fun ⟨_, hr⟩ =>
      .taken (takeOverClaim_ok hr)
  | putTrack h tripID userID holderID trackID f =>
    simp only [serve, bind_pure_world]
    rcases failed_or_answered putTrack_atomic faults w with hd | ⟨_, hr⟩
    · exact .inl hd
    · exact (putTrack_ok hr).imp_right .trackStored
  | addIdeaImage tripID userID ideaID imageID jpeg =>
    simp only [serve, bind_pure_world]
    rcases failed_or_answered addIdeaImage_atomic faults w with hd | ⟨_, hr⟩
    · exact .inl hd
    · exact (addIdeaImage_ok hr).imp_right .imageAdded
  | setItemImage userID itemID jpeg =>
    simp only [serve, bind_pure_world, setItemImage]
    split
    · exact .inl rfl
    · exact failed_or_answered withImageTx_atomic faults w |>.imp_right fun ⟨_, hr⟩ =>
        .imageStamped .set (withImageTx_ok hr)
  | deleteItemImage userID itemID =>
    simp only [serve, bind_pure_world]
    exact failed_or_answered withImageTx_atomic faults w |>.imp_right fun ⟨_, hr⟩ =>
      .imageStamped .delete (withImageTx_ok hr)
  | deleteMasterRow userID key seen =>
    simp only [serve, bind_pure_world]
    rcases deleteMasterRow_disk with hd | ⟨ht, row, hd⟩
    · exact .inl hd
    · rw [hd]
      exact deleteWithClock_cases masterPartition_hooked hf |>.imp_right fun ⟨_, _, _, hh, h⟩ =>
        .applied (.deleteRow ht hh) h
  | pruneMasterItem userID id seen =>
    simp only [serve, bind_pure_world, pruneMasterItem]
    cases seen.rows.lookup ⟨.items, id⟩ with
    | none => exact .inl rfl
    | some row =>
      simp only [bind_pure_world]
      exact deleteWithClock_cases prunePartition_hooked hf |>.imp_right fun ⟨_, _, _, hh, h⟩ =>
        .applied (.prune hh) h

end

/-- A statement that fails on its own does not fail as a violated constraint. -/
theorem Call.oracle_ne (c : Call) (n : Nat) : c.oracle n ≠ some .constraint := by
  unfold oracle
  split <;> simp

/-- What one step of the server does to the database. -/
theorem step_cases (σ : Server) (c : Call) : (server.step σ c).2.db = σ.db ∨
    Effect c.env σ.hlc σ.db c.request (server.step σ c).2.db :=
  serve_cases c.oracle_ne c.request

end JitPack
