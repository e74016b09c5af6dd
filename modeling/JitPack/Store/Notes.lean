import JitPack.Store.WhoWhen

/-!
# Notes and their threads

A reply names the first note of its thread once, and the words of a note are its author's. The gate
looks at the row before the write and at the mutation: it does not look at the replies when a first
note becomes a task or goes to a packing row, it lets everybody write the words of a task that may
become a note again, it reads a parent and a trip only if they are texts, and a repeated insert of a
note makes the caller its author. `threads_of_orderly` is about the runs without these steps; what it
says about words goes back to the call that wrote them (`Machine.ChangedLast`).
-/

namespace JitPack

/-- A first note of the trip: no packing row, no task, and no reply. -/
structure FirstNote (trip : Value) (row : StoredRow) : Prop where
  trip : row.fields columnTripID = trip
  noItem : row.fields "trip_item_id" = .null
  noTask : row.fields "is_task" = .int 0
  noReply : row.fields "parent_id" = .null

/-- A reply names a first note of its trip, and carries neither a title nor an excursion. -/
structure Reply (db : Db) (row : StoredRow) : Prop where
  parent : ∃ id first, id ≠ "" ∧ row.fields "parent_id" = .str id ∧
    db.rows.lookup ⟨.comments, id⟩ = some first ∧ FirstNote (row.fields columnTripID) first
  title : row.fields "title" = .null
  excursion : row.fields "excursion_id" = .null

/-- Every comment with a parent is a reply. -/
def Threads (db : Db) : Prop := ∀ id row, db.rows.lookup ⟨.comments, id⟩ = some row →
  row.fields "parent_id" ≠ .null → Reply db row

/-- No comment gets another parent. -/
def ParentsKept (db db' : Db) : Prop := ∀ id row row', db.rows.lookup ⟨.comments, id⟩ = some row →
  db'.rows.lookup ⟨.comments, id⟩ = some row' → row'.fields "parent_id" = row.fields "parent_id"

/-- The value of a column of a comment. -/
def Db.word (db : Db) (id f : String) : Option Value :=
  (db.rows.lookup ⟨.comments, id⟩).map (·.fields f)

/-- The comment has lost its excursion, because the excursion is gone. -/
def ExcursionCleared (db db' : Db) (id : String) : Prop := ∃ x,
  db.word id "excursion_id" = some (.str x) ∧ db'.word id "excursion_id" = some .null ∧
  (db.rows.lookup ⟨.excursions, x⟩).isSome ∧ db'.rows.lookup ⟨.excursions, x⟩ = none

/-- The words of the comment come from calls of the user: for each of them the last call that changed
it was one, or it is an excursion that was cleared. -/
def WordsOf (g : Generator) (calls : List Call) (id user : String) : Prop := ∀ f ∈ noteWords, ∃ pre c,
  server.ChangedLast (fun σ => σ.db.word id f) (.fresh g) calls pre c ∧
  (c.request.caller = some user ∨ f = "excursion_id" ∧
    ExcursionCleared (server.after (.fresh g) pre).db (server.after (.fresh g) (pre ++ [c])).db id)

/-- Every note has an author, whose words it has. -/
def NotesSigned (g : Generator) (calls : List Call) : Prop := ∀ id row,
  (server.after (.fresh g) calls).db.rows.lookup ⟨.comments, id⟩ = some row →
  isNote row.fields = true → ∃ user, row.fields "author_id" = .str user ∧ WordsOf g calls id user

/-- The comment has replies. -/
def Db.hasReply (db : Db) (id : String) : Prop := ∃ id' row,
  db.rows.lookup ⟨.comments, id'⟩ = some row ∧ row.fields "parent_id" = .str id

/-- The column of the row holds such a value, or the mutation gives it one. -/
def MayHold (sqlite : Sqlite) (row : String → Value) (m : Mutation) (f : String) (P : Value → Prop) :
    Prop :=
  P (row f) ∨ ∃ v, m.fields.lookup f = some v ∧ P (Db.readBack sqlite .comments f v)

/-- What a mutation of a comment that is there is not to do: to make a task of a comment with replies
or to bring it to a packing row, to move a thread by a trip that is no text, to insert the note of
another author again, and to make a note of a comment whose words are not all the caller's. -/
structure Orderly (g : Generator) (calls : List Call) (sqlite : Sqlite) (p : Partition) (m : Mutation)
    (db : Db) (row : StoredRow) : Prop where
  item : db.hasReply m.id → ∀ v, m.fields.lookup "trip_item_id" = some v → v = .null
  task : db.hasReply m.id → ∀ v, m.fields.lookup "is_task" = some v → sqlite.store .integer v ≠ .int 1
  trip : db.hasReply m.id ∨ row.fields "parent_id" ≠ .null → ∀ v,
    m.fields.lookup columnTripID = some v → v.asString = none →
    sqlite.store .text v = row.fields columnTripID
  author : isNote row.fields = true → m.op = .insert → row.fields "author_id" = .str p.actorID
  made : isNote row.fields = false →
    MayHold sqlite row.fields m "trip_item_id" (fun v => v.asString.getD "" = "") →
    MayHold sqlite row.fields m "is_task" (fun v => v = .int 0) →
    row.fields "author_id" = .str p.actorID ∧ WordsOf g calls m.id p.actorID

/-- A call that is orderly about each comment, and names the parent of a new one by a text. -/
def Call.Orderly (g : Generator) (calls : List Call) (c : Call) (db : Db) : Prop := ∀ p m,
  c.Asks p .comments m → m.op ≠ .delete →
  match db.rows.lookup ⟨.comments, m.id⟩ with
  | none => ∀ v, m.fields.lookup "parent_id" = some v → v = .null ∨ ∃ s, s ≠ "" ∧ v = .str s
  | some row => JitPack.Orderly g calls c.env.sqlite p m db row

/-! ## The gate of a comment -/

/-- What has passed the gate of the comments. `stamped` is what the stamp step has left of the
mutation. -/
structure NotePassed (db : Db) (tripID actorID : String) (stamped m' : Mutation) (row : Row) : Prop where
  thinned : Thinned stamped m'
  trip : row.present = true → row.fields columnTripID = .str tripID
  named : ∀ named, stamped.string columnTripID = some named → named = tripID
  fresh : row.present = false → stamped.string columnTripID = some tripID
  kept : ∀ f ∉ commentFields, m'.fields.lookup f = stamped.fields.lookup f
  parent : row.present = true → m'.fields.lookup "parent_id" = none
  reply : row.present = true → (row.fields "parent_id").asString.getD "" ≠ "" →
    m'.fields.lookup "title" = none ∧ m'.fields.lookup "excursion_id" = none
  words : row.present = true → isNote row.fields = true →
    (∃ f ∈ noteWords, m'.fields.lookup f ≠ none) → (row.fields "author_id").asString.getD "" = actorID
  first : row.present = false → ∀ id, stamped.string "parent_id" = some id → id ≠ "" →
    m'.fields.lookup "title" = none ∧ m'.fields.lookup "excursion_id" = none ∧
      firstNoteOf db tripID id = none

theorem Thinned.none {m m' : Mutation} {f : String} (h : Thinned m m') (hf : m.fields.lookup f = none) :
    m'.fields.lookup f = none := by
  rw [Option.eq_none_iff_forall_ne_some]
  intro v hv
  rw [h.lookup f v hv] at hf
  cases hf

theorem touchesAny_iff {m : Mutation} {names : List String} :
    touchesAny m names = true ↔ ∃ f ∈ names, m.fields.lookup f ≠ none := by
  simp [touchesAny, Option.isSome_iff_ne_none]

/-- The rule of the threads, for a comment that is there. -/
theorem validNoteThread_present {db : Db} {i : GuardInput} {m' : Mutation} (hop : i.m.op ≠ .delete)
    (hp : i.row.present = true) (h : validNoteThread db i = (m', none)) :
    m'.fields.lookup "parent_id" = none ∧
    ((i.row.fields "parent_id").asString.getD "" ≠ "" →
      m'.fields.lookup "title" = none ∧ m'.fields.lookup "excursion_id" = none) ∧
    (isNote i.row.fields = true → (∃ f ∈ noteWords, m'.fields.lookup f ≠ none) →
      (i.row.fields "author_id").asString.getD "" = i.actorID) := by
  unfold validNoteThread at h
  rw [if_neg hop, if_pos hp] at h
  dsimp only at h
  have hparent : (if (i.row.fields "parent_id").asString.getD "" ≠ "" then
      ((i.m.drop "parent_id").drop "title").drop "excursion_id" else
        i.m.drop "parent_id").fields.lookup "parent_id" = none := by
    split <;> simp
  have hreply (hr : (i.row.fields "parent_id").asString.getD "" ≠ "") (f : String)
      (hf : f ∈ ["title", "excursion_id"]) :
      (if (i.row.fields "parent_id").asString.getD "" ≠ "" then
        ((i.m.drop "parent_id").drop "title").drop "excursion_id" else
          i.m.drop "parent_id").fields.lookup f = none := by
    rw [if_pos hr]
    simp only [List.mem_cons, List.not_mem_nil, or_false] at hf
    rcases hf with rfl | rfl <;> simp
  generalize (if (i.row.fields "parent_id").asString.getD "" ≠ "" then
    ((i.m.drop "parent_id").drop "title").drop "excursion_id" else i.m.drop "parent_id") = m at h hparent hreply
  have hnote : Thinned m (if isNote i.row.fields = true then m else m.drop "excursion_id") :=
    .ite (.refl m) (.drop m _)
  have hsame : isNote i.row.fields = true →
      (if isNote i.row.fields = true then m else m.drop "excursion_id") = m := fun hn => if_pos hn
  generalize (if isNote i.row.fields = true then m else m.drop "excursion_id") = m₁ at h hnote hsame
  split at h
  · cases h
  split at h
  · cases h
  next hword =>
  have hthin := noteExcursion_thins hnote db i.tripID i.actorID i.row
  rw [h] at hthin
  refine ⟨hthin.none hparent, fun hr => ⟨hthin.none (hreply hr _ (by simp)),
    hthin.none (hreply hr _ (by simp))⟩, fun hn hwords => ?_⟩
  obtain ⟨f, hf, hnamed⟩ := hwords
  by_contra hauthor
  refine hword ⟨hn, ?_, hauthor⟩
  rw [hsame hn, touchesAny_iff]
  exact ⟨f, hf, fun hnone => hnamed (hthin.none hnone)⟩

/-- The rule of the threads, for a new reply. -/
theorem validNoteThread_fresh {db : Db} {i : GuardInput} {m' : Mutation} (hop : i.m.op ≠ .delete)
    (hp : i.row.present = false) {id : String} (hid : i.m.string "parent_id" = some id) (hne : id ≠ "")
    (h : validNoteThread db i = (m', none)) :
    m'.fields.lookup "title" = none ∧ m'.fields.lookup "excursion_id" = none ∧
      firstNoteOf db i.tripID id = none := by
  unfold validNoteThread at h
  rw [if_neg hop, if_neg (by simp [hp]), hid, Option.getD_some] at h
  split at h
  · contradiction
  dsimp only at h
  split at h
  · cases h
  · obtain ⟨rfl, hfirst⟩ := Prod.mk.inj h
    exact ⟨by simp, by simp, hfirst⟩

/-- What passes the gate of the comments. -/
theorem note_passed {c : Call} {p : Partition} {s : Env} {db : Db} {m m' : Mutation}
    (ha : c.Asks p .comments m) (hg : p.gate s db .comments m = (m', none)) (hop : m.op ≠ .delete) :
    ∃ tripID userID, p = tripPartition tripID userID ∧
      NotePassed db tripID userID (p.stamped s db .comments m) m' (loadRow ⟨.comments, m.id⟩ db) := by
  obtain ⟨tripID, userID, rfl⟩ := ha.trip rfl
  refine ⟨tripID, userID, rfl, ?_⟩
  have hthin := gate_thinned tripPartition_thins hg
  have hop' : ((tripPartition tripID userID).stamped s db .comments m).op ≠ .delete := by
    rw [Partition.stamped, (stampServerOwned_onlyFields ..).op]
    exact hop
  obtain ⟨hbelongs, hg⟩ := trip_gate hg
  obtain ⟨hpresent, hnamed, hfresh⟩ := belongsToTrip_ok hbelongs
  generalize (tripPartition tripID userID).stamped s db .comments m = m₀ at *
  generalize loadRow ⟨.comments, m.id⟩ db = row at *
  have hkept (f : String) (hf : f ∉ commentFields) : m'.fields.lookup f = m₀.fields.lookup f := by
    have := guardFor_comments_keeps hf db ⟨tripID, userID, m₀, row⟩
    rwa [hg] at this
  obtain ⟨m₁, hthread, hrest⟩ : ∃ m₁, validNoteThread db ⟨tripID, userID, m₀, row⟩ = (m₁, none) ∧
      Thinned m₁ m' := by
    rw [guardFor, allOf] at hg
    split at hg
    · cases hg
    · next m₁ hthread =>
      refine ⟨m₁, hthread, ?_⟩
      have hrules : (allOf [validIdeaResult, validEntryStep]).Thins := allOf_thins fun rule hr => by
        simp only [List.mem_cons, List.not_mem_nil, or_false] at hr
        rcases hr with rfl | rfl
        exacts [ownOrDropped_thins _ _, ownOrDropped_thins _ _]
      have hthin := hrules db ⟨tripID, userID, m₁, row⟩
      rwa [hg] at hthin
  refine ⟨hthin, hpresent, hnamed, fun hp => hfresh hp hop', hkept, fun hp => ?_, fun hp hr => ?_,
    fun hp hn hw => ?_, fun hp id hid hne => ?_⟩
  · exact hrest.none (validNoteThread_present hop' hp hthread).1
  · obtain ⟨htitle, hexcursion⟩ := (validNoteThread_present hop' hp hthread).2.1 hr
    exact ⟨hrest.none htitle, hrest.none hexcursion⟩
  · obtain ⟨f, hf, hnamed⟩ := hw
    exact (validNoteThread_present hop' hp hthread).2.2 hn
      ⟨f, hf, fun hnone => hnamed (hrest.none hnone)⟩
  · obtain ⟨htitle, hexcursion, hfirst⟩ := validNoteThread_fresh hop' hp hid hne hthread
    exact ⟨hrest.none htitle, hrest.none hexcursion, hfirst⟩

/-! ## Writes -/

section
variable {c : Call} {p : Partition} {s : Env} {db db' db₁ : Db} {m m' : Mutation} {id : String}
variable {key : Key} {applied : Fields} {hlc : HLC} {clocks : FieldClocks} {f : String} {rows : Rows}
variable {g : Generator} {calls : List Call} {user : String}

/-- The author of a comment is stamped when it is inserted, and can be named by nobody. -/
theorem stamped_author (m : Mutation) (row : Row) (actor : String) (now : Now) :
    (stampServerOwned .comments m row actor now).fields.lookup "author_id" =
      if m.op = .insert then some (.str actor) else none := by
  have hop : (commentOwned.columns.foldl Mutation.drop m).op = m.op := (OnlyFields.drops m _).op
  unfold stampServerOwned
  change (stampRecord _ ⟨"resolved_by_user_id", "resolved_at"⟩ _ _ ((stampedOnInsert "author_id").stamp _
    (commentOwned.columns.foldl Mutation.drop m))).fields.lookup "author_id" = _
  rw [lookup_stampRecord, if_neg (by simp), if_neg (by simp)]
  simp only [stampedOnInsert, hop]
  split
  · rw [lookup_set, if_pos rfl]
  · rw [lookup_drops, if_pos (by decide)]

theorem stamped_note_string (p : Partition) (s : Env) (db : Db) (m : Mutation)
    (hf : f ∉ commentOwned.columns) : (p.stamped s db .comments m).string f = m.string f := by
  rw [Mutation.string, Mutation.get, Partition.stamped, stampServerOwned_lookup .comments m _ _ _ hf]
  rfl

theorem string_of_lookup {v : Value} (h : m.fields.lookup f = some v) : m.string f = v.asString := by
  rw [Mutation.string, Mutation.get, h]
  rfl

/-- What was asked for about a comment has passed its gate. -/
theorem Asked.note (ha : Asked c db ⟨.comments, id⟩ applied p m m') : ∃ tripID userID,
    p = tripPartition tripID userID ∧ m.op ≠ .delete ∧
    NotePassed db tripID userID (p.stamped c.env db .comments m) m' (loadRow ⟨.comments, id⟩ db) := by
  obtain ⟨db₁, hn, hg⟩ := ha.gate
  have hop : m.op ≠ .delete := by
    obtain ⟨tripID, userID, rfl⟩ := ha.asks.trip rfl
    rw [← (gate_onlyFields tripPartition_thins hg).op]
    exact ha.op (by simp [lifecycleTables])
  obtain ⟨tripID, userID, hp, hpassed⟩ := note_passed ha.asks hg hop
  refine ⟨tripID, userID, hp, hop, ?_⟩
  have hfirst (tripID id : String) : firstNoteOf db₁ tripID id = firstNoteOf db tripID id := by
    unfold firstNoteOf
    rw [hn.rows]
  rw [Partition.stamped, loadRow_congr hn.rows, ha.id] at hpassed
  rw [Partition.stamped, ha.id]
  exact ⟨hpassed.thinned, hpassed.trip, hpassed.named, hpassed.fresh, hpassed.kept, hpassed.parent,
    hpassed.reply, hpassed.words, fun hp id hid hne => hfirst tripID id ▸ hpassed.first hp id hid hne⟩

/-- What is written to a comment was named by the mutation, its author apart. -/
theorem Asked.note_named (ha : Asked c db ⟨.comments, id⟩ applied p m m')
    (hf : f ∉ commentOwned.columns) (hne : f ≠ "retired_at") {v : Value} (hv : applied.lookup f = some v) :
    m.fields.lookup f = some v := by
  obtain ⟨tripID, userID, rfl, -, hpassed⟩ := ha.note
  rw [← stampServerOwned_lookup .comments m _ _ _ hf]
  exact hpassed.thinned.lookup f v (ha.fields f v hne hv).2

/-- A column of a comment that is written holds what the mutation names, as it is stored. -/
theorem Asked.note_written (ha : Asked c db ⟨.comments, id⟩ applied p m m')
    (hf : f ∉ commentOwned.columns) (hne : f ≠ "retired_at") :
    applied.lookup f = none ∧
      db.written c.env ⟨.comments, id⟩ applied f = db.base c.env.sqlNow ⟨.comments, id⟩ f ∨
    ∃ v, applied.lookup f = some v ∧ m.fields.lookup f = some v ∧ m'.fields.lookup f = some v ∧
      db.written c.env ⟨.comments, id⟩ applied f = Db.readBack c.env.sqlite .comments f v := by
  rcases Db.written_cases c.env ⟨.comments, id⟩ applied db f with h | ⟨v, hv, hw⟩
  · exact .inl h
  · exact .inr ⟨v, hv, ha.note_named hf hne hv, (ha.fields f v hne hv).2, hw⟩

/-- A new comment is of the trip it was pushed to, and of its caller. -/
theorem Asked.note_fresh (ha : Asked c db ⟨.comments, id⟩ applied p m m')
    (put : Put c.env ⟨.comments, id⟩ applied hlc clocks db rows)
    (hfresh : db.rows.lookup ⟨.comments, id⟩ = none) :
    ∃ tripID userID, p = tripPartition tripID userID ∧
      db.written c.env ⟨.comments, id⟩ applied columnTripID = .str tripID ∧
      db.written c.env ⟨.comments, id⟩ applied "author_id" = .str userID := by
  obtain ⟨tripID, userID, rfl, -, hpassed⟩ := ha.note
  have hp : (loadRow ⟨.comments, id⟩ db).present = false := by simp [loadRow, hfresh]
  refine ⟨tripID, userID, rfl, ?_, ?_⟩
  · have hnull : db.written c.env ⟨.comments, id⟩ applied columnTripID ≠ .null :=
      Db.allows_notNull put.allows rfl rfl
    rcases ha.note_written (f := columnTripID) (by decide) (by decide) with ⟨-, hbase⟩ | ⟨v, -, hm, -, hw⟩
    · rw [hbase, Db.base_of_absent hfresh] at hnull
      exact absurd rfl hnull
    · have hnamed := hpassed.fresh hp
      rw [stamped_note_string _ _ _ _ (by decide), string_of_lookup hm] at hnamed
      obtain rfl : v = .str tripID := by
        cases v <;> simp [Value.asString] at hnamed
        rw [hnamed]
      exact hw
  · have hnull : db.written c.env ⟨.comments, id⟩ applied "author_id" ≠ .null :=
      Db.allows_notNull put.allows rfl rfl
    rcases Db.written_cases c.env ⟨.comments, id⟩ applied db "author_id" with ⟨-, hbase⟩ | ⟨v, hv, hw⟩
    · rw [hbase, Db.base_of_absent hfresh] at hnull
      exact absurd rfl hnull
    · have hstamped := hpassed.thinned.lookup _ v (ha.fields _ v (by decide) hv).2
      rw [Partition.stamped, stamped_author] at hstamped
      split at hstamped
      · cases hstamped
        exact hw
      · cases hstamped

/-- A comment that is there keeps its parent. -/
theorem Asked.note_parent (ha : Asked c db ⟨.comments, id⟩ applied p m m') {row : StoredRow}
    (hrow : db.rows.lookup ⟨.comments, id⟩ = some row) :
    db.written c.env ⟨.comments, id⟩ applied "parent_id" = row.fields "parent_id" := by
  obtain ⟨tripID, userID, rfl, -, hpassed⟩ := ha.note
  rcases ha.note_written (f := "parent_id") (by decide) (by decide) with
    ⟨-, hbase⟩ | ⟨v, -, -, hm', -⟩
  · rw [hbase, Db.base_of_lookup hrow]
  · rw [hpassed.parent (by rw [loadRow_of_lookup hrow])] at hm'
    cases hm'

/-- A comment of a thread stays in its trip. -/
theorem Asked.note_trip (ha : Asked c db ⟨.comments, id⟩ applied p m m') {row : StoredRow}
    (hrow : db.rows.lookup ⟨.comments, id⟩ = some row)
    (hc : ∀ v, m.fields.lookup columnTripID = some v → v.asString = none →
      c.env.sqlite.store .text v = row.fields columnTripID) :
    db.written c.env ⟨.comments, id⟩ applied columnTripID = row.fields columnTripID := by
  obtain ⟨tripID, userID, rfl, -, hpassed⟩ := ha.note
  rcases ha.note_written (f := columnTripID) (by decide) (by decide) with
    ⟨-, hbase⟩ | ⟨v, -, hm, -, hw⟩
  · rw [hbase, Db.base_of_lookup hrow]
  · rw [hw]
    have htrip := hpassed.trip (by rw [loadRow_of_lookup hrow])
    rw [loadRow_of_lookup hrow] at htrip
    cases hv : v.asString with
    | none => exact hc v hm hv
    | some named =>
      have hnamed := hpassed.named named (by
        rw [stamped_note_string _ _ _ _ (by decide), string_of_lookup hm, hv])
      obtain rfl : v = .str named := by
        cases v <;> simp [Value.asString] at hv
        rw [hv]
      exact (congrArg Value.str hnamed).trans htrip.symm

/-- A reply keeps out of its title and its excursion. -/
theorem Asked.note_reply (ha : Asked c db ⟨.comments, id⟩ applied p m m') {row : StoredRow}
    (hrow : db.rows.lookup ⟨.comments, id⟩ = some row) (hreply : Reply db row) :
    db.written c.env ⟨.comments, id⟩ applied "title" = .null ∧
      db.written c.env ⟨.comments, id⟩ applied "excursion_id" = .null := by
  obtain ⟨tripID, userID, rfl, -, hpassed⟩ := ha.note
  obtain ⟨first, -, hne, hparent, -⟩ := hreply.parent
  have hdropped := hpassed.reply (by rw [loadRow_of_lookup hrow]) (by
    rw [loadRow_of_lookup hrow]
    simpa [hparent, Value.asString] using hne)
  constructor
  · rcases ha.note_written (f := "title") (by decide) (by decide) with ⟨-, hbase⟩ | ⟨v, -, -, hm', -⟩
    · rw [hbase, Db.base_of_lookup hrow, hreply.title]
    · rw [hdropped.1] at hm'
      cases hm'
  · rcases ha.note_written (f := "excursion_id") (by decide) (by decide) with
      ⟨-, hbase⟩ | ⟨v, -, -, hm', -⟩
    · rw [hbase, Db.base_of_lookup hrow, hreply.excursion]
    · rw [hdropped.2] at hm'
      cases hm'

theorem firstNoteOf_none {tripID : String} (h : firstNoteOf db tripID id = none) : ∃ first,
    db.rows.lookup ⟨.comments, id⟩ = some first ∧ FirstNote (.str tripID) first := by
  unfold firstNoteOf at h
  split at h
  · cases h
  next first hfirst =>
  split at h
  · cases h
  next hno =>
  simp only [ne_eq, not_or, not_not] at hno
  exact ⟨first, hfirst, hno.1, hno.2.1, hno.2.2.1, hno.2.2.2⟩

/-- A new reply names a first note of its trip. -/
theorem Asked.fresh_reply (ha : Asked c db ⟨.comments, id⟩ applied p m m')
    (put : Put c.env ⟨.comments, id⟩ applied hlc clocks db rows)
    (hfresh : db.rows.lookup ⟨.comments, id⟩ = none)
    (hc : ∀ v, m.fields.lookup "parent_id" = some v → v = .null ∨ ∃ s, s ≠ "" ∧ v = .str s)
    (hparent : db.written c.env ⟨.comments, id⟩ applied "parent_id" ≠ .null) :
    Reply db ⟨db.written c.env ⟨.comments, id⟩ applied, hlc, clocks⟩ := by
  obtain ⟨tripID, userID, rfl, htrip, -⟩ := ha.note_fresh put hfresh
  obtain ⟨tripID', userID', hp, hop, hpassed⟩ := ha.note
  cases hp
  have hpresent : (loadRow ⟨.comments, id⟩ db).present = false := by simp [loadRow, hfresh]
  rcases ha.note_written (f := "parent_id") (by decide) (by decide) with
    ⟨-, hbase⟩ | ⟨v, -, hm, -, hw⟩
  · rw [hbase, Db.base_of_absent hfresh] at hparent
    exact absurd rfl hparent
  rcases hc v hm with rfl | ⟨first, hne, rfl⟩
  · exact absurd hw hparent
  obtain ⟨htitle, hexcursion, hfirst⟩ := hpassed.first hpresent first (by
    rw [stamped_note_string _ _ _ _ (by decide), string_of_lookup hm]
    rfl) hne
  obtain ⟨row, hrow, hnote⟩ := firstNoteOf_none hfirst
  have hnull {f : String} (hf : m'.fields.lookup f = none) (hdef : Db.defaultOf c.env.sqlNow .comments f = .null)
      (hown : f ∉ commentOwned.columns) (hret : f ≠ "retired_at") :
      db.written c.env ⟨.comments, id⟩ applied f = .null := by
    rcases ha.note_written hown hret with ⟨-, hbase⟩ | ⟨v, -, -, hm', -⟩
    · rw [hbase, Db.base_of_absent hfresh]
      exact hdef
    · rw [hf] at hm'
      cases hm'
  refine ⟨⟨first, row, hne, hw, hrow, ?_⟩, hnull htitle rfl (by decide) (by decide),
    hnull hexcursion rfl (by decide) (by decide)⟩
  change FirstNote (db.written c.env ⟨.comments, id⟩ applied columnTripID) row
  rwa [htrip]

/-- A first note with replies stays one. -/
theorem Asked.note_first (ha : Asked c db ⟨.comments, id⟩ applied p m m')
    (put : Put c.env ⟨.comments, id⟩ applied hlc clocks db rows) {row : StoredRow}
    (hrow : db.rows.lookup ⟨.comments, id⟩ = some row)
    (hc : Orderly g calls c.env.sqlite p m db row) (hreply : db.hasReply id) {trip : Value}
    (hfirst : FirstNote trip row) :
    FirstNote trip ⟨db.written c.env ⟨.comments, id⟩ applied, hlc, clocks⟩ := by
  have hreply : db.hasReply m.id := ha.id ▸ hreply
  refine ⟨?_, ?_, ?_, (ha.note_parent hrow).trans hfirst.noReply⟩
  · exact (ha.note_trip hrow (hc.trip (.inl hreply))).trans hfirst.trip
  · rcases ha.note_written (f := "trip_item_id") (by decide) (by decide) with
      ⟨-, hbase⟩ | ⟨v, -, hm, -, hw⟩
    · exact hbase.trans ((congrFun (Db.base_of_lookup hrow) _).trans hfirst.noItem)
    · rw [hc.item hreply v hm] at hw
      exact hw
  · rcases ha.note_written (f := "is_task") (by decide) (by decide) with
      ⟨-, hbase⟩ | ⟨v, -, hm, -, hw⟩
    · exact hbase.trans ((congrFun (Db.base_of_lookup hrow) _).trans hfirst.noTask)
    · have hflag := Db.allows_check put.allows (show Check.flag "is_task" ∈ _ by simp [Table.checks])
      have hnull : db.written c.env ⟨.comments, id⟩ applied "is_task" ≠ .null :=
        Db.allows_notNull put.allows rfl rfl
      have hone : db.written c.env ⟨.comments, id⟩ applied "is_task" ≠ .int 1 := by
        rw [hw]
        exact hc.task hreply v hm
      simpa [Check.flag, hnull, hone] using hflag

/-- What was asked for about a comment keeps the threads. -/
theorem Threads.asked (hdb : Threads db) (ha : Asked c db ⟨.comments, id⟩ applied p m m')
    (hc : c.Orderly g calls db) (put : Put c.env ⟨.comments, id⟩ applied hlc clocks db db'.rows) :
    Threads db' := by
  have horderly := hc p m ha.asks ha.note.choose_spec.choose_spec.2.1
  rw [ha.id] at horderly
  intro k row' hrow' hparent
  rw [put.lookup] at hrow'
  split at hrow'
  · next hk =>
    cases hk
    cases hrow'
    cases hrow : db.rows.lookup ⟨.comments, id⟩ with
    | none =>
      rw [hrow] at horderly
      obtain ⟨⟨pid, first, hne, hpid, hfirst, hnote⟩, htitle, hexcursion⟩ :=
        ha.fresh_reply put hrow horderly hparent
      refine ⟨⟨pid, first, hne, hpid, ?_, hnote⟩, htitle, hexcursion⟩
      rw [put.lookup, if_neg]
      · exact hfirst
      · intro hsame
        rw [hsame, hrow] at hfirst
        cases hfirst
    | some row =>
      rw [hrow] at horderly
      have hkept := ha.note_parent hrow
      have hold : row.fields "parent_id" ≠ .null := fun hnull => hparent (hkept.trans hnull)
      have hreply := hdb _ row hrow hold
      obtain ⟨pid, first, hne, hpid, hfirst, hnote⟩ := hreply.parent
      obtain ⟨htitle, hexcursion⟩ := ha.note_reply hrow hreply
      refine ⟨⟨pid, first, hne, hkept.trans hpid, ?_, ?_⟩, htitle, hexcursion⟩
      · rw [put.lookup, if_neg]
        · exact hfirst
        · intro hsame
          rw [hsame, hrow] at hfirst
          cases hfirst
          exact hold hnote.noReply
      · change FirstNote (db.written c.env ⟨.comments, id⟩ applied columnTripID) first
        rwa [ha.note_trip hrow (horderly.trip (.inr hold))]
  · obtain ⟨⟨pid, first, hne, hpid, hfirst, hnote⟩, htitle, hexcursion⟩ := hdb k row' hrow' hparent
    by_cases hk : pid = id
    · subst hk
      rw [hfirst] at horderly
      refine ⟨⟨pid, _, hne, hpid, by rw [put.lookup, if_pos rfl],
        ha.note_first put hfirst horderly ⟨k, row', hrow', hpid⟩ hnote⟩, htitle, hexcursion⟩
    · refine ⟨⟨pid, first, hne, hpid, ?_, hnote⟩, htitle, hexcursion⟩
      rw [put.lookup, if_neg (by simpa using hk)]
      exact hfirst

/-! ## Comments that a call leaves -/

/-- A comment that a call leaves alone, references that it clears apart. -/
structure NoteLeft (db db' : Db) (row row' : StoredRow) : Prop where
  kept : ∀ f, (∀ t, Table.refers .comments f ≠ some (t, .setNull)) → row'.fields f = row.fields f
  excursion : row'.fields "excursion_id" = row.fields "excursion_id" ∨
    row'.fields "excursion_id" = .null ∧ ∃ x, row.fields "excursion_id" = .str x ∧
      (db.rows.lookup ⟨.excursions, x⟩).isSome ∧ db'.rows.lookup ⟨.excursions, x⟩ = none

/-- The call writes no comment. -/
def NotesLeft (db db' : Db) : Prop := ∀ id row', db'.rows.lookup ⟨.comments, id⟩ = some row' →
  ∃ row, db.rows.lookup ⟨.comments, id⟩ = some row ∧ NoteLeft db db' row row'

theorem notesLeft_of_put (put : Put s key applied hlc clocks db db'.rows) (hkey : key.table ≠ .comments) :
    NotesLeft db db' := by
  intro id row' hrow'
  rw [put.lookup, if_neg (by rintro rfl; exact hkey rfl)] at hrow'
  exact ⟨row', hrow', fun _ _ => rfl, .inl rfl⟩

theorem NotesLeft.of_rows (h : db'.rows = db.rows) : NotesLeft db db' :=
  fun _ row' hrow' => ⟨row', h ▸ hrow', fun _ _ => rfl, .inl rfl⟩

theorem notesLeft_of_deleteRow (hdb : db.RefsHold) (hkey : (db.rows.lookup key).isSome)
    (h : Db.deleteRow key db = .ok db₁) (hrows : db'.rows = db₁.rows) : NotesLeft db db' := by
  intro id row' hrow'
  obtain ⟨row, hrow, -, rfl⟩ := Db.deleteRow_left hkey h (hrows ▸ hrow')
  refine ⟨row, hrow, fun f hf => ?_, ?_⟩
  · rcases Db.forget_cases (db.removed key) .comments row.fields f with hsame | ⟨t, x, href, -⟩
    · exact hsame
    · exact absurd href (hf t)
  · rcases Db.forget_cases (db.removed key) .comments row.fields "excursion_id" with
      hsame | ⟨t, x, href, hv, hgone, hnull⟩
    · exact .inl hsame
    · cases href
      refine .inr ⟨hnull, x, hv, ?_, ?_⟩
      · have hnamed := hdb _ row hrow "excursion_id" .excursions .setNull rfl
        rw [hv] at hnamed
        obtain ⟨y, hy, hthere⟩ := hnamed.resolve_left nofun
        cases hy
        exact hthere
      · rw [hrows, Db.deleteRow_gone hkey h]
        exact .inr hgone

/-- A call that writes no comment keeps the threads: a reply does not outlive its first note. -/
theorem Threads.left (hdb : Threads db) (hrefs : db'.RefsHold) (h : NotesLeft db db') : Threads db' := by
  intro id row' hrow' hparent
  obtain ⟨row, hrow, hleft⟩ := h id row' hrow'
  have hkept := hleft.kept "parent_id" (by decide)
  obtain ⟨⟨pid, first, hne, hpid, hfirst, hnote⟩, htitle, hexcursion⟩ := hdb id row hrow (hkept ▸ hparent)
  have hthere := hrefs _ row' hrow' "parent_id" .comments .cascade rfl
  rw [hkept, hpid] at hthere
  obtain ⟨x, hx, hsome⟩ := hthere.resolve_left nofun
  cases hx
  obtain ⟨first', hfirst'⟩ := Option.isSome_iff_exists.1 hsome
  obtain ⟨old, hold, hfleft⟩ := h pid first' hfirst'
  rw [hfirst] at hold
  cases hold
  refine ⟨⟨pid, first', hne, hkept.trans hpid, hfirst', ?_, ?_, ?_, ?_⟩, ?_, ?_⟩
  · exact (hfleft.kept _ (by decide)).trans (hnote.trip.trans (hleft.kept _ (by decide)).symm)
  · exact (hfleft.kept _ (by decide)).trans hnote.noItem
  · exact (hfleft.kept _ (by decide)).trans hnote.noTask
  · exact (hfleft.kept _ (by decide)).trans hnote.noReply
  · exact (hleft.kept _ (by decide)).trans htitle
  · exact hleft.excursion.elim (fun hsame => hsame.trans hexcursion) And.left

/-- What a call does to the comments: it writes none, or the one it asks for. -/
inductive NoteStep (c : Call) (db db' : Db) : Prop where
  | left (left : NotesLeft db db')
  | written {id : String} {applied : Fields} {p : Partition} {m m' : Mutation} {hlc : HLC}
      {clocks : FieldClocks} (asked : Asked c db ⟨.comments, id⟩ applied p m m')
      (caller : c.request.caller = some p.actorID)
      (put : Put c.env ⟨.comments, id⟩ applied hlc clocks db db'.rows)

theorem NoteStep.asked {t : Table} (ha : Asked c db ⟨t, id⟩ applied p m m')
    (hcaller : c.request.caller = some p.actorID)
    (put : Put c.env ⟨t, id⟩ applied hlc clocks db db'.rows) : NoteStep c db db' := by
  by_cases ht : t = .comments
  · subst ht
    exact .written ha hcaller put
  · exact .left (notesLeft_of_put put ht)

theorem Alters.noteStep (hdb : db.RefsHold) (h : Alters c db db'.rows) : NoteStep c db db' := by
  generalize hrows : db'.rows = rows at h
  have hup {t : Table} (ht : t ∈ uploadTables) : t ≠ .comments := by
    rintro rfl
    exact absurd ht (by decide)
  cases h with
  | nothing => exact .left (.of_rows hrows)
  | deleted hr valid gate hop present delete =>
    obtain ⟨row, hrow, -⟩ := loadRow_of_present present
    exact .left (notesLeft_of_deleteRow hdb (by rw [hrow]; rfl) delete hrows)
  | pushed hr valid how hop put old => exact .asked (how.asked hr valid hop _) hr.caller (hrows ▸ put)
  | founded hr valid gate hop fresh put absent owner =>
    refine .left fun n row' hrow' => ⟨row', ?_, fun _ _ => rfl, .inl rfl⟩
    rwa [hrows, owner.lookup, if_neg (by simp), put.lookup, if_neg (by simp)] at hrow'
  | restored hr valid noted present gate put =>
    exact .asked (hr.asked valid noted gate _) hr.caller (hrows ▸ put)
  | taken hr present put => exact .left (notesLeft_of_put (hrows ▸ put) (by simp))
  | attached ht absent own fields put => exact .left (notesLeft_of_put (hrows ▸ put) (hup ht))
  | stamped ht present fields put => exact .left (notesLeft_of_put (hrows ▸ put) (hup ht))

/-- A call that is orderly keeps the threads. -/
theorem NoteStep.threads (h : NoteStep c db db') (hrefs : db'.RefsHold) (hc : c.Orderly g calls db)
    (hdb : Threads db) : Threads db' := by
  cases h with
  | left left => exact hdb.left hrefs left
  | written asked caller put => exact hdb.asked asked hc put

/-- No call moves a comment to another thread. -/
theorem NoteStep.parentsKept (h : NoteStep c db db') : ParentsKept db db' := by
  intro k row row' hrow hrow'
  cases h with
  | left left =>
    obtain ⟨old, hold, hleft⟩ := left k row' hrow'
    rw [hrow] at hold
    cases hold
    exact hleft.kept _ (by decide)
  | written asked caller put =>
    rw [put.lookup] at hrow'
    split at hrow'
    · next hk =>
      cases hk
      cases hrow'
      exact asked.note_parent hrow
    · rw [hrow] at hrow'
      cases hrow'
      rfl

/-! ## Words -/

theorem isNote_congr {fields fields' : String → Value}
    (hitem : fields' "trip_item_id" = fields "trip_item_id") (htask : fields' "is_task" = fields "is_task") :
    isNote fields' = isNote fields := by
  unfold isNote
  rw [hitem, htask]

/-- What a call does to the words of a comment that the user has written. -/
def WordsStep (caller : Option String) (db db' : Db) (id user : String) : Prop := ∀ f ∈ noteWords,
  db'.word id f = db.word id f ∨ caller = some user ∨
    f = "excursion_id" ∧ ExcursionCleared db db' id

theorem WordsOf.append (h : WordsOf g calls id user)
    (hstep : WordsStep c.request.caller (server.after (.fresh g) calls).db
      (server.after (.fresh g) (calls ++ [c])).db id user) : WordsOf g (calls ++ [c]) id user := by
  intro f hf
  by_cases hsame : (server.after (.fresh g) (calls ++ [c])).db.word id f =
      (server.after (.fresh g) calls).db.word id f
  · obtain ⟨pre, c', hlast, hby⟩ := h f hf
    exact ⟨pre, c', hlast.append hsame, hby⟩
  · exact ⟨calls, c, Machine.changedLast_of_ne hsame, (hstep f hf).resolve_left hsame⟩

/-- A comment that a call leaves alone keeps its words, or loses its excursion. -/
theorem NoteLeft.words {row row' : StoredRow} (h : NoteLeft db db' row row')
    (hrow : db.rows.lookup ⟨.comments, id⟩ = some row)
    (hrow' : db'.rows.lookup ⟨.comments, id⟩ = some row') (caller : Option String) :
    WordsStep caller db db' id user := by
  intro f hf
  have hword (db : Db) (row : StoredRow) (hrow : db.rows.lookup ⟨.comments, id⟩ = some row) (f : String) :
      db.word id f = some (row.fields f) := by rw [Db.word, hrow, Option.map_some]
  simp only [noteWords, List.mem_cons, List.not_mem_nil, or_false] at hf
  rcases hf with rfl | rfl | rfl | rfl
  · refine .inl ?_
    rw [hword db row hrow, hword db' row' hrow', h.kept _ (by decide)]
  · refine .inl ?_
    rw [hword db row hrow, hword db' row' hrow', h.kept _ (by decide)]
  · refine .inl ?_
    rw [hword db row hrow, hword db' row' hrow', h.kept _ (by decide)]
  · rcases h.excursion with hsame | ⟨hnull, x, hx, hthere, hgone⟩
    · refine .inl ?_
      rw [hword db row hrow, hword db' row' hrow', hsame]
    · exact .inr (.inr ⟨rfl, x, by rw [hword db row hrow, hx], by rw [hword db' row' hrow', hnull], hthere,
        hgone⟩)

/-- A comment that is there keeps its author, if no other user inserts it again. -/
theorem Asked.note_author (ha : Asked c db ⟨.comments, id⟩ applied p m m') {row : StoredRow}
    (hrow : db.rows.lookup ⟨.comments, id⟩ = some row)
    (hc : m.op = .insert → row.fields "author_id" = .str p.actorID) :
    db.written c.env ⟨.comments, id⟩ applied "author_id" = row.fields "author_id" := by
  rcases Db.written_cases c.env ⟨.comments, id⟩ applied db "author_id" with ⟨-, hbase⟩ | ⟨v, hv, hw⟩
  · rw [hbase, Db.base_of_lookup hrow]
  · obtain ⟨tripID, userID, rfl, -, hpassed⟩ := ha.note
    have hstamped := hpassed.thinned.lookup _ v (ha.fields _ v (by decide) hv).2
    rw [Partition.stamped, stamped_author] at hstamped
    split at hstamped
    · next hi =>
      cases hstamped
      exact hw.trans (hc hi).symm
    · cases hstamped

/-- A write of a note comes from its author, or leaves its words. -/
theorem Asked.note_words (ha : Asked c db ⟨.comments, id⟩ applied p m m') {row : StoredRow}
    (hrow : db.rows.lookup ⟨.comments, id⟩ = some row) (hnote : isNote row.fields = true)
    (hauthor : row.fields "author_id" = .str user) (hf : f ∈ noteWords) :
    db.written c.env ⟨.comments, id⟩ applied f = row.fields f ∨ p.actorID = user := by
  have hown : f ∉ commentOwned.columns ∧ f ≠ "retired_at" := by
    revert f
    decide
  obtain ⟨tripID, userID, rfl, -, hpassed⟩ := ha.note
  rcases ha.note_written hown.1 hown.2 with ⟨-, hbase⟩ | ⟨v, -, -, hm', -⟩
  · exact .inl (by rw [hbase, Db.base_of_lookup hrow])
  · have hactor := hpassed.words (by rw [loadRow_of_lookup hrow]) (by rw [loadRow_of_lookup hrow]; exact hnote)
      ⟨f, hf, by rw [hm']; simp⟩
    rw [loadRow_of_lookup hrow] at hactor
    have hsame : user = userID := by simpa [hauthor, Value.asString] using hactor
    exact .inr hsame.symm

/-- What makes a note of a comment: a row of the list and a task are what it was or what the mutation
names. -/
theorem Asked.note_made (ha : Asked c db ⟨.comments, id⟩ applied p m m')
    (put : Put c.env ⟨.comments, id⟩ applied hlc clocks db rows) {row : StoredRow}
    (hrow : db.rows.lookup ⟨.comments, id⟩ = some row)
    (hnote : isNote (db.written c.env ⟨.comments, id⟩ applied) = true) :
    MayHold c.env.sqlite row.fields m "trip_item_id" (fun v => v.asString.getD "" = "") ∧
    MayHold c.env.sqlite row.fields m "is_task" (fun v => v = .int 0) := by
  simp only [isNote, Bool.and_eq_true, decide_eq_true_eq, Bool.not_eq_true'] at hnote
  constructor
  · rcases ha.note_written (f := "trip_item_id") (by decide) (by decide) with
      ⟨-, hbase⟩ | ⟨v, -, hm, -, hw⟩
    · rw [hbase, Db.base_of_lookup hrow] at hnote
      exact .inl hnote.1
    · rw [hw] at hnote
      exact .inr ⟨v, hm, hnote.1⟩
  · have hzero : db.written c.env ⟨.comments, id⟩ applied "is_task" = .int 0 := by
      have hflag := Db.allows_check put.allows (show Check.flag "is_task" ∈ _ by simp [Table.checks])
      have hnull : db.written c.env ⟨.comments, id⟩ applied "is_task" ≠ .null :=
        Db.allows_notNull put.allows rfl rfl
      have hone : db.written c.env ⟨.comments, id⟩ applied "is_task" ≠ .int 1 := by
        intro hone
        rw [hone] at hnote
        exact absurd hnote.2 (by decide)
      simpa [Check.flag, hnull, hone] using hflag
    rcases ha.note_written (f := "is_task") (by decide) (by decide) with
      ⟨-, hbase⟩ | ⟨v, -, hm, -, hw⟩
    · rw [hbase, Db.base_of_lookup hrow] at hzero
      exact .inl hzero
    · exact .inr ⟨v, hm, hw.symm.trans hzero⟩

/-- An orderly call leaves every note with the words of its author. -/
theorem NotesSigned.append (hs : NotesSigned g calls)
    (h : NoteStep c (server.after (.fresh g) calls).db (server.after (.fresh g) (calls ++ [c])).db)
    (hc : c.Orderly g calls (server.after (.fresh g) calls).db) : NotesSigned g (calls ++ [c]) := by
  intro n row' hrow' hnote
  cases h with
  | left left =>
    obtain ⟨row, hrow, hleft⟩ := left n row' hrow'
    have hold : isNote row.fields = true := by
      rw [← isNote_congr (hleft.kept "trip_item_id" (by decide)) (hleft.kept "is_task" (by decide))]
      exact hnote
    obtain ⟨user, hauthor, hwords⟩ := hs n row hrow hold
    exact ⟨user, (hleft.kept _ (by decide)).trans hauthor, hwords.append (hleft.words hrow hrow' _)⟩
  | @written id applied p m m' hlc clocks asked caller put =>
    have hlookup := put.lookup ⟨.comments, n⟩
    rw [hrow'] at hlookup
    split at hlookup
    · next hk =>
      cases hk
      cases hlookup
      cases hrow : (server.after (.fresh g) calls).db.rows.lookup ⟨.comments, n⟩ with
      | none =>
        obtain ⟨tripID, userID, rfl, -, hauthor⟩ := asked.note_fresh put hrow
        refine ⟨userID, hauthor, fun f hf => ⟨calls, c, Machine.changedLast_of_ne ?_, .inl caller⟩⟩
        simp [Db.word, hrow, hrow']
      | some row =>
        have horderly := hc p m asked.asks asked.note.choose_spec.choose_spec.2.1
        rw [asked.id, hrow] at horderly
        have hword (f : String) : (server.after (.fresh g) (calls ++ [c])).db.word n f =
            some ((server.after (.fresh g) calls).db.written c.env ⟨.comments, n⟩ applied f) := by
          rw [Db.word, hrow', Option.map_some]
        cases hold : isNote row.fields with
        | true =>
          obtain ⟨user, hauthor, hwords⟩ := hs n row hrow hold
          refine ⟨user, (asked.note_author hrow (horderly.author hold)).trans hauthor, hwords.append ?_⟩
          intro f hf
          refine (asked.note_words hrow hold hauthor hf).imp (fun hsame => ?_) fun hactor => .inl ?_
          · rw [hword, Db.word, hrow, Option.map_some, hsame]
          · rw [caller, hactor]
        | false =>
          obtain ⟨hitem, htask⟩ := asked.note_made put hrow hnote
          obtain ⟨hauthor, hwords⟩ := horderly.made hold hitem htask
          rw [asked.id] at hwords
          exact ⟨p.actorID, (asked.note_author hrow fun _ => hauthor).trans hauthor,
            hwords.append fun f _ => .inr (.inl caller)⟩
    · next hk =>
      have hrow : (server.after (.fresh g) calls).db.rows.lookup ⟨.comments, n⟩ = some row' := hlookup.symm
      obtain ⟨user, hauthor, hwords⟩ := hs n row' hrow hnote
      refine ⟨user, hauthor, hwords.append fun f _ => .inl ?_⟩
      rw [Db.word, Db.word, hrow', hrow]

end

/-! ## Runs -/

/-- **Threads stay one level deep, no comment moves to another one, and a note's words are its
author's**, in every run of orderly calls. -/
theorem threads_of_orderly (g : Generator) (calls : List Call)
    (hc : ∀ pre c post, calls = pre ++ c :: post → c.Orderly g pre (server.after (.fresh g) pre).db) :
    Threads (server.after (.fresh g) calls).db ∧ NotesSigned g calls ∧
    ∀ pre c post, calls = pre ++ c :: post → ParentsKept (server.after (.fresh g) pre).db
      (server.after (.fresh g) (pre ++ [c])).db := by
  have hstep (pre : List Call) (c : Call) : NoteStep c (server.after (.fresh g) pre).db
      (server.after (.fresh g) (pre ++ [c])).db := by
    rw [server.after_append]
    exact (step_alters _ c).noteStep (refsHold_after g pre)
  refine ⟨?_, ?_, fun pre c post _ => (hstep pre c).parentsKept⟩
  · induction calls using List.reverseRecOn with
    | nil =>
      intro id row hr
      cases hr
    | append_singleton calls c ih =>
      refine (hstep calls c).threads (refsHold_after g _) (hc calls c [] (by simp)) (ih ?_)
      intro pre c' post hcalls
      exact hc pre c' (post ++ [c]) (by simp [hcalls])
  · induction calls using List.reverseRecOn with
    | nil =>
      intro id row hr
      cases hr
    | append_singleton calls c ih =>
      refine (ih ?_).append (hstep calls c) (hc calls c [] (by simp))
      intro pre c' post hcalls
      exact hc pre c' (post ++ [c]) (by simp [hcalls])

/-- Ann has written a note, and a reply to it. -/
def annsThread : List Call := annsTrip ++ [
  .trip "T1" "ann" (.plain 2 .insert .comments "N1" [("trip_id", .str "T1"), ("body", .str "The hut is small")]),
  .trip "T1" "ann" (.plain 3 .insert .comments "R1" [("trip_id", .str "T1"), ("body", .str "But open"),
    ("parent_id", .str "N1")])]

/-- A new comment is orderly if it names no parent, or names it by its id. -/
theorem Call.orderly_fresh {g : Generator} {calls : List Call} {db : Db} {tripID user : String}
    {m : Mutation} (hfresh : (db.rows.lookup ⟨.comments, m.id⟩).isNone = true)
    (hparent : m.fields.lookup "parent_id" = none ∨
      ∃ s, s ≠ "" ∧ m.fields.lookup "parent_id" = some (.str s)) :
    (Call.trip tripID user m).Orderly g calls db := by
  intro p m' ha _
  obtain ⟨-, rfl, -⟩ := Call.asks_trip rfl ha
  rw [Option.isNone_iff_eq_none.1 hfresh]
  intro v hv
  rcases hparent with hnone | ⟨s, hne, hs⟩
  · rw [hnone] at hv
    cases hv
  · rw [hs] at hv
    cases hv
    exact .inr ⟨s, hne, rfl⟩

/-- The calls of Ann's thread are orderly. -/
theorem threads_of_orderly_ann : Threads (server.after (.fresh .plain) annsThread).db ∧
    NotesSigned .plain annsThread ∧
    ∀ pre c post, annsThread = pre ++ c :: post → ParentsKept (server.after (.fresh .plain) pre).db
      (server.after (.fresh .plain) (pre ++ [c])).db := by
  refine threads_of_orderly _ _ ?_
  simp only [annsThread, annsTrip, List.cons_append, List.nil_append, List.forall_split_cons]
  refine ⟨fun p m ha => absurd ha (Call.asks_addUser rfl),
    fun p m ha => absurd (Call.asks_master rfl ha).2 (by decide), ?_, ?_, fun pre c post h => ?_⟩
  · refine Call.orderly_fresh ?_ ?_
    · decide +kernel
    · exact .inl (by decide)
  · refine Call.orderly_fresh ?_ ?_
    · decide +kernel
    · exact .inr ⟨"N1", by decide, by decide⟩
  · exact absurd h (by simp)

/-- A first note with a reply becomes a task. -/
theorem task_breaks_thread : ¬ ∀ (g : Generator) (calls : List Call),
    Threads (server.after (.fresh g) calls).db ∧ NotesSigned g calls ∧
    ∀ pre c post, calls = pre ++ c :: post → ParentsKept (server.after (.fresh g) pre).db
      (server.after (.fresh g) (pre ++ [c])).db := by
  intro h
  let c := Call.trip "T1" "ann" (.plain 4 .upsert .comments "N1" [("is_task", .bool true),
    ("task_state", .str "open")])
  have hreply : ((server.after (.fresh .plain) (annsThread ++ [c])).db.rows.lookup ⟨.comments, "R1"⟩).map
      (·.fields "parent_id") = some (.str "N1") := by
    decide +kernel
  have hfirst : ((server.after (.fresh .plain) (annsThread ++ [c])).db.rows.lookup ⟨.comments, "N1"⟩).map
      (·.fields "is_task") = some (.int 1) := by
    decide +kernel
  obtain ⟨row, hrow, hparent⟩ := Option.map_eq_some_iff.1 hreply
  obtain ⟨id, first, -, hid, hlookup, hnote⟩ :=
    ((h .plain (annsThread ++ [c])).1 "R1" row hrow (by rw [hparent]; simp)).parent
  obtain rfl : "N1" = id := Value.str.inj (hparent.symm.trans hid)
  rw [hlookup, Option.map_some, hnote.noTask] at hfirst
  exact absurd hfirst (by decide)

end JitPack
