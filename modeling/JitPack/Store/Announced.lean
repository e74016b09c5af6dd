import JitPack.Store.Feed

/-!
# What a feed tells of the rows

A reader learns from a feed which rows have changed, and pulls those. So the feed should have an entry for each row that
a call changes, and the last one about a row should say whether the row is there (`Announced`).

A push to a trip logs its row, and with a delete the children that the registry names (`Tells`). It is announced
exactly if it changes no other row (`pushAnnounced_iff`): not if it deletes more, or if other rows forget a reference to
what it deletes. Every other write to a trip is announced (`writeAnnounced`).
-/

namespace JitPack

open Db

/-- The entries of a feed. -/
def Db.feedOf (db : Db) (feed : Option String) : List Change := db.changeLog.filter (·.tripID = feed)

/-- Of each row that has an entry behind `seq`, the last one says whether it is there. -/
def Marked (feed : Option String) (K : Set Key) (seq : Nat) (db : Db) : Prop :=
  ∀ k ∈ K, ∀ e ∈ db.feedOf feed, e.key = k → seq < e.seq → (∀ e' ∈ db.feedOf feed, e'.key = k → e'.seq ≤ e.seq) →
    (e.deleted = true ↔ db.rows.lookup k = none)

/-- The feed tells of every row of `K` that the call changes, and whether it is still there. It keeps what it has told:
the trip is not deleted. -/
structure Announced (feed : Option String) (K : Set Key) (σ : Server) (c : Call) : Prop where
  kept : σ.db.feedOf feed ⊆ (server.step σ c).2.db.feedOf feed
  told : ∀ k ∈ K, (server.step σ c).2.db.rows.lookup k ≠ σ.db.rows.lookup k →
    ∃ e ∈ (server.step σ c).2.db.feedOf feed, e.key = k ∧ σ.db.lastSeq < e.seq
  marked : Marked feed K σ.db.lastSeq (server.step σ c).2.db

/-! ## What a call appends to a feed -/

section
variable {feed : Option String} {K : Set Key} {σ : Server} {c : Call} {k : Key} {calls : List Call}

theorem step_appended (σ : Server) (c : Call) : ∃ new, σ.db.Appended (server.step σ c).2.db new := by
  rcases step_cases σ c with hsame | heffect
  · rw [hsame]
    exact ⟨[], (Db.Extended.of_same rfl rfl).appended⟩
  · exact heffect.appended

theorem lastSeq_le (σ : Server) (c : Call) : σ.db.lastSeq ≤ (server.step σ c).2.db.lastSeq := by
  obtain ⟨new, hx⟩ := step_appended σ c
  rw [hx.last]
  exact Nat.le_add_right _ _

/-- What was in the feed is the front of it. -/
theorem Announced.feed_front (ho : σ.db.LogOrdered) (h : Announced feed K σ c) :
    σ.db.feedOf feed <+: (server.step σ c).2.db.feedOf feed := by
  obtain ⟨new, hx⟩ := step_appended σ c
  obtain ⟨keep, hlog⟩ := hx.log
  have hkeep : ∀ e ∈ σ.db.feedOf feed, keep e = true := by
    intro e he
    have hmem := (List.mem_filter.1 (h.kept he)).1
    rw [hlog] at hmem
    rcases List.mem_append.1 hmem with hmem | hmem
    · exact (List.mem_filter.1 hmem).2
    · exact absurd (ho.le e (List.mem_filter.1 he).1) (not_le.2 (hx.lt_seq hmem).1)
  refine ⟨new.filter (·.tripID = feed), ?_⟩
  rw [Db.feedOf, Db.feedOf, hlog, List.filter_append, List.filter_filter]
  refine congrArg (· ++ _) (List.filter_congr fun e he => ?_)
  cases hfeed : decide (e.tripID = feed) with
  | false => rfl
  | true =>
    have hkept := hkeep e (List.mem_filter.2 ⟨he, hfeed⟩)
    simp [hkept]

theorem Db.LogOrdered.feedOf {db : Db} (h : db.LogOrdered) (feed : Option String) :
    (db.feedOf feed).Pairwise (Change.seq · < Change.seq ·) := h.sorted.filter _

/-- An entry with an old number is an old one. -/
theorem mem_feedOf_of_le {e : Change} (he : e ∈ (server.step σ c).2.db.feedOf feed) (hle : e.seq ≤ σ.db.lastSeq) :
    e ∈ σ.db.feedOf feed := by
  obtain ⟨new, hx⟩ := step_appended σ c
  obtain ⟨keep, hlog⟩ := hx.log
  obtain ⟨hmem, hfeed⟩ := List.mem_filter.1 he
  rw [hlog] at hmem
  rcases List.mem_append.1 hmem with hmem | hmem
  · exact List.mem_filter.2 ⟨(List.mem_filter.1 hmem).1, hfeed⟩
  · exact absurd hle (not_le.2 (hx.lt_seq hmem).1)

/-- The last entry about a row says whether it is there, also after a call. -/
theorem Announced.truthful (h : Announced feed K σ c) (ht : Marked feed K 0 σ.db) :
    Marked feed K 0 (server.step σ c).2.db := by
  intro k hk e he hkey hpos hlast
  by_cases hnew : σ.db.lastSeq < e.seq
  · exact h.marked k hk e he hkey hnew hlast
  -- nothing new is said about the row, so it is what it was
  have hsame : (server.step σ c).2.db.rows.lookup k = σ.db.rows.lookup k := by
    by_contra hne
    obtain ⟨e', he', hkey', hlt⟩ := h.told k hk hne
    exact hnew (hlt.trans_le (hlast e' he' hkey'))
  have hold : e ∈ σ.db.feedOf feed := mem_feedOf_of_le he (not_lt.1 hnew)
  rw [hsame]
  exact ht k hk e hold hkey hpos fun e' he' hkey' => hlast e' (h.kept he') hkey'

/-- What calls that are announced keep. -/
structure Announces (feed : Option String) (K : Set Key) (σ τ : Server) : Prop where
  ordered : τ.db.LogOrdered
  truthful : Marked feed K 0 τ.db
  front : σ.db.feedOf feed <+: τ.db.feedOf feed
  le : σ.db.lastSeq ≤ τ.db.lastSeq
  told : ∀ k ∈ K, τ.db.rows.lookup k ≠ σ.db.rows.lookup k → ∃ e ∈ τ.db.feedOf feed, e.key = k ∧ σ.db.lastSeq < e.seq

theorem announces_after (ho : σ.db.LogOrdered) (ht : Marked feed K 0 σ.db)
    (h : server.Legal (Announced feed K) σ calls) : Announces feed K σ (server.after σ calls) := by
  induction calls generalizing σ with
  | nil => exact ⟨ho, ht, List.prefix_rfl, le_rfl, fun k hk hne => absurd rfl hne⟩
  | cons c calls ih =>
    rw [Machine.legal_cons] at h
    obtain ⟨hordered, htruthful, hfront, hle, htold⟩ := ih (logOrdered_step c ho) (h.1.truthful ht) h.2
    refine ⟨hordered, htruthful, (h.1.feed_front ho).trans hfront, (lastSeq_le σ c).trans hle, fun k hk hne => ?_⟩
    by_cases hlater : (server.after (server.step σ c).2 calls).db.rows.lookup k = (server.step σ c).2.db.rows.lookup k
    · obtain ⟨e, he, hkey, hlt⟩ := h.1.told k hk (hlater ▸ hne)
      exact ⟨e, hfront.subset he, hkey, hlt⟩
    · obtain ⟨e, he, hkey, hlt⟩ := htold k hk hlater
      exact ⟨e, he, hkey, (lastSeq_le σ c).trans_lt hlt⟩

end

/-! ## A push to a trip -/

/-- What a call has logged that was about a row: entries for the row and the children that the registry names, which say
of each whether it is there. -/
structure Tells (feed : Option String) (key : Key) (db db' : Db) (new : List Change) : Prop where
  appended : Appended db db' new
  kept : db.feedOf feed ⊆ db'.feedOf feed
  about : ∀ e ∈ new, e.tripID = feed ∧ (e.key = key ∨ e.key ∈ db.cascadeChildren key) ∧
    (e.deleted = true ↔ db'.rows.lookup e.key = none)
  told : ∀ k, k = key ∨ k ∈ db.cascadeChildren key → db'.rows.lookup k ≠ db.rows.lookup k → ∃ e ∈ new, e.key = k

section
variable {db db₁ db' : Db} {feed : Option String} {key k : Key} {new : List Change} {s : Env} {m : Mutation} {row : Row}

theorem Db.Extended.kept (h : Extended db db' new) : db.feedOf feed ⊆ db'.feedOf feed := by
  intro e he
  rw [feedOf, h.log, List.filter_append]
  exact List.mem_append_left _ he

/-- Entries about rows that stay as they are. -/
theorem Tells.of_rows (hrows : db'.rows = db.rows) (hx : Extended db db' new)
    (habout : ∀ e ∈ new, e.tripID = feed ∧ (e.key = key ∨ e.key ∈ db.cascadeChildren key) ∧
      (e.deleted = true ↔ db.rows.lookup e.key = none)) : Tells feed key db db' new where
  appended := hx.appended
  kept := hx.kept
  about e he := by
    rw [hrows]
    exact habout e he
  told k _ hne := absurd (congrArg _ hrows) hne

theorem Tells.of_same (hrows : db'.rows = db.rows) (hx : Extended db db' []) : Tells feed key db db' [] :=
  .of_rows hrows hx fun e he => by cases he

theorem cascadeChildren_present (h : k ∈ db.cascadeChildren key) : db.rows.lookup k ≠ none := by
  obtain ⟨q, -, -, row, hrow, -⟩ := mem_cascadeChildren.1 h
  rw [hrow]
  exact Option.some_ne_none row

/-- A mutation that was refused is logged again with the rows as they are. -/
theorem logged_relogged (m : Mutation) (res : MutationResult) :
    ∃ new, Tells feed key db ((db.relogged feed m key (loadRow key db)).record res) new := by
  refine ⟨_, .of_rows rfl ((extended_log ..).trans ((extended_log ..).trans (record_extended ..))) fun e he => ?_⟩
  rcases List.mem_append.1 he with he | he
  · obtain ⟨hfeed, -, hdeleted, hkey⟩ := mem_entries _ _ _ _ he
    rw [List.mem_singleton] at hkey
    refine ⟨hfeed, .inl hkey, ?_⟩
    rw [hdeleted, hkey, loadRow]
    cases db.rows.lookup key <;> simp
  · rw [List.append_nil] at he
    obtain ⟨hfeed, -, hdeleted, hkey⟩ := mem_entries _ _ _ _ he
    have hchild : e.key ∈ db.cascadeChildren key := by
      split at hkey
      · exact hkey
      · cases hkey
    refine ⟨hfeed, .inr hchild, ?_⟩
    rw [hdeleted]
    exact iff_of_false Bool.false_ne_true (cascadeChildren_present hchild)

/-- A put changes its own row. -/
theorem key_of_put {row : StoredRow} (hrows : db₁.rows = db.rows.insert key row) (hsame : db'.rows = db₁.rows)
    (hne : db'.rows.lookup k ≠ db.rows.lookup k) : k = key := by
  by_contra hother
  rw [hsame, hrows, AList.lookup_insert_ne hother] at hne
  exact hne rfl

/-- A row that was written is there, and the others are what they were. -/
theorem logged_put {row : StoredRow} (hrows : db₁.rows = db.rows.insert key row) (hx : Extended db db₁ [])
    (hlc : HLC) (hx' : Extended (db₁.log feed hlc false [key]) db' []) (hsame : db'.rows = db₁.rows) :
    ∃ new, Tells feed key db db' new := by
  have hall := hx.trans ((extended_log db₁ feed hlc false [key]).trans hx')
  rw [List.nil_append, List.append_nil] at hall
  refine ⟨_, hall.appended, hall.kept, fun e he => ?_, fun k hk hne => ?_⟩
  · obtain ⟨hfeed, -, hdeleted, hkey⟩ := mem_entries _ _ _ _ he
    rw [List.mem_singleton] at hkey
    refine ⟨hfeed, .inl hkey, ?_⟩
    rw [hdeleted, hkey, hsame, hrows, AList.lookup_insert]
    exact iff_of_false Bool.false_ne_true (Option.some_ne_none row)
  · obtain rfl := key_of_put hrows hsame hne
    obtain ⟨e, he, hkey, -⟩ := exists_mem_entries feed hlc false db₁.lastSeq (List.mem_singleton_self k)
    exact ⟨e, he, hkey⟩

theorem cascades_trip : ∀ t : Table, t.partition = .trip → ∀ q ∈ t.cascades, q.table.partition = .trip := by
  decide

/-- What goes with a row of a trip belongs to trips. -/
theorem removed_trip (hp : key.table.partition = .trip) (h : k ∈ db.removed key) : k.table.partition = .trip := by
  induction mem_removed.1 h with
  | refl => exact hp
  | tail hchain hlast ih =>
    obtain ⟨q, hq, ht⟩ := List.mem_map.1 (table_of_cascadeChildren (hlast.named (ih (mem_removed.2 hchain))))
    exact ht ▸ cascades_trip _ (ih (mem_removed.2 hchain)) q hq

/-- A delete of a row of a trip leaves the log alone. -/
theorem deleteRow_extended (hp : key.table.partition = .trip) (hkey : (db.rows.lookup key).isSome)
    (h : deleteRow key db = .ok db') : Extended db db' [] := by
  obtain ⟨hlog, hlast⟩ := deleteRow_log hkey h
  refine .of_same (hlog.trans (List.filter_eq_self.2 fun e _ => ?_)) hlast
  cases ht : e.tripID with
  | none => rfl
  | some id =>
    refine decide_eq_true fun hgone => ?_
    cases removed_trip hp hgone

theorem logged_delete (hp : key.table.partition = .trip) (hkey : (db.rows.lookup key).isSome)
    (hdel : deleteRow key db = .ok db₁) (hlc : HLC)
    (hx : Extended ((db₁.log feed hlc true [key]).log feed hlc true (db.cascadeChildren key)) db' [])
    (hsame : db'.rows = db₁.rows) : ∃ new, Tells feed key db db' new := by
  rw [← log_append, List.singleton_append] at hx
  have hall := (deleteRow_extended hp hkey hdel).trans
    ((extended_log db₁ feed hlc true (key :: db.cascadeChildren key)).trans hx)
  rw [List.nil_append, List.append_nil] at hall
  refine ⟨_, hall.appended, hall.kept, fun e he => ?_, fun k hk hne => ?_⟩
  · obtain ⟨hfeed, -, hdeleted, hmem⟩ := mem_entries _ _ _ _ he
    refine ⟨hfeed, List.mem_cons.1 hmem, iff_of_true hdeleted ?_⟩
    rw [hsame, deleteRow_gone hkey hdel]
    rcases List.mem_cons.1 hmem with hmem | hmem
    · exact .inr (hmem ▸ self_mem_removed)
    · exact .inr (cascadeChildren_removed hmem)
  · obtain ⟨e, he, hkey, -⟩ := exists_mem_entries feed hlc true db₁.lastSeq (List.mem_cons.2 hk)
    exact ⟨e, he, hkey⟩

end

section
variable {s : Env} {db db' : Db} {tripID userID : String} {m : Mutation} {key : Key} {retired : Bool}
  {res : MutationResult}

theorem Landed.logged {p : Partition} {merged : MergeResult} (hp : key.table.partition = .trip)
    (hhook : p.afterChange = none) (h : Landed s p m key (loadRow key db) merged retired db res db') :
    ∃ new, Tells p.feed key db db' new := by
  cases h with
  | refused => exact logged_relogged m res
  | unchanged _ _ hn => exact ⟨[], .of_same hn.rows (hn.extended.trans (record_extended ..))⟩
  | @changed _ _ db₁ _ db₃ _ hper ho hn =>
    cases ho with
    | master h => exact nomatch hhook.symm.trans h
    | none =>
      have hx := hn.extended.trans (record_extended db₃ res)
      have hsame : (db₃.record res).rows = db₁.rows := hn.rows
      cases hper with
      | deleted hd hpres hdel =>
        obtain ⟨row, hrow, -⟩ := loadRow_of_present hpres
        rw [if_pos (by rw [hd, hpres]; rfl), hd] at hx
        exact logged_delete hp (by rw [hrow]; rfl) hdel m.hlc hx hsame
      | inserted hd hpres hi =>
        rw [if_neg (by simp [hd]), log_nil, hd] at hx
        obtain ⟨-, -, -, hrows⟩ := insertRow_ok hi
        exact logged_put (congrArg Db.rows hrows) (insertRow_log hi) m.hlc hx hsame
      | updated hd hpres _ hu =>
        rw [if_neg (by simp [hd]), log_nil, hd] at hx
        obtain ⟨row, hrow, -⟩ := loadRow_of_present hpres
        obtain ⟨-, -, hrows⟩ := updateRow_ok hrow hu
        exact logged_put (congrArg Db.rows hrows) (updateRow_log hu) m.hlc hx hsame

theorem Applied.logged {t : Table} (ht : Table.ofName m.table = some t)
    (h : Applied s (tripPartition tripID userID) m db res db') :
    ∃ new, Tells (some tripID) ⟨t, m.id⟩ db db' new := by
  cases h with
  | duplicate => exact ⟨[], .of_same rfl (.of_same rfl rfl)⟩
  | @refused t' m' reason relog _ _ _ valid why =>
    obtain rfl : t' = t := Option.some_inj.1 ((validate_ok valid).1.symm.trans ht)
    cases relog with
    | true => exact logged_relogged m' res
    | false => exact ⟨[], .of_same rfl (record_extended db res)⟩
  | @landed t' _ _ _ _ _ _ valid _ land =>
    obtain rfl : t' = t := Option.some_inj.1 ((validate_ok valid).1.symm.trans ht)
    have hp : t'.partition = .trip := of_decide_eq_true (validate_ok valid).2
    exact land.logged hp rfl

end

/-- What a push to a trip has logged. -/
theorem step_logged {σ : Server} {c : Call} {tripID userID : String} {m : Mutation} {key : Key}
    (hr : c.request = .push tripID userID m) (ht : c.request.target = some key) :
    ∃ new, Tells (some tripID) key σ.db (server.step σ c).2.db new := by
  rw [hr, Request.target, Option.map_eq_some_iff] at ht
  obtain ⟨t, ht, rfl⟩ := ht
  rcases step_cases σ c with h | h
  · rw [h]
    exact ⟨[], .of_same rfl (.of_same rfl rfl)⟩
  rw [hr] at h
  cases h with
  | applied hp h =>
    cases hp
    exact h.logged ht
  | reverted hrev => cases hrev
  | imageStamped hst => cases hst

section
variable {σ : Server} {c : Call} {tripID userID : String} {m : Mutation} {key : Key} {K : Set Key}

/-- A call that has nothing to do with the feed. -/
theorem announced_of_absent {feed : Option String} (hfeed : σ.db.feedOf feed = [])
    (hfeed' : (server.step σ c).2.db.feedOf feed = [])
    (hrows : ∀ k ∈ K, (server.step σ c).2.db.rows.lookup k = σ.db.rows.lookup k) : Announced feed K σ c where
  kept := by rw [hfeed]; exact List.nil_subset _
  told k hk hne := absurd (hrows k hk) hne
  marked k _ e he := by rw [hfeed'] at he; cases he

/-- What a call has logged announces it if it changes no row but the one it is about and the children that the registry
names. -/
theorem Tells.announced_iff {feed : Option String} {new : List Change} (ho : σ.db.LogOrdered)
    (h : Tells feed key σ.db (server.step σ c).2.db new) :
    Announced feed K σ c ↔ ∀ k ∈ K, (server.step σ c).2.db.rows.lookup k ≠ σ.db.rows.lookup k →
      k = key ∨ k ∈ σ.db.cascadeChildren key := by
  obtain ⟨keep, hlog⟩ := h.appended.log
  have hnew : ∀ e ∈ (server.step σ c).2.db.feedOf feed, σ.db.lastSeq < e.seq → e ∈ new := by
    intro e he hlt
    have hmem := (List.mem_filter.1 he).1
    rw [hlog] at hmem
    rcases List.mem_append.1 hmem with hmem | hmem
    · exact absurd (ho.le e (List.mem_filter.1 hmem).1) (not_le.2 hlt)
    · exact hmem
  constructor
  · intro hannounced k hk hne
    obtain ⟨e, he, rfl, hlt⟩ := hannounced.told k hk hne
    exact (h.about e (hnew e he hlt)).2.1
  · refine fun hchanged => ⟨h.kept, fun k hk hne => ?_, fun k _ e he hkey hlt _ => ?_⟩
    · obtain ⟨e, he, hkey⟩ := h.told k (hchanged k hk hne) hne
      refine ⟨e, List.mem_filter.2 ⟨?_, decide_eq_true (h.about e he).1⟩, hkey, (h.appended.lt_seq he).1⟩
      rw [hlog]
      exact List.mem_append_right _ he
    · exact hkey ▸ (h.about e (hnew e he hlt)).2.2

theorem announced_iff (ho : σ.db.LogOrdered) (hr : c.request = .push tripID userID m)
    (ht : c.request.target = some key) :
    Announced (some tripID) K σ c ↔ ∀ k ∈ K, (server.step σ c).2.db.rows.lookup k ≠ σ.db.rows.lookup k →
      k = key ∨ k ∈ σ.db.cascadeChildren key := by
  obtain ⟨new, hlogged⟩ := step_logged (σ := σ) hr ht
  exact hlogged.announced_iff ho

end

/-- Calls that have nothing to do with the feed, and then pushes of the row. -/
theorem legal_announced {σ : Server} {tripID : String} {key : Key} {calls pushes : List Call} (ho : σ.db.LogOrdered)
    (hquiet : ∀ n < calls.length + 1, (server.after σ (calls.take n)).db.feedOf (some tripID) = [] ∧
      (server.after σ (calls.take n)).db.rows.lookup key = none)
    (hpushes : ∀ c ∈ pushes, ∃ userID m, c.request = .push tripID userID m ∧ c.request.target = some key) :
    server.Legal (Announced (some tripID) {key}) σ (calls ++ pushes) := by
  induction calls generalizing σ with
  | nil =>
    rintro pre c post rfl
    obtain ⟨userID, m, hr, ht⟩ := hpushes c (by simp)
    have hordered : (server.after σ pre).db.LogOrdered :=
      Machine.after_of_step (I := fun τ : Server => τ.db.LogOrdered) (fun _ c h => logOrdered_step c h) ho pre
    exact (announced_iff hordered hr ht).2 fun k hk _ => .inl hk
  | cons c calls ih =>
    obtain ⟨hfeed, hrow⟩ := hquiet 0 (Nat.succ_pos _)
    obtain ⟨hfeed', hrow'⟩ := hquiet 1 (by simp)
    refine Machine.legal_cons.2 ⟨announced_of_absent hfeed hfeed' fun k hk => ?_, ih (logOrdered_step c ho) ?_⟩
    · rw [Set.mem_singleton_iff.1 hk]
      exact hrow'.trans hrow.symm
    · intro n hn
      exact hquiet (n + 1) (by simpa using hn)

/-- **The feed of a trip tells all about a push to it** exactly if the push changes no row but its own and those that
the registry names: nothing more is deleted, and no other row forgets what is deleted. -/
theorem pushAnnounced_iff (g : Generator) (calls : List Call) (c : Call) (tripID userID : String) (m : Mutation)
    (key : Key) (K : Set Key) (hr : c.request = .push tripID userID m) (ht : c.request.target = some key) :
    Announced (some tripID) K (server.after (.fresh g) calls) c ↔
      ∀ k ∈ K, (server.after (.fresh g) (calls ++ [c])).db.rows.lookup k ≠
          (server.after (.fresh g) calls).db.rows.lookup k →
        k = key ∨ k ∈ (server.after (.fresh g) calls).db.cascadeChildren key := by
  rw [server.after_append]
  exact announced_iff (logOrdered_after g calls) hr ht

/-- The delete of a packing row with a note. -/
theorem pushAnnounced_iff_row :
    let c := Call.trip "T1" "ann" (.plain 4 .delete .tripItems "i1" [])
    let σ := server.after (.fresh .plain) notedRow
    Announced (some "T1") Set.univ σ c ↔
      ∀ k ∈ Set.univ, (server.after (.fresh .plain) (notedRow ++ [c])).db.rows.lookup k ≠ σ.db.rows.lookup k →
        k = ⟨.tripItems, "i1"⟩ ∨ k ∈ σ.db.cascadeChildren ⟨.tripItems, "i1"⟩ :=
  pushAnnounced_iff .plain notedRow _ "T1" "ann" _ ⟨.tripItems, "i1"⟩ Set.univ rfl rfl

/-! ## The other writes to a trip -/

/-- The trip that a request writes a row of, other than by a push. -/
def Request.tripWritten : Request → Option String
  | .revert tripID .. | .takeOver tripID .. | .putTrack _ tripID .. | .addIdeaImage tripID .. => some tripID
  | _ => none

section
variable {s : Env} {g : Generator} {r : Request} {db db' db₁ : Db} {feed : Option String} {key : Key}

/-- What a put of one row has logged, with the row that it is about. -/
theorem told_put {row : StoredRow} (hrows : db₁.rows = db.rows.insert key row) (hx : Extended db db₁ []) (hlc : HLC)
    (hx' : Extended (db₁.log feed hlc false [key]) db' []) (hsame : db'.rows = db₁.rows) :
    ∃ key new, Tells feed key db db' new ∧ ∀ k, db'.rows.lookup k ≠ db.rows.lookup k → k = key := by
  obtain ⟨new, hnew⟩ := logged_put hrows hx hlc hx' hsame
  exact ⟨key, new, hnew, fun k hne => key_of_put hrows hsame hne⟩

theorem Effect.written {tripID : String} (h : Effect s g db r db') (hr : r.tripWritten = some tripID) :
    ∃ key new, Tells (some tripID) key db db' new ∧ ∀ k, db'.rows.lookup k ≠ db.rows.lookup k → k = key := by
  cases h with
  | joined => cases hr
  | applied hp => cases hp <;> cases hr
  | reverted hrev h =>
    cases hrev with
    | master => cases hr
    | trip =>
      cases hr
      cases h with
      | intro _ claimed present _ _ update owed noted =>
        cases owed with
        | master h => cases h
        | none =>
          obtain ⟨row, hrow, -⟩ := loadRow_of_present present
          obtain ⟨-, -, hrows⟩ := updateRow_ok (claimed.rows ▸ hrow) update
          have hput := congrArg Db.rows hrows
          simp only [claimed.rows] at hput
          exact told_put hput (claimed.extended.trans (updateRow_log update)) _ noted.extended noted.rows
  | taken h =>
    cases hr
    cases h with
    | intro present _ update =>
      obtain ⟨-, -, hrows⟩ := updateRow_ok present update
      exact told_put (congrArg Db.rows hrows) (updateRow_log update) _ (.of_same rfl rfl) rfl
  | trackStored h =>
    cases hr
    cases h with
    | replaced _ present _ update noted =>
      obtain ⟨-, -, hrows⟩ := updateRow_ok present update
      exact told_put (congrArg Db.rows hrows) (updateRow_log update) _ noted.extended noted.rows
    | inserted _ insert noted =>
      obtain ⟨-, -, -, hrows⟩ := insertRow_ok insert
      exact told_put (congrArg Db.rows hrows) (insertRow_log insert) _ noted.extended noted.rows
  | imageAdded h =>
    cases hr
    cases h with
    | intro _ insert noted =>
      obtain ⟨-, -, -, hrows⟩ := insertRow_ok insert
      exact told_put (congrArg Db.rows hrows) (insertRow_log insert) _ noted.extended noted.rows
  | imageStamped hst => cases hst <;> cases hr

end

/-- **The feed of a trip tells all about every other write to it**: a revert, a takeover, a track or a picture. -/
theorem writeAnnounced (g : Generator) (calls : List Call) (c : Call) (tripID : String) (K : Set Key)
    (hr : c.request.tripWritten = some tripID) : Announced (some tripID) K (server.after (.fresh g) calls) c := by
  have ho := logOrdered_after g calls
  generalize server.after (.fresh g) calls = σ at *
  obtain ⟨key, new, htells, hchanged⟩ : ∃ key new, Tells (some tripID) key σ.db (server.step σ c).2.db new ∧
      ∀ k, (server.step σ c).2.db.rows.lookup k ≠ σ.db.rows.lookup k → k = key := by
    rcases step_cases σ c with hsame | heffect
    · rw [hsame]
      exact ⟨⟨.trips, tripID⟩, [], .of_same rfl (.of_same rfl rfl), fun k hne => absurd rfl hne⟩
    · exact heffect.written hr
  exact (htells.announced_iff ho).2 fun k _ hne => .inl (hchanged k hne)

/-- Ann's trip has an idea. -/
def annsIdea : List Call := annsTrip ++
  [.trip "T1" "ann" (.plain 2 .insert .ideas "d1" [("trip_id", .str "T1"), ("title", .str "Fjord")])]

/-- She adds a picture. -/
theorem writeAnnounced_picture : Announced (some "T1") Set.univ (server.after (.fresh .plain) annsIdea)
    (.plain 1760000000001 (.addIdeaImage "T1" "ann" "d1" "p1" [1, 2])) :=
  writeAnnounced .plain annsIdea _ "T1" Set.univ rfl

end JitPack
