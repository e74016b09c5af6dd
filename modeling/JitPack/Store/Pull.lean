import JitPack.Lib.Changefeed
import JitPack.Store.Announced

/-!
# The pull

`internal/store/pull.go`: a page of a feed from a cursor, with a snapshot of each row that it is about. The entries of a
page are read at once. Behind that the filter is asked about each row, and the row is read in a transaction of its own,
so others may write in between (`pullRows`).

Whoever follows a trip and takes over what the pages say ends with the rows of the server, as long as the feed tells of
every change of a row (`Announced`): see `Following` and `follower_converges`. So the pages say enough. What a client
does beyond that, as it removes what hangs on a removed row before the feed says so, is not needed for it.
-/

namespace JitPack

/-! ## A page -/

/-- What a pull sends of a row. -/
structure Snapshot where
  fields : String → Value
  hlc : HLC

/-- `loadSnapshot`. -/
def loadSnapshot (key : Key) (db : Db) : Option Snapshot :=
  let row := loadRow key db
  if row.present then some ⟨row.fields, row.hlc⟩ else none

/-- `Change` of a page: an entry, and the row. -/
structure PulledChange where
  change : Change
  row : Option Snapshot

/-- `PullPage`. -/
structure PullPage where
  changes : List PulledChange
  nextCursor : Nat
  hasMore : Bool

/-- `pullFilter`: whether a row may be seen, and whether it has a snapshot. -/
abbrev PullFilter := Key → Db → Bool × Bool

/-- `tripVisible`. Every table has columns that are synced. -/
def tripVisible : PullFilter := fun _ _ => (true, true)

/-- The filter of `PullMaster`. -/
def masterFilter (userID : String) : PullFilter := fun key db => (db.masterVisible userID key, true)

/-- `headSeq`. -/
def headSeq (feed : Option String) (db : Db) : Nat := ((db.feedOf feed).map (·.seq)).max?.getD 0

section
variable (visible : PullFilter)

/-- The loop of `pullPage` over the entries it keeps. Before it asks the filter, and before it reads the row, the server
may serve other calls. -/
def pullRows : List Change → List (List Call) → Server → List PulledChange × Server
  | [], _, σ => ([], σ)
  | c :: cs, turns, σ =>
    let asked := server.after σ (turns.headD [])
    let read := server.after asked (turns.tail.headD [])
    let rest := pullRows cs turns.tail.tail read
    if c.deleted then (⟨c, none⟩ :: rest.1, rest.2)
    else if (visible c.key asked.db).1 then
      (⟨c, if (visible c.key asked.db).2 then loadSnapshot c.key read.db else none⟩ :: rest.1, rest.2)
    else rest

/-- `pullPage`. -/
def pullPage (feed : Option String) (cursor limit : Nat) (turns : List (List Call)) (σ : Server) : PullPage × Server :=
  let entries := (Changefeed.behind Change.seq cursor (σ.db.feedOf feed)).take (limit + 1)
  let hasMore := limit < entries.length
  let page := if hasMore then entries.take limit else entries
  let rows := pullRows visible (Changefeed.compact Change.seq Change.key page) turns σ
  (⟨rows.1, Changefeed.next Change.seq cursor page, hasMore⟩, rows.2)

end

/-- `Pull`. -/
def pull (tripID : String) : Nat → Nat → List (List Call) → Server → PullPage × Server :=
  pullPage tripVisible (some tripID)

/-- `PullMaster`. -/
def pullMaster (userID : String) : Nat → Nat → List (List Call) → Server → PullPage × Server :=
  pullPage (masterFilter userID) none

/-! ## A reader that follows a trip -/

/-- What a change says of its row: that it is gone, or what it is. -/
def PulledChange.applied (c : PulledChange) : Option (Key × Option Snapshot) :=
  if c.change.deleted then some (c.change.key, none) else c.row.map (c.change.key, some ·)

/-- The server, and a reader with the rows that it has been told of. -/
structure Follower where
  store : Server
  cursor : Nat
  replica : Key → Option Snapshot

inductive FollowStep where
  | call (c : Call)
  | pull (limit : Nat) (turns : List (List Call))

def Follower.step (tripID : String) (f : Follower) : FollowStep → Option PullPage × Follower
  | .call c => (none, { f with store := (server.step f.store c).2 })
  | .pull limit turns =>
    let r := pull tripID f.cursor limit turns f.store
    (some r.1, ⟨r.2, r.1.nextCursor, Changefeed.takeOver f.replica (r.1.changes.filterMap PulledChange.applied)⟩)

/-- A reader that pulls a trip while others use the server. -/
def following (tripID : String) : Machine Follower FollowStep (Option PullPage) where
  step := Follower.step tripID

/-- Every call is announced, also those that come between the reads of a page. -/
def Told (tripID : String) (K : Set Key) (f : Follower) : FollowStep → Prop
  | .call c => Announced (some tripID) K f.store c
  | .pull _ turns => server.Legal (Announced (some tripID) K) f.store turns.flatten

/-! ## The rows of a page -/

/-- What the pull sends for an entry, where the filter was asked in the one state and the row read in the other. -/
def SentAs (visible : PullFilter) (p : PulledChange) (asked read : Server) : Prop :=
  (p.change.deleted = false → (visible p.change.key asked.db).1 = true) ∧
  p.row = if p.change.deleted then none
    else if (visible p.change.key asked.db).2 then loadSnapshot p.change.key read.db else none

/-- What the loop over the entries of a page has done while the calls were served: the filter saw the state after some
of them, and the read of the row the state after some more. What an entry without a change is about was hidden. -/
structure Paged (visible : PullFilter) (cs : List Change) (σ : Server) (calls : List Call) (ps : List PulledChange) :
    Prop where
  sublist : (ps.map (·.change)).Sublist cs
  read : ∀ p ∈ ps, ∃ pre mid post, calls = pre ++ mid ++ post ∧
    SentAs visible p (server.after σ pre) (server.after σ (pre ++ mid))
  rest : ∀ c ∈ cs, c ∈ ps.map (·.change) ∨
    ∃ pre post, calls = pre ++ post ∧ (visible c.key (server.after σ pre).db).1 = false

section
variable {visible : PullFilter} {cs : List Change} {σ : Server} {turn calls : List Call} {ps : List PulledChange}

/-- The rest of a page is read in states behind the calls that came first. -/
theorem Paged.read_after (h : Paged visible cs (server.after σ turn) calls ps) :
    ∀ p ∈ ps, ∃ pre mid post, turn ++ calls = pre ++ mid ++ post ∧
      SentAs visible p (server.after σ pre) (server.after σ (pre ++ mid)) := by
  intro p hp
  obtain ⟨pre, mid, post, rfl, hread⟩ := h.read p hp
  refine ⟨turn ++ pre, mid, post, by simp only [List.append_assoc], ?_⟩
  rwa [List.append_assoc, Machine.after_append, Machine.after_append]

theorem Paged.rest_after (h : Paged visible cs (server.after σ turn) calls ps) :
    ∀ c ∈ cs, c ∈ ps.map (·.change) ∨
      ∃ pre post, turn ++ calls = pre ++ post ∧ (visible c.key (server.after σ pre).db).1 = false := by
  intro c hc
  refine (h.rest c hc).imp_right ?_
  rintro ⟨pre, post, rfl, hhidden⟩
  exact ⟨turn ++ pre, post, (List.append_assoc ..).symm, by rwa [Machine.after_append]⟩

variable (visible) in
theorem pullRows_paged (cs : List Change) (turns : List (List Call)) (σ : Server) :
    ∃ calls, calls <+: turns.flatten ∧ (pullRows visible cs turns σ).2 = server.after σ calls ∧
      Paged visible cs σ calls (pullRows visible cs turns σ).1 := by
  induction cs generalizing turns σ with
  | nil => exact ⟨[], List.nil_prefix, rfl, List.Sublist.slnil, fun p hp => (by cases hp), fun c hc => (by cases hc)⟩
  | cons c cs ih =>
    let asking := turns.headD []
    let reading := turns.tail.headD []
    have hflatten : turns.flatten = (asking ++ reading) ++ turns.tail.tail.flatten := by
      rcases turns with _ | ⟨t, _ | ⟨t', turns⟩⟩ <;> simp [asking, reading]
    obtain ⟨calls, hfront, hafter, hpaged⟩ := ih turns.tail.tail (server.after σ (asking ++ reading))
    refine ⟨(asking ++ reading) ++ calls, ?_, ?_, ?_⟩
    · rw [hflatten]
      exact (List.prefix_append_right_inj _).2 hfront
    · rw [Machine.after_append, ← hafter, pullRows, ← Machine.after_append]
      split
      · rfl
      · split <;> rfl
    rw [pullRows, ← Machine.after_append]
    -- the entry goes on the page, or it is hidden in the state that the filter is asked in
    by_cases hshown : c.deleted = true ∨ (visible c.key (server.after σ asking).db).1 = true
    · have hput (row : Option Snapshot) (hrow : row = if c.deleted then none
          else if (visible c.key (server.after σ asking).db).2 then
            loadSnapshot c.key (server.after σ (asking ++ reading)).db
          else none) :
          Paged visible (c :: cs) σ ((asking ++ reading) ++ calls)
            (⟨c, row⟩ :: (pullRows visible cs turns.tail.tail (server.after σ (asking ++ reading))).1) := by
        refine ⟨hpaged.sublist.cons_cons c, fun p hp => ?_, fun c' hc' => ?_⟩
        · rcases List.mem_cons.1 hp with rfl | hp
          · exact ⟨asking, reading, calls, rfl, fun hlive => hshown.resolve_left (ne_true_of_eq_false hlive), hrow⟩
          · exact hpaged.read_after p hp
        · rcases List.mem_cons.1 hc' with rfl | hc'
          · exact .inl (List.mem_cons_self ..)
          · exact (hpaged.rest_after c' hc').imp_left (List.mem_cons_of_mem _)
      split
      · next hdeleted => exact hput none (by rw [if_pos hdeleted])
      · next hlive =>
        rw [if_pos (hshown.resolve_left hlive)]
        exact hput _ (by rw [if_neg hlive])
    · rw [not_or] at hshown
      rw [if_neg hshown.1, if_neg hshown.2]
      refine ⟨hpaged.sublist.cons c, hpaged.read_after, fun c' hc' => ?_⟩
      rcases List.mem_cons.1 hc' with rfl | hc'
      · exact .inr ⟨asking, reading ++ calls, List.append_assoc .., Bool.eq_false_iff.2 hshown.2⟩
      · exact hpaged.rest_after c' hc'

end

/-- A page of a trip hides nothing. -/
theorem Paged.all_of_trip {cs : List Change} {σ : Server} {calls : List Call} {ps : List PulledChange}
    (h : Paged tripVisible cs σ calls ps) : ∀ c ∈ cs, c ∈ ps.map (·.change) := by
  intro c hc
  refine (h.rest c hc).resolve_right ?_
  rintro ⟨pre, post, -, hhidden⟩
  cases hhidden

/-- The first entries behind the cursor. -/
def Db.pageOf (db : Db) (feed : Option String) (cursor limit : Nat) : List Change :=
  (Changefeed.behind Change.seq cursor (db.feedOf feed)).take limit

section
variable (visible : PullFilter) (feed : Option String) (cursor limit : Nat) (turns : List (List Call)) (σ : Server)

/-- A page holds the first entries behind the cursor, and there is more where they are not all. -/
theorem pullPage_eq :
    pullPage visible feed cursor limit turns σ =
      (⟨(pullRows visible (Changefeed.compact Change.seq Change.key (σ.db.pageOf feed cursor limit)) turns σ).1,
        Changefeed.next Change.seq cursor (σ.db.pageOf feed cursor limit),
        limit < (Changefeed.behind Change.seq cursor (σ.db.feedOf feed)).length⟩,
      (pullRows visible (Changefeed.compact Change.seq Change.key (σ.db.pageOf feed cursor limit)) turns σ).2) := by
  have hmore : limit < ((Changefeed.behind Change.seq cursor (σ.db.feedOf feed)).take (limit + 1)).length ↔
      limit < (Changefeed.behind Change.seq cursor (σ.db.feedOf feed)).length := by
    rw [List.length_take]
    omega
  have hpage : (if limit < ((Changefeed.behind Change.seq cursor (σ.db.feedOf feed)).take (limit + 1)).length
      then ((Changefeed.behind Change.seq cursor (σ.db.feedOf feed)).take (limit + 1)).take limit
      else (Changefeed.behind Change.seq cursor (σ.db.feedOf feed)).take (limit + 1)) =
        σ.db.pageOf feed cursor limit := by
    split
    · rw [List.take_take, Nat.min_eq_left (Nat.le_succ limit), Db.pageOf]
    · next hfew =>
      rw [hmore] at hfew
      rw [Db.pageOf, List.take_of_length_le (by omega), List.take_of_length_le (by omega)]
  simp only [pullPage]
  rw [hpage]
  simp only [hmore]

end

/-! ## A page of the master data -/

/-- **A page of the master data** keeps from a user what he may not see, and nothing else, whatever is called between
its reads. Each row is named once; it was visible when it was asked for, and is sent as it was read after that. What the
cursor moves over is on the page, or was hidden. -/
theorem pullMaster_page (g : Generator) (calls : List Call) (userID : String) (cursor limit : Nat)
    (turns : List (List Call)) :
    let σ := server.after (.fresh g) calls
    let r := pullMaster userID cursor limit turns σ
    ∃ served, served <+: turns.flatten ∧ r.2 = server.after σ served ∧
      (r.1.changes.map (·.change.key)).Nodup ∧
      (∀ p ∈ r.1.changes, p.change ∈ σ.db.feedOf none ∧ cursor < p.change.seq ∧ p.change.seq ≤ r.1.nextCursor ∧
        ∃ pre mid post, served = pre ++ mid ++ post ∧
          SentAs (masterFilter userID) p (server.after σ pre) (server.after σ (pre ++ mid))) ∧
      ∀ e ∈ σ.db.feedOf none, cursor < e.seq → e.seq ≤ r.1.nextCursor →
        (∃ p ∈ r.1.changes, p.change.key = e.key ∧ e.seq ≤ p.change.seq) ∨
        ∃ pre post, served = pre ++ post ∧ (server.after σ pre).db.masterVisible userID e.key = false := by
  intro σ r
  have hfeed := (logOrdered_after g calls).feedOf none
  have hsorted : (σ.db.pageOf none cursor limit).Pairwise (Change.seq · < Change.seq ·) :=
    (hfeed.filter _).sublist (List.take_sublist _ _)
  obtain ⟨served, hfront, hafter, hpaged⟩ := pullRows_paged (masterFilter userID)
    (Changefeed.compact Change.seq Change.key (σ.db.pageOf none cursor limit)) turns σ
  have hr : r = (⟨(pullRows (masterFilter userID)
      (Changefeed.compact Change.seq Change.key (σ.db.pageOf none cursor limit)) turns σ).1, _, _⟩, _) :=
    pullPage_eq (masterFilter userID) none cursor limit turns σ
  rw [hr]
  refine ⟨served, hfront, hafter, ?_, fun p hp => ?_, fun e he hlt hle => ?_⟩
  · have hkeys : ((Changefeed.compact Change.seq Change.key (σ.db.pageOf none cursor limit)).map Change.key).Nodup :=
      Changefeed.nodup_compact hsorted
    have hshown := hkeys.sublist (hpaged.sublist.map Change.key)
    rwa [List.map_map] at hshown
  · have hpage := ((Changefeed.mem_compact hsorted).1 (hpaged.sublist.subset (List.mem_map_of_mem hp))).1
    obtain ⟨hmem, hlt⟩ := Changefeed.mem_behind.1 (List.mem_of_mem_take hpage)
    refine ⟨hmem, hlt, ?_, hpaged.read p hp⟩
    exact Changefeed.le_next hsorted hpage
  · have hmem : e ∈ Changefeed.behind Change.seq cursor (σ.db.feedOf none) := Changefeed.mem_behind.2 ⟨he, hlt⟩
    rw [Changefeed.behind_eq hfeed (List.take_prefix limit _), List.mem_append] at hmem
    have hpage := hmem.resolve_right fun hlater => absurd hle (not_le.2 (Changefeed.mem_behind.1 hlater).2)
    obtain ⟨c, hc, hkey, hseq⟩ : ∃ c ∈ Changefeed.compact Change.seq Change.key (σ.db.pageOf none cursor limit),
        c.key = e.key ∧ e.seq ≤ c.seq := Changefeed.exists_mem_compact hsorted hpage
    rcases hpaged.rest c hc with hshown | ⟨pre, post, hserved, hhidden⟩
    · obtain ⟨p, hp, rfl⟩ := List.mem_map.1 hshown
      exact .inl ⟨p, hp, hkey, hseq⟩
    · exact .inr ⟨pre, post, hserved, hkey ▸ hhidden⟩

/-! ## The reader and the server -/

section
variable {tripID : String} {K : Set Key} {f : Follower} {limit : Nat} {turns : List (List Call)}

/-- Nothing is behind the head of a feed. -/
theorem behind_headSeq {db : Db} {feed : Option String} {cursor : Nat} (h : headSeq feed db ≤ cursor) :
    Changefeed.behind Change.seq cursor (db.feedOf feed) = [] := by
  refine List.filter_eq_nil_iff.2 fun e he => ?_
  rw [decide_eq_true_eq, not_lt]
  exact (List.le_max?_getD_of_mem (List.mem_map_of_mem he)).trans h

theorem applied_sublist (ps : List PulledChange) :
    ((ps.filterMap PulledChange.applied).map Prod.fst).Sublist ((ps.map (·.change)).map Change.key) := by
  induction ps with
  | nil => exact List.Sublist.slnil
  | cons p ps ih =>
    rw [List.filterMap_cons, List.map_cons, List.map_cons]
    cases hp : p.applied with
    | none => exact ih.cons _
    | some c =>
      have hkey : c.1 = p.change.key := by
        unfold PulledChange.applied at hp
        split at hp
        · cases hp
          rfl
        · obtain ⟨row, -, rfl⟩ := Option.map_eq_some_iff.1 hp
          rfl
      rw [List.map_cons, hkey]
      exact ih.cons_cons _

/-- A reader that follows a trip has every row that no entry behind its cursor is about. -/
structure Following (tripID : String) (K : Set Key) (f : Follower) : Prop where
  ordered : f.store.db.LogOrdered
  truthful : Marked (some tripID) K 0 f.store.db
  cursor : f.cursor ≤ f.store.db.lastSeq
  upToDate : Changefeed.UpToDate Change.seq Change.key K (f.store.db.feedOf (some tripID)) f.cursor
    (fun k => loadSnapshot k f.store.db) f.replica

theorem loadSnapshot_congr {db db' : Db} {k : Key} (h : db'.rows.lookup k = db.rows.lookup k) :
    loadSnapshot k db' = loadSnapshot k db := by
  rw [loadSnapshot, loadSnapshot, loadRow, loadRow, h]

theorem loadSnapshot_eq_none {db : Db} {k : Key} : loadSnapshot k db = none ↔ db.rows.lookup k = none := by
  rw [loadSnapshot, loadRow]
  cases db.rows.lookup k <;> simp

theorem Following.calls {τ : Server} (h : Following tripID K f) (hτ : Announces (some tripID) K f.store τ) :
    Following tripID K { f with store := τ } where
  ordered := hτ.ordered
  truthful := hτ.truthful
  cursor := h.cursor.trans hτ.le
  upToDate := h.upToDate.write hτ.front.subset fun k hk hne => by
    obtain ⟨e, he, hkey, hlt⟩ := hτ.told k hk fun hsame => hne (loadSnapshot_congr hsame)
    exact ⟨e, he, hkey, h.cursor.trans_lt hlt⟩

/-- The last entry about a row says what the row is in the end, if it was read since. -/
theorem applied_of_last {σ τ : Server} {p : PulledChange} (hτ : Announces (some tripID) K σ τ) (hk : p.change.key ∈ K)
    (hseq : 0 < p.change.seq ∧ p.change.seq ≤ σ.db.lastSeq) (hmem : p.change ∈ τ.db.feedOf (some tripID))
    (hlast : ∀ e ∈ τ.db.feedOf (some tripID), e.key = p.change.key → e.seq ≤ p.change.seq)
    (hrow : p.row = if p.change.deleted then none else loadSnapshot p.change.key σ.db) :
    p.applied = some (p.change.key, loadSnapshot p.change.key τ.db) := by
  have hmarked := hτ.truthful p.change.key hk p.change hmem rfl hseq.1 hlast
  have hsame : loadSnapshot p.change.key τ.db = loadSnapshot p.change.key σ.db := by
    refine loadSnapshot_congr ?_
    by_contra hne
    obtain ⟨e, he, hkey, hlt⟩ := hτ.told p.change.key hk hne
    exact absurd (hlast e he hkey) (not_le.2 (hseq.2.trans_lt hlt))
  unfold PulledChange.applied
  split
  · next hdeleted => rw [loadSnapshot_eq_none.2 (hmarked.1 hdeleted)]
  · next hdeleted =>
    rw [if_neg hdeleted, ← hsame] at hrow
    obtain ⟨row, hsome⟩ := Option.ne_none_iff_exists'.1 (mt loadSnapshot_eq_none.1 (mt hmarked.2 hdeleted))
    rw [hrow, hsome]
    rfl

/-- A page that others write behind leaves the reader up to date with the server as it is in the end. -/
theorem Following.pulled (h : Following tripID K f) (hturns : Told tripID K f (.pull limit turns)) :
    Following tripID K (f.step tripID (.pull limit turns)).2 := by
  obtain ⟨calls, ⟨rest, hrest⟩, hafter, hpaged⟩ := pullRows_paged tripVisible
    (Changefeed.compact Change.seq Change.key (f.store.db.pageOf (some tripID) f.cursor limit)) turns f.store
  have hall : server.Legal (Announced (some tripID) K) f.store turns.flatten := hturns
  rw [← hrest] at hall
  have hcalls := hall.append_left
  have hτ := announces_after h.ordered h.truthful hcalls
  have hbehind : ∀ e ∈ f.store.db.pageOf (some tripID) f.cursor limit,
      e ∈ f.store.db.feedOf (some tripID) ∧ f.cursor < e.seq := fun e he =>
    Changefeed.mem_behind.1 (List.mem_of_mem_take he)
  have hold : ∀ e ∈ f.store.db.pageOf (some tripID) f.cursor limit, e.seq ≤ f.store.db.lastSeq := fun e he =>
    h.ordered.le e (List.mem_filter.1 (hbehind e he).1).1
  have hsorted : (f.store.db.pageOf (some tripID) f.cursor limit).Pairwise (Change.seq · < Change.seq ·) :=
    ((h.ordered.feedOf _).filter _).sublist (List.take_sublist _ _)
  have hfront : f.store.db.pageOf (some tripID) f.cursor limit <+:
      Changefeed.behind Change.seq f.cursor ((server.after f.store calls).db.feedOf (some tripID)) :=
    (List.take_prefix _ _).trans (hτ.front.filter _)
  simp only [Follower.step, pull]
  rw [pullPage_eq, hafter]
  refine ⟨hτ.ordered, hτ.truthful, (Changefeed.next_le h.cursor hold).trans hτ.le, ?_⟩
  refine (h.calls hτ).upToDate.pull (hτ.ordered.feedOf _) hfront ?_ fun e he hk hlast hkept => ?_
  · exact (applied_sublist _).trans (hpaged.sublist.map Change.key)
  · have hpage := ((Changefeed.mem_compact hsorted).1 hkept).1
    obtain ⟨p, hp, rfl⟩ := List.mem_map.1 (hpaged.all_of_trip e hkept)
    obtain ⟨pre, mid, post, rfl, -, hrow⟩ := hpaged.read p hp
    have hpre := announces_after h.ordered h.truthful hcalls.append_left
    have hpost : Announces (some tripID) K (server.after f.store (pre ++ mid))
        (server.after f.store (pre ++ mid ++ post)) := by
      have happend : server.after f.store (pre ++ mid ++ post) =
          server.after (server.after f.store (pre ++ mid)) post := Machine.after_append _
      rw [happend]
      exact announces_after hpre.ordered hpre.truthful hcalls.append_right
    exact List.mem_filterMap.2 ⟨p, hp, applied_of_last hpost hk
      ⟨(Nat.zero_le _).trans_lt (hbehind _ hpage).2, (hold _ hpage).trans hpre.le⟩ he hlast hrow⟩

theorem Following.step {i : FollowStep} (h : Following tripID K f) (hi : Told tripID K f i) :
    Following tripID K (f.step tripID i).2 := by
  cases i with
  | call c =>
    have hlegal : server.Legal (Announced (some tripID) K) f.store [c] :=
      Machine.legal_cons.2 ⟨hi, Machine.legal_nil⟩
    exact h.calls (announces_after h.ordered h.truthful hlegal)
  | pull limit turns => exact h.pulled hi

/-- A reader that has never pulled. -/
def Follower.start (g : Generator) : Follower := ⟨.fresh g, 0, fun _ => none⟩

theorem following_start (g : Generator) : Following tripID K (.start g) where
  ordered := logOrdered_after g []
  truthful k hk e he := by cases he
  cursor := le_rfl
  upToDate k hk := .inr rfl

/-- A pull that nobody writes behind takes a page off what the reader has not seen. -/
theorem Follower.step_quiet (h : f.store.db.LogOrdered) :
    (f.step tripID (.pull limit [])).2.store = f.store ∧
    Changefeed.behind Change.seq (f.step tripID (.pull limit [])).2.cursor (f.store.db.feedOf (some tripID)) =
      (Changefeed.behind Change.seq f.cursor (f.store.db.feedOf (some tripID))).drop limit := by
  obtain ⟨calls, hcalls, hafter, -⟩ := pullRows_paged tripVisible
    (Changefeed.compact Change.seq Change.key (f.store.db.pageOf (some tripID) f.cursor limit)) [] f.store
  obtain rfl : calls = [] := List.prefix_nil.1 hcalls
  simp only [Follower.step, pull]
  rw [pullPage_eq, hafter]
  refine ⟨rfl, ?_⟩
  have hsplit : Changefeed.behind Change.seq f.cursor (f.store.db.feedOf (some tripID)) =
      f.store.db.pageOf (some tripID) f.cursor limit ++ _ :=
    Changefeed.behind_eq (h.feedOf (some tripID)) (List.take_prefix limit _)
  refine List.append_cancel_left (hsplit.symm.trans ?_)
  exact (List.take_append_drop limit _).symm

/-- With as many pages as there are entries for, the reader has seen it all. -/
theorem Following.pulls (h : Following tripID K f) (n : Nat)
    (hn : (Changefeed.behind Change.seq f.cursor (f.store.db.feedOf (some tripID))).length ≤ n * limit) :
    ((following tripID).after f (List.replicate n (.pull limit []))).store = f.store ∧
    ∀ k ∈ K,
      ((following tripID).after f (List.replicate n (.pull limit []))).replica k = loadSnapshot k f.store.db := by
  induction n generalizing f with
  | zero =>
    rw [Nat.zero_mul, Nat.le_zero, List.length_eq_zero_iff] at hn
    exact ⟨rfl, fun k hk => h.upToDate.eq hn hk⟩
  | succ n ih =>
    have hstep : Following tripID K (f.step tripID (.pull limit [])).2 := h.step (i := .pull limit []) Machine.legal_nil
    obtain ⟨hstore, hbehind⟩ : (f.step tripID (.pull limit [])).2.store = f.store ∧ _ := Follower.step_quiet h.ordered
    rw [List.replicate_succ, Machine.after_cons]
    rw [Nat.succ_mul] at hn
    have hrest := ih hstep (by rw [hstore, hbehind, List.length_drop]; omega)
    rwa [hstore] at hrest

end

/-- **A reader that follows a trip ends with the rows of the server**, whatever was called before and between the reads
of its pages, as long as the feed tells of every row: it has them when its cursor is at the head, after a pull that says
that there is no more, and after as many pulls as there are pages. -/
theorem follower_converges (g : Generator) (tripID : String) (K : Set Key) (is : List FollowStep) (limit : Nat)
    (htold : (following tripID).Legal (Told tripID K) (.start g) is) :
    let f := (following tripID).after (.start g) is
    (headSeq (some tripID) f.store.db ≤ f.cursor → ∀ k ∈ K, f.replica k = loadSnapshot k f.store.db) ∧
    ((pull tripID f.cursor limit [] f.store).1.hasMore = false →
      ∀ k ∈ K, ((following tripID).after f [.pull limit []]).replica k = loadSnapshot k f.store.db) ∧
    ∀ n, (Changefeed.behind Change.seq f.cursor (f.store.db.feedOf (some tripID))).length ≤ n * limit →
      ((following tripID).after f (List.replicate n (.pull limit []))).store = f.store ∧
      ∀ k ∈ K, ((following tripID).after f (List.replicate n (.pull limit []))).replica k =
        loadSnapshot k f.store.db := by
  intro f
  have h : Following tripID K f :=
    (following tripID).after_invariant (fun _ _ hi h => h.step hi) (following_start g) htold
  refine ⟨fun hhead k hk => h.upToDate.eq (behind_headSeq hhead) hk, fun hmore => ?_, h.pulls⟩
  rw [pull, pullPage_eq, decide_eq_false_iff_not, not_lt] at hmore
  exact (h.pulls 1 (by rwa [Nat.one_mul])).2

/-- Calls, and then a pull that others write behind. -/
theorem told_pull {g : Generator} {tripID : String} {K : Set Key} {calls : List Call} {limit : Nat}
    {turns : List (List Call)} (h : server.Legal (Announced (some tripID) K) (.fresh g) (calls ++ turns.flatten)) :
    (following tripID).Legal (Told tripID K) (.start g) (calls.map .call ++ [.pull limit turns]) := by
  have hall (σ : Server) (hσ : server.Legal (Announced (some tripID) K) σ (calls ++ turns.flatten)) :
      (following tripID).Legal (Told tripID K) ⟨σ, 0, fun _ => none⟩ (calls.map .call ++ [.pull limit turns]) := by
    clear h
    induction calls generalizing σ with
    | nil => exact Machine.legal_cons.2 ⟨hσ, Machine.legal_nil⟩
    | cons c calls ih =>
      rw [List.cons_append, Machine.legal_cons] at hσ
      exact Machine.legal_cons.2 ⟨hσ.1, ih _ hσ.2⟩
  exact hall _ h

/-- Someone makes a trip and a row of it, and changes the row before it is read for the first page. -/
theorem told_row {g : Generator} {tripID : String} {key : Key} {calls : List Call} {put change : Call} {limit : Nat}
    (hquiet : ∀ n < calls.length + 1, (server.after (.fresh g) (calls.take n)).db.feedOf (some tripID) = [] ∧
      (server.after (.fresh g) (calls.take n)).db.rows.lookup key = none)
    (hput : ∃ userID m, put.request = .push tripID userID m ∧ put.request.target = some key)
    (hchange : ∃ userID m, change.request = .push tripID userID m ∧ change.request.target = some key) :
    (following tripID).Legal (Told tripID {key}) (.start g)
      ((calls ++ [put]).map .call ++ [.pull limit [[], [change]]]) := by
  refine told_pull ?_
  rw [List.append_assoc]
  refine legal_announced (logOrdered_after g []) hquiet fun c hc => ?_
  rcases List.mem_cons.1 hc with rfl | hc
  · exact hput
  · obtain rfl : c = change := by simpa using hc
    exact hchange

/-- The tent of Ann's trip. -/
def putTent : Call :=
  .trip "T1" "ann" (.plain 2 .insert .tripItems "i1" [("trip_id", .str "T1"), ("name", .str "Tent")])

/-- She renames it. -/
def renameTent : Call := .trip "T1" "ann" (.plain 3 .upsert .tripItems "i1" [("name", .str "Big tent")])

/-- Ben follows the trip, and the tent is renamed while he pulls it. -/
theorem ben_follows :
    let is := (annsTrip ++ [putTent]).map .call ++ [.pull 10 [[], [renameTent]]]
    let f := (following "T1").after (.start .plain) is
    (headSeq (some "T1") f.store.db ≤ f.cursor →
      ∀ k ∈ ({⟨.tripItems, "i1"⟩} : Set Key), f.replica k = loadSnapshot k f.store.db) ∧
    ((pull "T1" f.cursor 10 [] f.store).1.hasMore = false →
      ∀ k ∈ ({⟨.tripItems, "i1"⟩} : Set Key),
        ((following "T1").after f [.pull 10 []]).replica k = loadSnapshot k f.store.db) ∧
    ∀ n, (Changefeed.behind Change.seq f.cursor (f.store.db.feedOf (some "T1"))).length ≤ n * 10 →
      ((following "T1").after f (List.replicate n (.pull 10 []))).store = f.store ∧
      ∀ k ∈ ({⟨.tripItems, "i1"⟩} : Set Key),
        ((following "T1").after f (List.replicate n (.pull 10 []))).replica k = loadSnapshot k f.store.db :=
  follower_converges .plain "T1" {⟨.tripItems, "i1"⟩} _ 10
    (told_row (by decide +kernel) ⟨"ann", _, rfl, rfl⟩ ⟨"ann", _, rfl, rfl⟩)

end JitPack
