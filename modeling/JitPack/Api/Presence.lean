import JitPack.Api.Hub

/-!
# Who is there

What the last presence frame and the last roster of a connection say, once nothing is on its way any more. The
roster is always right. A presence broadcast reads its subscribers before it takes its generation, and while it
does, another one may read more subscribers and take a generation before it: then the newest frame is the one
with the older list. `settles_after` proves that this is the only thing that can go wrong.
-/

namespace JitPack

variable {κ υ τ : Type} [DecidableEq υ] [DecidableEq τ]

/-- The frames of a trip's presence. -/
def Queued.ofTrip (trip : τ) (f : Queued υ τ) : Bool :=
  match f.event with
  | .presence t _ _ => t = trip
  | _ => false

/-- The rosters. -/
def Queued.isRoster (f : Queued υ τ) : Bool :=
  match f.event with
  | .roster _ => true
  | _ => false

/-- The users that a presence frame lists, each with the number of its devices. -/
def Event.devices : Event υ τ → Finset (υ × Nat)
  | .presence _ _ users => users.image fun m => (m.userID, m.deviceCount)
  | _ => ∅

/-- What a roster lists. -/
def Event.members : Event υ τ → Finset (RosterMember υ τ)
  | .roster users => users
  | _ => ∅

namespace Hub

variable (user : κ → υ) (may : τ → υ → Bool) (hub : Hub κ υ τ)

/-- The users among the targets, each with the number of its devices. -/
def devicesOf (targets : Finset κ) : Finset (υ × Nat) :=
  (targets.image user).image fun u => (u, (targets.filter (user · = u)).card)

/-- Nothing is on its way: no operation is running and every pump has written its queue. -/
def Quiet : Prop :=
  (∀ tasks ∈ hub.running, tasks = []) ∧ ∀ c ∈ hub.conns, (hub.conn c).done = false → (hub.conn c).out = []

/-- No frame built from an older view was delivered after one built from a newer view. -/
def InOrder : Prop := ∀ c,
  (∀ trip, ((hub.conn c).sent.filter (·.ofTrip trip)).Pairwise fun f f' => f.view ≤ f'.view) ∧
  ((hub.conn c).sent.filter (·.isRoster)).Pairwise fun f f' => f.view ≤ f'.view

/-- The last frame delivered to each connection that is still there describes the hub as it is. A connection
that was sent no roster has an empty one. -/
def Settled : Prop := ∀ c ∈ hub.conns, (hub.conn c).done = false →
  (∀ trip ∈ (hub.conn c).trips, may trip (user c) = true →
    ∃ f, ((hub.conn c).sent.filter (·.ofTrip trip)).getLast? = some f ∧
      f.event.devices = devicesOf user (hub.subscribersOf user may trip)) ∧
  (((hub.conn c).sent.filter (·.isRoster)).getLast?.map (·.event.members)).getD ∅ =
    rosterMembers may (hub.viewing user) (user c)

end Hub

/-- A presence broadcast that takes a generation has read the subscribers no earlier than any that took one
before it. -/
def HubCall.Ordered (hub : Hub κ υ τ) : HubCall κ τ → Prop
  | .turn i _ _ => ∀ trip targets view rest,
      hub.running[i]? = some (.numberPresence trip targets view :: rest) →
      (hub.presenceGen trip).viewOf (hub.presenceGen trip).gen ≤ view
  | _ => True

namespace Hub

section
variable {user : κ → υ} {may : τ → υ → Bool} {hub hub' : Hub κ υ τ} {c : κ} {trip : τ} {task : Task κ υ τ}

/-! ## Later states -/

/-- A later state: whatever a view was taken of is as it was, or newer. -/
structure Later (user : κ → υ) (may : τ → υ → Bool) (hub hub' : Hub κ υ τ) : Prop where
  changes : ∀ trip, hub'.changes trip = hub.changes trip ∧
    hub'.subscribersOf user may trip = hub.subscribersOf user may trip ∨ hub.changes trip < hub'.changes trip
  moves : hub'.moves = hub.moves ∧ hub'.viewing user = hub.viewing user ∨ hub.moves < hub'.moves
  presenceGen : ∀ trip, (hub.presenceGen trip).Extends (hub'.presenceGen trip)
  rosterGen : hub.rosterGen.Extends hub'.rosterGen
  used : hub.used ⊆ hub'.used

theorem Later.changes_le (h : Later user may hub hub') (trip : τ) : hub.changes trip ≤ hub'.changes trip := by
  rcases h.changes trip with ⟨heq, -⟩ | hlt <;> omega

theorem Later.moves_le (h : Later user may hub hub') : hub.moves ≤ hub'.moves := by
  rcases h.moves with ⟨heq, -⟩ | hlt <;> omega

/-- What a view was taken of, where it is still the present view. -/
theorem Later.subscribers (h : Later user may hub hub') {view : Nat} (hle : view ≤ hub.changes trip)
    (hview : view = hub'.changes trip) : view = hub.changes trip ∧
      hub'.subscribersOf user may trip = hub.subscribersOf user may trip := by
  rcases h.changes trip with ⟨heq, hsame⟩ | hlt
  · exact ⟨hview.trans heq, hsame⟩
  · omega

theorem Later.viewing (h : Later user may hub hub') {view : Nat} (hle : view ≤ hub.moves)
    (hview : view = hub'.moves) : view = hub.moves ∧ hub'.viewing user = hub.viewing user := by
  rcases h.moves with ⟨heq, hsame⟩ | hlt
  · exact ⟨hview.trans heq, hsame⟩
  · omega

/-! ## The invariant -/

/-- A task holds a view that was taken, and the number that was given to it. -/
def TaskOk (user : κ → υ) (may : τ → υ → Bool) (hub : Hub κ υ τ) : Task κ υ τ → Prop
  | .presence _ => True
  | .numberPresence trip targets view => view ≤ hub.changes trip ∧
      (view = hub.changes trip → targets = hub.subscribersOf user may trip)
  | .sendPresence trip targets view gen _ => 0 < gen ∧ gen ≤ (hub.presenceGen trip).gen ∧
      (hub.presenceGen trip).viewOf gen = view ∧ view ≤ hub.changes trip ∧
      (view = hub.changes trip → targets = hub.subscribersOf user may trip)
  | .roster _ => True
  | .sendRoster _ view gen viewing targets => 0 < gen ∧ gen ≤ hub.rosterGen.gen ∧ hub.rosterGen.viewOf gen = view ∧
      view ≤ hub.moves ∧ (view = hub.moves → viewing = hub.viewing user) ∧ targets ⊆ hub.used

/-- What a connection was sent of one kind: a newer frame after an older one, and of the present view the truth. -/
structure Sent {α : Type} (n : Numbering) (version taken : Nat) (frames : List (Queued υ τ)) (lost : Bool)
    (read : Event υ τ → α) (truth : α) : Prop where
  guarded : Guarded Queued.gen Queued.view n taken frames lost
  truth : ∀ f ∈ frames, f.view = version → read f.event = truth

/-- The presence frames of a trip, of a connection. -/
def PresenceSent (user : κ → υ) (may : τ → υ → Bool) (hub : Hub κ υ τ) (conn : Conn υ τ) (trip : τ) : Prop :=
  Sent (hub.presenceGen trip) (hub.changes trip) (conn.presenceSent trip) (conn.frames.filter (·.ofTrip trip)) conn.done
    Event.devices (devicesOf user (hub.subscribersOf user may trip))

/-- The rosters, of a connection. -/
def RosterSent (user : κ → υ) (may : τ → υ → Bool) (hub : Hub κ υ τ) (c : κ) (conn : Conn υ τ) : Prop :=
  Sent hub.rosterGen hub.moves conn.rosterSent (conn.frames.filter (·.isRoster)) conn.done Event.members
    (rosterMembers may (hub.viewing user) (user c))

/-- What every run keeps, whoever is told. -/
structure Sound (user : κ → υ) (may : τ → υ → Bool) (hub : Hub κ υ τ) : Prop where
  used : hub.conns ⊆ hub.used
  presence : ∀ trip, (hub.presenceGen trip).Ordered (hub.changes trip)
  roster : hub.rosterGen.Ordered hub.moves
  tasks : ∀ tasks ∈ hub.running, ∀ task ∈ tasks, TaskOk user may hub task
  presenceSent : ∀ c trip, PresenceSent user may hub (hub.conn c) trip
  rosterSent : ∀ c, RosterSent user may hub c (hub.conn c)

/-- A task that is still to be done. -/
def Pending (hub : Hub κ υ τ) (task : Task κ υ τ) : Prop := ∃ tasks ∈ hub.running, task ∈ tasks

/-- A task that will tell the present subscribers of a trip. -/
def Tells (hub : Hub κ υ τ) (trip : τ) : Task κ υ τ → Prop
  | .presence t => t = trip
  | .numberPresence t _ view => t = trip ∧ view = hub.changes trip
  | .sendPresence t _ view _ _ => t = trip ∧ view = hub.changes trip
  | _ => False

/-- A connection was told who is there, or will be. -/
def Told (hub : Hub κ υ τ) (c : κ) (trip : τ) : Prop :=
  (∃ f ∈ (hub.conn c).frames.filter (·.ofTrip trip), f.view = hub.changes trip) ∨
    ∃ task, hub.Pending task ∧ hub.Tells trip task

/-- A task that will send everybody the present roster, and the connection too. -/
def Shows (hub : Hub κ υ τ) (c : κ) : Task κ υ τ → Prop
  | .roster none => True
  | .sendRoster none view _ _ targets => view = hub.moves ∧ c ∈ targets
  | _ => False

/-- A task that will send the connection alone the present roster, if that lists somebody. -/
def Greets (hub : Hub κ υ τ) (c : κ) : Task κ υ τ → Prop
  | .roster (some d) => d = c
  | .sendRoster (some _) view _ _ targets => view = hub.moves ∧ c ∈ targets
  | _ => False

/-- A connection was sent no roster. None is on its way to it but of the present one, and if that lists somebody,
it is on its way. -/
structure Unshown (user : κ → υ) (may : τ → υ → Bool) (hub : Hub κ υ τ) (c : κ) : Prop where
  none_sent : (hub.conn c).frames.filter (·.isRoster) = []
  present : ∀ only view gen viewing targets, hub.Pending (.sendRoster only view gen viewing targets) → c ∈ targets →
    view = hub.moves
  greeted : rosterMembers may (hub.viewing user) (user c) = ∅ ∨ ∃ task, hub.Pending task ∧ hub.Greets c task

/-- A connection was shown the roster, or will be, or has nobody to be shown. -/
def Shown (user : κ → υ) (may : τ → υ → Bool) (hub : Hub κ υ τ) (c : κ) : Prop :=
  (∃ f ∈ (hub.conn c).frames.filter (·.isRoster), f.view = hub.moves) ∨ (∃ task, hub.Pending task ∧ hub.Shows c task) ∨
    Unshown user may hub c

/-- What every run keeps. -/
structure Kept (user : κ → υ) (may : τ → υ → Bool) (hub : Hub κ υ τ) : Prop extends Sound user may hub where
  told : ∀ c ∈ hub.conns, (hub.conn c).done = false → ∀ trip ∈ (hub.conn c).trips, may trip (user c) = true →
    hub.Told c trip
  shown : ∀ c ∈ hub.conns, (hub.conn c).done = false → Shown user may hub c

/-! ## What a later state keeps -/

theorem TaskOk.later (hl : Later user may hub hub') (h : TaskOk user may hub task) : TaskOk user may hub' task := by
  cases task with
  | presence trip => trivial
  | numberPresence trip targets view =>
    refine ⟨h.1.trans (hl.changes_le trip), fun hview => ?_⟩
    obtain ⟨hold, hsame⟩ := hl.subscribers h.1 hview
    rw [h.2 hold, hsame]
  | sendPresence trip targets view gen cursors =>
    obtain ⟨hpos, hgen, hviewOf, hle, htargets⟩ := h
    refine ⟨hpos, hgen.trans (hl.presenceGen trip).le, ?_, hle.trans (hl.changes_le trip), fun hview => ?_⟩
    · rw [(hl.presenceGen trip).same gen hgen, hviewOf]
    · obtain ⟨hold, hsame⟩ := hl.subscribers hle hview
      rw [htargets hold, hsame]
  | roster only => trivial
  | sendRoster only view gen viewing targets =>
    obtain ⟨hpos, hgen, hviewOf, hle, hviewing, hused⟩ := h
    refine ⟨hpos, hgen.trans hl.rosterGen.le, ?_, hle.trans hl.moves_le, fun hview => ?_, hused.trans hl.used⟩
    · rw [hl.rosterGen.same gen hgen, hviewOf]
    · obtain ⟨hold, hsame⟩ := hl.viewing hle hview
      rw [hviewing hold, hsame]

omit [DecidableEq υ] [DecidableEq τ] in
theorem Sent.later {α : Type} {n n' : Numbering} {version version' taken : Nat} {frames : List (Queued υ τ)}
    {lost lost' : Bool} {read : Event υ τ → α} {truth truth' : α} (h : Sent n version taken frames lost read truth)
    (hn : n.Ordered version) (hext : n.Extends n') (hlost : lost' = false → lost = false)
    (hver : version' = version ∧ truth' = truth ∨ version < version') :
    Sent n' version' taken frames lost' read truth' := by
  refine ⟨(h.guarded.extends hext).gone hlost, fun f hf hview => ?_⟩
  rcases hver with ⟨rfl, rfl⟩ | hlt
  · exact h.truth f hf hview
  · have hle := hn.le _ ((h.guarded.views f hf).1.trans h.guarded.le)
    rw [← (h.guarded.views f hf).2] at hle
    omega

/-- A connection that was sent nothing of the two kinds. -/
structure SameQueue (conn conn' : Conn υ τ) : Prop where
  presence : ∀ trip, conn'.frames.filter (·.ofTrip trip) = conn.frames.filter (·.ofTrip trip)
  roster : conn'.frames.filter (·.isRoster) = conn.frames.filter (·.isRoster)
  presenceSent : conn'.presenceSent = conn.presenceSent
  rosterSent : conn'.rosterSent = conn.rosterSent
  done : conn'.done = false → conn.done = false

omit [DecidableEq υ] in
theorem SameQueue.of_frames {conn conn' : Conn υ τ} (hframes : conn'.frames = conn.frames)
    (hpresence : conn'.presenceSent = conn.presenceSent) (hroster : conn'.rosterSent = conn.rosterSent)
    (hdone : conn'.done = false → conn.done = false) : SameQueue conn conn' :=
  ⟨fun _ => by rw [hframes], by rw [hframes], hpresence, hroster, hdone⟩

theorem PresenceSent.later {conn conn' : Conn υ τ} (h : PresenceSent user may hub conn trip)
    (hn : (hub.presenceGen trip).Ordered (hub.changes trip)) (hl : Later user may hub hub')
    (hsame : SameQueue conn conn') : PresenceSent user may hub' conn' trip := by
  unfold PresenceSent
  rw [hsame.presence, hsame.presenceSent]
  exact Sent.later h hn (hl.presenceGen trip) hsame.done
    ((hl.changes trip).imp_left fun hsubs => ⟨hsubs.1, by rw [hsubs.2]⟩)

theorem RosterSent.later {conn conn' : Conn υ τ} (h : RosterSent user may hub c conn)
    (hn : hub.rosterGen.Ordered hub.moves) (hl : Later user may hub hub') (hsame : SameQueue conn conn') :
    RosterSent user may hub' c conn' := by
  unfold RosterSent
  rw [hsame.roster, hsame.rosterSent]
  exact Sent.later h hn hl.rosterGen hsame.done (hl.moves.imp_left fun hview => ⟨hview.1, by rw [hview.2]⟩)

omit [DecidableEq υ] [DecidableEq τ] in
theorem Sent.nil {α : Type} {n : Numbering} {version : Nat} {lost : Bool} {read : Event υ τ → α} {truth : α} :
    Sent n version 0 [] lost read truth := ⟨.nil, nofun⟩

/-! ## Tasks of an unchanged view -/

omit [DecidableEq υ] [DecidableEq τ] in
theorem Tells.later (h : hub.Tells trip task) (hchanges : hub'.changes trip = hub.changes trip) :
    hub'.Tells trip task := by
  cases task with
  | presence t => exact h
  | numberPresence t targets view => exact ⟨h.1, h.2.trans hchanges.symm⟩
  | sendPresence t targets view gen cursors => exact ⟨h.1, h.2.trans hchanges.symm⟩
  | roster only => exact h
  | sendRoster only view gen viewing targets => exact h

omit [DecidableEq υ] [DecidableEq τ] in
theorem Shows.later (h : hub.Shows c task) (hmoves : hub'.moves = hub.moves) : hub'.Shows c task := by
  cases task with
  | presence t => exact h
  | numberPresence t targets view => exact h
  | sendPresence t targets view gen cursors => exact h
  | roster only => cases only <;> exact h
  | sendRoster only view gen viewing targets =>
    cases only with
    | none => exact ⟨h.1.trans hmoves.symm, h.2⟩
    | some d => exact h

omit [DecidableEq υ] [DecidableEq τ] in
theorem Greets.later (h : hub.Greets c task) (hmoves : hub'.moves = hub.moves) : hub'.Greets c task := by
  cases task with
  | presence t => exact h
  | numberPresence t targets view => exact h
  | sendPresence t targets view gen cursors => exact h
  | roster only => cases only <;> exact h
  | sendRoster only view gen viewing targets =>
    cases only with
    | none => exact h
    | some d => exact ⟨h.1.trans hmoves.symm, h.2⟩

/-! ## Operations that start -/

/-- What a call does that makes no step of a running operation: it may start one. -/
structure Starts (user : κ → υ) (may : τ → υ → Bool) (hub hub' : Hub κ υ τ) (tasks : List (Task κ υ τ)) : Prop where
  later : Later user may hub hub'
  gens : hub'.presenceGen = hub.presenceGen ∧ hub'.rosterGen = hub.rosterGen
  used : hub'.conns ⊆ hub'.used
  conn : ∀ c, SameQueue (hub.conn c) (hub'.conn c) ∨ hub'.conn c = newConn ∧ c ∉ hub.used
  conns : ∀ c ∈ hub'.conns, c ∈ hub.conns ∨ hub'.conn c = newConn ∧ c ∉ hub.used ∧ .roster (some c) ∈ tasks
  running : hub'.running = hub.running ∧ tasks = [] ∨ hub'.running = hub.running ++ [tasks]
  plain : ∀ task ∈ tasks, (∃ trip, task = .presence trip) ∨ ∃ only, task = .roster only
  changed : ∀ trip, hub.changes trip < hub'.changes trip → .presence trip ∈ tasks
  moved : hub.moves < hub'.moves → .roster none ∈ tasks

section
variable {tasks : List (Task κ υ τ)}

theorem Starts.pending_iff (h : Starts user may hub hub' tasks) :
    hub'.Pending task ↔ hub.Pending task ∨ task ∈ tasks := by
  unfold Pending
  rcases h.running with ⟨hrunning, rfl⟩ | hrunning
  · simp [hrunning]
  · rw [hrunning]
    constructor
    · rintro ⟨old, hold, hmem⟩
      rcases List.mem_append.1 hold with hold | hold
      · exact .inl ⟨old, hold, hmem⟩
      · exact .inr (List.mem_singleton.1 hold ▸ hmem)
    · rintro (⟨old, hold, hmem⟩ | hmem)
      · exact ⟨old, List.mem_append_left _ hold, hmem⟩
      · exact ⟨tasks, List.mem_append_right _ (List.mem_singleton_self _), hmem⟩

theorem Starts.sound (hs : Starts user may hub hub' tasks) (h : Sound user may hub) : Sound user may hub' where
  used := hs.used
  presence trip := by
    rw [hs.gens.1]
    exact (h.presence trip).later (hs.later.changes_le trip)
  roster := by
    rw [hs.gens.2]
    exact h.roster.later hs.later.moves_le
  tasks old hold task hmem := by
    rcases hs.pending_iff.1 ⟨old, hold, hmem⟩ with ⟨old, hold, hmem⟩ | hmem
    · exact TaskOk.later hs.later (h.tasks old hold task hmem)
    · rcases hs.plain task hmem with ⟨trip, rfl⟩ | ⟨only, rfl⟩ <;> trivial
  presenceSent c trip := by
    rcases hs.conn c with hsame | ⟨hnew, -⟩
    · exact (h.presenceSent c trip).later (h.presence trip) hs.later hsame
    · rw [hnew]
      exact Sent.nil
  rosterSent c := by
    rcases hs.conn c with hsame | ⟨hnew, -⟩
    · exact (h.rosterSent c).later h.roster hs.later hsame
    · rw [hnew]
      exact Sent.nil

theorem Starts.told (hs : Starts user may hub hub' tasks) (h : Kept user may hub) (hc : c ∈ hub'.conns)
    (hdone : (hub'.conn c).done = false) (htrip : trip ∈ (hub'.conn c).trips) (hmay : may trip (user c) = true) :
    hub'.Told c trip := by
  rcases hs.later.changes trip with ⟨hchanges, hsubs⟩ | hlt
  · rcases hs.conn c with hsame | ⟨hnew, -⟩
    · have hmem : c ∈ hub.subscribersOf user may trip := by
        rw [← hsubs]
        exact Finset.mem_filter.2 ⟨hc, htrip, hmay⟩
      obtain ⟨hold, htrip', -⟩ := Finset.mem_filter.1 hmem
      rcases h.told c hold (hsame.done hdone) trip htrip' hmay with ⟨f, hf, hview⟩ | ⟨task, hpending, htells⟩
      · exact .inl ⟨f, hsame.presence trip ▸ hf, hview.trans hchanges.symm⟩
      · exact .inr ⟨task, hs.pending_iff.2 (.inl hpending), htells.later hchanges⟩
    · rw [hnew] at htrip
      exact absurd htrip (Finset.notMem_empty _)
  · exact .inr ⟨.presence trip, hs.pending_iff.2 (.inr (hs.changed trip hlt)), rfl⟩

theorem Starts.shown (hs : Starts user may hub hub' tasks) (h : Kept user may hub) (hc : c ∈ hub'.conns)
    (hdone : (hub'.conn c).done = false) : Shown user may hub' c := by
  rcases hs.later.moves with ⟨hmoves, hviewing⟩ | hlt
  · rcases hs.conns c hc with hold | ⟨hnew, hunused, hgreet⟩
    · rcases hs.conn c with hsame | ⟨-, hunused⟩
      · rcases h.shown c hold (hsame.done hdone) with ⟨f, hf, hview⟩ | ⟨task, hpending, hshows⟩ | hun
        · exact .inl ⟨f, hsame.roster ▸ hf, hview.trans hmoves.symm⟩
        · exact .inr (.inl ⟨task, hs.pending_iff.2 (.inl hpending), hshows.later hmoves⟩)
        · refine .inr (.inr ⟨hsame.roster ▸ hun.none_sent, fun only view gen viewing targets hp hmem => ?_, ?_⟩)
          · rw [hmoves]
            rcases hs.pending_iff.1 hp with hp | hp
            · exact hun.present only view gen viewing targets hp hmem
            · rcases hs.plain _ hp with ⟨trip, htask⟩ | ⟨only, htask⟩ <;> cases htask
          · rw [hviewing]
            refine hun.greeted.imp_right ?_
            rintro ⟨task, hp, hgreets⟩
            exact ⟨task, hs.pending_iff.2 (.inl hp), hgreets.later hmoves⟩
      · exact absurd (h.used hold) hunused
    · refine .inr (.inr ⟨by rw [hnew]; rfl, fun only view gen viewing targets hp hmem => ?_, .inr ?_⟩)
      · rcases hs.pending_iff.1 hp with ⟨old, hold, hp⟩ | hp
        · exact absurd ((h.tasks old hold _ hp).2.2.2.2.2 hmem) hunused
        · rcases hs.plain _ hp with ⟨trip, htask⟩ | ⟨only, htask⟩ <;> cases htask
      · exact ⟨_, hs.pending_iff.2 (.inr hgreet), rfl⟩
  · exact .inr (.inl ⟨.roster none, hs.pending_iff.2 (.inr (hs.moved hlt)), trivial⟩)

theorem Starts.kept (hs : Starts user may hub hub' tasks) (h : Kept user may hub) : Kept user may hub' where
  toSound := hs.sound h.toSound
  told _ hc hdone _ htrip hmay := hs.told h hc hdone htrip hmay
  shown _ hc hdone := hs.shown h hc hdone

end

/-! ## The calls -/

omit [DecidableEq υ] in
theorem subscribersOf_congr (h : ∀ d, d ∈ hub'.conns ∧ trip ∈ (hub'.conn d).trips ↔
    d ∈ hub.conns ∧ trip ∈ (hub.conn d).trips) : hub'.subscribersOf user may trip = hub.subscribersOf user may trip := by
  ext d
  simp only [subscribersOf, Finset.mem_filter, ← and_assoc, h d]

theorem viewing_congr (h : ∀ d trip, d ∈ hub'.conns ∧ (hub'.conn d).viewing = some trip ↔
    d ∈ hub.conns ∧ (hub.conn d).viewing = some trip) : hub'.viewing user = hub.viewing user := by
  have hmem (hub : Hub κ υ τ) (x : υ × τ) : x ∈ hub.viewing user ↔
      ∃ d trip, (d ∈ hub.conns ∧ (hub.conn d).viewing = some trip) ∧ (user d, trip) = x := by
    simp only [viewing, Finset.mem_biUnion, Option.mem_toFinset, Option.mem_def, Option.map_eq_some_iff]
    constructor
    · rintro ⟨d, hd, trip, htrip, rfl⟩
      exact ⟨d, trip, ⟨hd, htrip⟩, rfl⟩
    · rintro ⟨d, trip, ⟨hd, htrip⟩, rfl⟩
      exact ⟨d, hd, trip, htrip, rfl⟩
  ext x
  simp only [hmem, h]

variable [DecidableEq κ]

/-- A call about one connection that is there. -/
theorem Starts.of_conn {tasks : List (Task κ υ τ)} {conn : Conn υ τ} (hused : hub.conns ⊆ hub.used) (hc : c ∈ hub.conns)
    (hconn : hub'.conn = Function.update hub.conn c conn) (hsame : SameQueue (hub.conn c) conn)
    (hconns : hub'.conns ⊆ hub.conns)
    (hgens : hub'.presenceGen = hub.presenceGen ∧ hub'.rosterGen = hub.rosterGen) (hused' : hub'.used = hub.used)
    (hrunning : hub'.running = hub.running ++ [tasks])
    (hplain : ∀ task ∈ tasks, (∃ trip, task = .presence trip) ∨ ∃ only, task = .roster only)
    (hchanges : ∀ trip, hub'.changes trip = hub.changes trip ∧
        hub'.subscribersOf user may trip = hub.subscribersOf user may trip ∨
      hub.changes trip < hub'.changes trip ∧ .presence trip ∈ tasks)
    (hmoves : hub'.moves = hub.moves ∧ hub'.viewing user = hub.viewing user ∨
      hub.moves < hub'.moves ∧ .roster none ∈ tasks) : Starts user may hub hub' tasks where
  later := {
    changes := fun trip => (hchanges trip).imp_right And.left
    moves := hmoves.imp_right And.left
    presenceGen := fun trip => hgens.1 ▸ .refl _
    rosterGen := hgens.2 ▸ .refl _
    used := hused'.superset }
  gens := hgens
  used := hused' ▸ hconns.trans hused
  conn d := by
    rw [hconn]
    rcases eq_or_ne d c with rfl | hne
    · rw [Function.update_self]
      exact .inl hsame
    · rw [Function.update_of_ne hne]
      exact .inl (.of_frames rfl rfl rfl fun h => h)
  conns d hd := .inl (hconns hd)
  running := .inr hrunning
  plain := hplain
  changed trip hlt := by
    rcases hchanges trip with ⟨heq, -⟩ | ⟨-, hmem⟩
    · omega
    · exact hmem
  moved hlt := by
    rcases hmoves with ⟨heq, -⟩ | ⟨-, hmem⟩
    · omega
    · exact hmem

omit [DecidableEq υ] in
theorem subscribersOf_of_conn {conn : Conn υ τ} (hconns : hub'.conns = hub.conns)
    (hconn : hub'.conn = Function.update hub.conn c conn) (h : trip ∈ conn.trips ↔ trip ∈ (hub.conn c).trips) :
    hub'.subscribersOf user may trip = hub.subscribersOf user may trip := by
  refine subscribersOf_congr fun d => ?_
  rw [hconns, hconn]
  rcases eq_or_ne d c with rfl | hne
  · rw [Function.update_self, h]
  · rw [Function.update_of_ne hne]

theorem viewing_of_conn {conn : Conn υ τ} (hconns : hub'.conns = hub.conns)
    (hconn : hub'.conn = Function.update hub.conn c conn) (h : conn.viewing = (hub.conn c).viewing) :
    hub'.viewing user = hub.viewing user := by
  refine viewing_congr fun d trip => ?_
  rw [hconns, hconn]
  rcases eq_or_ne d c with rfl | hne
  · rw [Function.update_self, h]
  · rw [Function.update_of_ne hne]

omit [DecidableEq υ] [DecidableEq κ] in
theorem lt_changed (hub : Hub κ υ τ) {trips : Finset τ} (h : trip ∈ trips) :
    hub.changes trip < (hub.changed trips).changes trip := by
  show _ < if trip ∈ trips then _ else _
  rw [if_pos h]
  exact Nat.lt_succ_self _

theorem subscribe_starts (hused : hub.conns ⊆ hub.used) (hc : c ∈ hub.conns) (trip : τ) :
    Starts user may hub (hub.next user may (.subscribe c trip)) [.presence trip] := by
  have hnext : hub.next user may (.subscribe c trip) = _ := if_pos hc
  rw [hnext]
  refine .of_conn hused hc rfl (.of_frames rfl rfl rfl fun h => h) le_rfl ⟨rfl, rfl⟩ rfl rfl
    (fun task htask => .inl ⟨trip, List.mem_singleton.1 htask⟩) (fun t => ?_) (.inl ⟨rfl, viewing_of_conn rfl rfl rfl⟩)
  by_cases hnew : t ∈ ({trip} \ (hub.conn c).trips : Finset τ)
  · obtain ⟨ht, -⟩ := Finset.mem_sdiff.1 hnew
    obtain rfl := Finset.mem_singleton.1 ht
    exact .inr ⟨lt_changed hub hnew, List.mem_singleton_self _⟩
  · refine .inl ⟨if_neg hnew, subscribersOf_of_conn rfl rfl ?_⟩
    rw [Finset.mem_insert]
    refine ⟨fun h => ?_, .inr⟩
    rcases h with rfl | h
    · by_contra hnot
      exact hnew (Finset.mem_sdiff.2 ⟨Finset.mem_singleton_self _, hnot⟩)
    · exact h

theorem unsubscribe_starts (hused : hub.conns ⊆ hub.used) (hc : c ∈ hub.conns) (trip : τ) :
    Starts user may hub (hub.next user may (.unsubscribe c trip)) [.presence trip] := by
  have hnext : hub.next user may (.unsubscribe c trip) = _ := if_pos hc
  rw [hnext]
  refine .of_conn hused hc rfl (.of_frames rfl rfl rfl fun h => h) le_rfl ⟨rfl, rfl⟩ rfl rfl
    (fun task htask => .inl ⟨trip, List.mem_singleton.1 htask⟩) (fun t => ?_) (.inl ⟨rfl, viewing_of_conn rfl rfl rfl⟩)
  by_cases hleft : t ∈ ({trip} ∩ (hub.conn c).trips : Finset τ)
  · obtain ⟨ht, -⟩ := Finset.mem_inter.1 hleft
    obtain rfl := Finset.mem_singleton.1 ht
    exact .inr ⟨lt_changed hub hleft, List.mem_singleton_self _⟩
  · refine .inl ⟨if_neg hleft, subscribersOf_of_conn rfl rfl ?_⟩
    rw [Finset.mem_erase]
    refine ⟨And.right, fun h => ⟨fun heq => hleft ?_, h⟩⟩
    exact Finset.mem_inter.2 ⟨Finset.mem_singleton.2 heq, h⟩

theorem setViewing_starts (hused : hub.conns ⊆ hub.used) (hc : c ∈ hub.conns) {viewing : Option τ}
    (hmove : (hub.conn c).viewing ≠ viewing) :
    Starts user may hub (hub.next user may (.setViewing c viewing)) [.roster none] := by
  have hnext : hub.next user may (.setViewing c viewing) = _ := if_pos ⟨hc, hmove⟩
  rw [hnext]
  refine .of_conn hused hc rfl (.of_frames rfl rfl rfl fun h => h) le_rfl ⟨rfl, rfl⟩ rfl rfl
    (fun task htask => .inr ⟨none, List.mem_singleton.1 htask⟩) (fun t => .inl ⟨rfl, subscribersOf_of_conn rfl rfl Iff.rfl⟩)
    (.inr ⟨Nat.lt_succ_self _, List.mem_singleton_self _⟩)

theorem updateCursor_starts (hused : hub.conns ⊆ hub.used) (hc : c ∈ hub.conns) (trip : τ) (cursor : Nat) :
    Starts user may hub (hub.next user may (.updateCursor c trip cursor)) [.presence trip] := by
  have hnext : hub.next user may (.updateCursor c trip cursor) = _ := if_pos hc
  rw [hnext]
  exact .of_conn hused hc rfl (.of_frames rfl rfl rfl fun h => h) le_rfl ⟨rfl, rfl⟩ rfl rfl
    (fun task htask => .inl ⟨trip, List.mem_singleton.1 htask⟩) (fun t => .inl ⟨rfl, subscribersOf_of_conn rfl rfl Iff.rfl⟩)
    (.inl ⟨rfl, viewing_of_conn rfl rfl rfl⟩)

theorem disconnect_starts (hused : hub.conns ⊆ hub.used) (hc : c ∈ hub.conns) {trips : List τ}
    (htrips : trips.toFinset = (hub.conn c).trips) :
    Starts user may hub (hub.next user may (.disconnect c trips))
      (trips.map .presence ++ if (hub.conn c).viewing.isSome then [.roster none] else []) := by
  have hnext : hub.next user may (.disconnect c trips) = _ := if_pos ⟨hc, htrips⟩
  rw [hnext]
  refine .of_conn hused hc rfl (.of_frames rfl rfl rfl nofun) (Finset.erase_subset ..) ⟨rfl, rfl⟩ rfl rfl
    (fun task htask => ?_) (fun t => ?_) ?_
  · rcases List.mem_append.1 htask with htask | htask
    · obtain ⟨trip, -, rfl⟩ := List.mem_map.1 htask
      exact .inl ⟨trip, rfl⟩
    · split at htask
      · exact .inr ⟨none, List.mem_singleton.1 htask⟩
      · cases htask
  · by_cases hleft : t ∈ (hub.conn c).trips
    · refine .inr ⟨lt_changed hub hleft, List.mem_append_left _ (List.mem_map_of_mem ?_)⟩
      exact List.mem_toFinset.1 (htrips ▸ hleft)
    · refine .inl ⟨if_neg hleft, subscribersOf_congr fun d => ?_⟩
      show d ∈ hub.conns.erase c ∧ t ∈ (Function.update hub.conn c _ d).trips ↔ _
      rcases eq_or_ne d c with rfl | hne
      · simp [hleft]
      · rw [Function.update_of_ne hne, Finset.mem_erase, and_iff_right hne]
  · cases hviewing : (hub.conn c).viewing with
    | some trip => exact .inr ⟨by simp [start, changed, moved, setConn, hviewing], by simp⟩
    | none =>
      refine .inl ⟨by simp [start, changed, moved, setConn, hviewing], viewing_congr fun d trip => ?_⟩
      show d ∈ hub.conns.erase c ∧ (Function.update hub.conn c _ d).viewing = _ ↔ _
      rcases eq_or_ne d c with rfl | hne
      · simp [hviewing]
      · rw [Function.update_of_ne hne, Finset.mem_erase, and_iff_right hne]

theorem connect_starts (hused : hub.conns ⊆ hub.used) (hc : c ∉ hub.used) :
    Starts user may hub (hub.next user may (.connect c)) [.roster (some c)] := by
  have hnext : hub.next user may (.connect c) = _ := if_neg hc
  have hnone : c ∉ hub.conns := fun h => hc (hused h)
  have hconn (d : κ) : (hub.next user may (.connect c)).conn d = Function.update hub.conn c newConn d := by rw [hnext]; rfl
  have hconns (d : κ) : d ∈ (hub.next user may (.connect c)).conns ↔ d = c ∨ d ∈ hub.conns := by
    rw [hnext]
    exact Finset.mem_insert
  refine ⟨⟨fun t => .inl ⟨by rw [hnext]; rfl, subscribersOf_congr fun d => ?_⟩,
    .inl ⟨by rw [hnext]; rfl, viewing_congr fun d trip => ?_⟩, fun t => ?_, ?_, ?_⟩, ?_, ?_, fun d => ?_, fun d hd => ?_,
    .inr (by rw [hnext]; rfl), fun task htask => .inr ⟨some c, List.mem_singleton.1 htask⟩, fun t hlt => ?_, fun hlt => ?_⟩
  · rw [hconns, hconn]
    rcases eq_or_ne d c with rfl | hne
    · simp [hnone, newConn]
    · simp [hne]
  · rw [hconns, hconn]
    rcases eq_or_ne d c with rfl | hne
    · simp [hnone, newConn]
    · simp [hne]
  · rw [hnext]
    exact .refl _
  · rw [hnext]
    exact .refl _
  · rw [hnext]
    exact Finset.subset_insert ..
  · rw [hnext]
    exact ⟨rfl, rfl⟩
  · rw [hnext]
    exact Finset.insert_subset_insert c hused
  · rw [hconn]
    rcases eq_or_ne d c with rfl | hne
    · exact .inr ⟨Function.update_self .., hc⟩
    · rw [Function.update_of_ne hne]
      exact .inl (.of_frames rfl rfl rfl fun h => h)
  · rcases (hconns d).1 hd with rfl | hd
    · exact .inr ⟨by rw [hconn, Function.update_self], hc, List.mem_singleton_self _⟩
    · exact .inl hd
  · rw [hnext] at hlt
    exact absurd hlt (Nat.lt_irrefl _)
  · rw [hnext] at hlt
    exact absurd hlt (Nat.lt_irrefl _)

/-- A call that starts nothing and sends nothing of the two kinds. -/
theorem setConn_starts (hused : hub.conns ⊆ hub.used) {conn : Conn υ τ} (hsame : SameQueue (hub.conn c) conn)
    (htrips : conn.trips = (hub.conn c).trips) (hviewing : conn.viewing = (hub.conn c).viewing) :
    Starts user may hub (hub.setConn c conn) [] := by
  refine ⟨⟨fun t => .inl ⟨rfl, subscribersOf_of_conn rfl rfl (by rw [htrips])⟩, .inl ⟨rfl, viewing_of_conn rfl rfl hviewing⟩,
    fun t => .refl _, .refl _, le_rfl⟩, ⟨rfl, rfl⟩, hused, fun d => .inl ?_, fun d hd => .inl hd, .inl ⟨rfl, rfl⟩, nofun,
    fun t hlt => absurd hlt (Nat.lt_irrefl _), fun hlt => absurd hlt (Nat.lt_irrefl _)⟩
  show SameQueue (hub.conn d) (Function.update hub.conn c conn d)
  rcases eq_or_ne d c with rfl | hne
  · rw [Function.update_self]
    exact hsame
  · rw [Function.update_of_ne hne]
    exact .of_frames rfl rfl rfl fun h => h

omit [DecidableEq κ] in
theorem Starts.refl (hused : hub.conns ⊆ hub.used) : Starts user may hub hub [] :=
  ⟨⟨fun _ => .inl ⟨rfl, rfl⟩, .inl ⟨rfl, rfl⟩, fun _ => .refl _, .refl _, le_rfl⟩, ⟨rfl, rfl⟩, hused,
    fun _ => .inl (.of_frames rfl rfl rfl fun h => h), fun _ hd => .inl hd, .inl ⟨rfl, rfl⟩, nofun,
    fun _ hlt => absurd hlt (Nat.lt_irrefl _), fun hlt => absurd hlt (Nat.lt_irrefl _)⟩

omit [DecidableEq υ] [DecidableEq κ] in
theorem event_same (conn : Conn υ τ) : SameQueue conn (conn.enqueue ⟨.other, 0, 0⟩) := by
  unfold Conn.enqueue
  split
  · refine ⟨fun trip => ?_, ?_, rfl, rfl, fun h => h⟩
    · simp [Conn.frames, ← List.append_assoc, Queued.ofTrip]
    · simp [Conn.frames, ← List.append_assoc, Queued.isRoster]
  · exact .of_frames rfl rfl rfl nofun

/-- Every call but a turn only starts an operation. -/
theorem next_starts (hused : hub.conns ⊆ hub.used) (call : HubCall κ τ) (hturn : ∀ i headSeq target, call ≠ .turn i headSeq target) :
    ∃ tasks, Starts user may hub (hub.next user may call) tasks := by
  cases call with
  | connect c =>
    by_cases hc : c ∈ hub.used
    · exact ⟨[], by rw [show hub.next user may (.connect c) = hub from if_pos hc]; exact .refl hused⟩
    · exact ⟨_, connect_starts hused hc⟩
  | subscribe c trip =>
    by_cases hc : c ∈ hub.conns
    · exact ⟨_, subscribe_starts hused hc trip⟩
    · exact ⟨[], by rw [show hub.next user may (.subscribe c trip) = hub from if_neg hc]; exact .refl hused⟩
  | unsubscribe c trip =>
    by_cases hc : c ∈ hub.conns
    · exact ⟨_, unsubscribe_starts hused hc trip⟩
    · exact ⟨[], by rw [show hub.next user may (.unsubscribe c trip) = hub from if_neg hc]; exact .refl hused⟩
  | setViewing c viewing =>
    by_cases hc : c ∈ hub.conns ∧ (hub.conn c).viewing ≠ viewing
    · exact ⟨_, setViewing_starts hused hc.1 hc.2⟩
    · exact ⟨[], by rw [show hub.next user may (.setViewing c viewing) = hub from if_neg hc]; exact .refl hused⟩
  | updateCursor c trip cursor =>
    by_cases hc : c ∈ hub.conns
    · exact ⟨_, updateCursor_starts hused hc trip cursor⟩
    · exact ⟨[], by rw [show hub.next user may (.updateCursor c trip cursor) = hub from if_neg hc]; exact .refl hused⟩
  | disconnect c trips =>
    by_cases hc : c ∈ hub.conns ∧ trips.toFinset = (hub.conn c).trips
    · exact ⟨_, disconnect_starts hused hc.1 hc.2⟩
    · exact ⟨[], by rw [show hub.next user may (.disconnect c trips) = hub from if_neg hc]; exact .refl hused⟩
  | turn i headSeq target => exact absurd rfl (hturn i headSeq target)
  | pump c =>
    refine ⟨[], ?_⟩
    cases hout : (hub.conn c).out with
    | nil =>
      simp only [next, hout]
      exact .refl hused
    | cons frame out =>
      simp only [next, hout]
      refine setConn_starts hused (.of_frames ?_ rfl rfl fun h => h) rfl rfl
      simp [Conn.frames, hout]
  | fail c => exact ⟨[], setConn_starts hused (.of_frames rfl rfl rfl fun h => by cases h) rfl rfl⟩
  | event c =>
    refine ⟨[], setConn_starts hused (event_same _) ?_ ?_⟩
    · unfold Conn.enqueue
      split <;> rfl
    · unfold Conn.enqueue
      split <;> rfl

end

/-! ## Steps of an operation -/

section
variable {user : κ → υ} {may : τ → υ → Bool} {hub hub' : Hub κ υ τ} {c : κ} {trip : τ} {i : Nat}
variable {task other : Task κ υ τ} {tasks rest : List (Task κ υ τ)}

/-- A connection that may have been sent something. -/
structure Grows (conn conn' : Conn υ τ) : Prop where
  trips : conn'.trips = conn.trips
  viewing : conn'.viewing = conn.viewing
  done : conn'.done = false → conn.done = false
  frames : conn.frames ⊆ conn'.frames

omit [DecidableEq υ] [DecidableEq τ] in
theorem Grows.refl (conn : Conn υ τ) : Grows conn conn := ⟨rfl, rfl, fun h => h, List.Subset.refl _⟩

/-- What a step of an operation does: it does the task, and has other tasks to do instead. -/
structure Turns (hub hub' : Hub κ υ τ) (i : Nat) (task : Task κ υ τ) (tasks rest : List (Task κ υ τ)) : Prop where
  before : hub.running[i]? = some (task :: rest)
  after : hub'.running = hub.running.set i (tasks ++ rest)
  conns : hub'.conns = hub.conns
  used : hub'.used = hub.used
  changes : hub'.changes = hub.changes
  moves : hub'.moves = hub.moves
  presenceGen : ∀ trip, (hub.presenceGen trip).Extends (hub'.presenceGen trip)
  rosterGen : hub.rosterGen.Extends hub'.rosterGen
  conn : ∀ c, Grows (hub.conn c) (hub'.conn c)

omit [DecidableEq υ] in
theorem Turns.subscribers (ht : Turns hub hub' i task tasks rest) (trip : τ) :
    hub'.subscribersOf user may trip = hub.subscribersOf user may trip :=
  subscribersOf_congr fun d => by rw [ht.conns, (ht.conn d).trips]

theorem Turns.viewing_eq (ht : Turns hub hub' i task tasks rest) : hub'.viewing user = hub.viewing user :=
  viewing_congr fun d trip => by rw [ht.conns, (ht.conn d).viewing]

theorem Turns.later (ht : Turns hub hub' i task tasks rest) : Later user may hub hub' where
  changes trip := .inl ⟨by rw [ht.changes], ht.subscribers trip⟩
  moves := .inl ⟨ht.moves, ht.viewing_eq⟩
  presenceGen := ht.presenceGen
  rosterGen := ht.rosterGen
  used := ht.used.superset

omit [DecidableEq υ] [DecidableEq τ] in
theorem Turns.pending (ht : Turns hub hub' i task tasks rest) (h : hub'.Pending other) :
    other ∈ tasks ∨ hub.Pending other := by
  obtain ⟨l, hl, hmem⟩ := h
  rw [ht.after] at hl
  rcases List.mem_or_eq_of_mem_set hl with hl | rfl
  · exact .inr ⟨l, hl, hmem⟩
  · refine (List.mem_append.1 hmem).imp_right fun hmem => ?_
    exact ⟨_, List.mem_of_getElem? ht.before, List.mem_cons_of_mem _ hmem⟩

omit [DecidableEq υ] [DecidableEq τ] in
theorem Turns.lt (ht : Turns hub hub' i task tasks rest) : i < hub.running.length :=
  (List.getElem?_eq_some_iff.1 ht.before).1

omit [DecidableEq υ] [DecidableEq τ] in
theorem Turns.pending_new (ht : Turns hub hub' i task tasks rest) (h : other ∈ tasks) : hub'.Pending other := by
  refine ⟨tasks ++ rest, ?_, List.mem_append_left _ h⟩
  rw [ht.after]
  exact List.mem_set ht.lt _

omit [DecidableEq υ] [DecidableEq τ] in
theorem Turns.pending_keep (ht : Turns hub hub' i task tasks rest) (h : hub.Pending other) :
    other = task ∨ hub'.Pending other := by
  obtain ⟨l, hl, hmem⟩ := h
  obtain ⟨j, hj⟩ := List.mem_iff_getElem?.1 hl
  rcases eq_or_ne i j with rfl | hne
  · rw [ht.before] at hj
    cases hj
    refine (List.mem_cons.1 hmem).imp_right fun hmem => ⟨tasks ++ rest, ?_, List.mem_append_right _ hmem⟩
    rw [ht.after]
    exact List.mem_set ht.lt _
  · refine .inr ⟨l, ?_, hmem⟩
    rw [ht.after]
    exact List.mem_of_getElem? (by rw [List.getElem?_set_ne hne, hj])

theorem Turns.sound (ht : Turns hub hub' i task tasks rest) (h : Sound user may hub)
    (hpresence : ∀ trip, (hub'.presenceGen trip).Ordered (hub'.changes trip))
    (hroster : hub'.rosterGen.Ordered hub'.moves) (htasks : ∀ other ∈ tasks, TaskOk user may hub' other)
    (hpresenceSent : ∀ c trip, PresenceSent user may hub' (hub'.conn c) trip)
    (hrosterSent : ∀ c, RosterSent user may hub' c (hub'.conn c)) : Sound user may hub' where
  used := by rw [ht.conns, ht.used]; exact h.used
  presence := hpresence
  roster := hroster
  tasks l hl other hmem := by
    rcases ht.pending ⟨l, hl, hmem⟩ with hnew | ⟨old, hold, hmem⟩
    · exact htasks other hnew
    · exact TaskOk.later ht.later (h.tasks old hold other hmem)
  presenceSent := hpresenceSent
  rosterSent := hrosterSent

/-- What is still to be shown for the task that was done. -/
theorem Turns.kept (ht : Turns hub hub' i task tasks rest) (h : Kept user may hub) (hsound : Sound user may hub')
    (htold : ∀ c trip, c ∈ hub.subscribersOf user may trip → (hub'.conn c).done = false → hub.Tells trip task →
      hub'.Told c trip)
    (hshows : ∀ c ∈ hub.conns, (hub'.conn c).done = false → hub.Shows c task → Shown user may hub' c)
    (hun : ∀ c ∈ hub.conns, (hub'.conn c).done = false → Unshown user may hub c → Shown user may hub' c) : Kept user may hub' where
  toSound := hsound
  told c hc hdone trip htrip hmay := by
    rw [ht.conns] at hc
    rw [(ht.conn c).trips] at htrip
    rcases h.told c hc ((ht.conn c).done hdone) trip htrip hmay with ⟨f, hf, hview⟩ | ⟨other, hpending, htells⟩
    · obtain ⟨hmem, htrip⟩ := List.mem_filter.1 hf
      exact .inl ⟨f, List.mem_filter.2 ⟨(ht.conn c).frames hmem, htrip⟩, by rw [ht.changes, hview]⟩
    · rcases ht.pending_keep hpending with rfl | hpending
      · exact htold c trip (Finset.mem_filter.2 ⟨hc, htrip, hmay⟩) hdone htells
      · exact .inr ⟨other, hpending, htells.later (by rw [ht.changes])⟩
  shown c hc hdone := by
    rw [ht.conns] at hc
    rcases h.shown c hc ((ht.conn c).done hdone) with ⟨f, hf, hview⟩ | ⟨other, hpending, hother⟩ | hunshown
    · obtain ⟨hmem, hroster⟩ := List.mem_filter.1 hf
      exact .inl ⟨f, List.mem_filter.2 ⟨(ht.conn c).frames hmem, hroster⟩, by rw [ht.moves, hview]⟩
    · rcases ht.pending_keep hpending with rfl | hpending
      · exact hshows c hc hdone hother
      · exact .inr (.inl ⟨other, hpending, hother.later ht.moves⟩)
    · exact hun c hc hdone hunshown

/-- A connection that was sent no roster, and is sent none by the step. -/
theorem Turns.unshown (ht : Turns hub hub' i task tasks rest) (h : Unshown user may hub c)
    (hframes : (hub'.conn c).frames.filter (·.isRoster) = (hub.conn c).frames.filter (·.isRoster))
    (hnew : ∀ only view gen viewing targets, .sendRoster only view gen viewing targets ∈ tasks → c ∈ targets →
      view = hub.moves)
    (hgreets : hub.Greets c task → rosterMembers may (hub.viewing user) (user c) = ∅ ∨ ∃ other ∈ tasks, hub'.Greets c other) :
    Unshown user may hub' c where
  none_sent := hframes.trans h.none_sent
  present only view gen viewing targets hp hmem := by
    rw [ht.moves]
    rcases ht.pending hp with hp | hp
    · exact hnew only view gen viewing targets hp hmem
    · exact h.present only view gen viewing targets hp hmem
  greeted := by
    rw [ht.viewing_eq]
    rcases h.greeted with hempty | ⟨other, hpending, hother⟩
    · exact .inl hempty
    · rcases ht.pending_keep hpending with rfl | hpending
      · refine (hgreets hother).imp_right ?_
        rintro ⟨other, hmem, hother⟩
        exact ⟨other, ht.pending_new hmem, hother⟩
      · exact .inr ⟨other, hpending, hother.later ht.moves⟩

/-- The frames of a step that sends nothing. -/
theorem Turns.sound_of_conn (ht : Turns hub hub' i task tasks rest) (h : Sound user may hub) (hconn : hub'.conn = hub.conn)
    (hpresence : ∀ trip, (hub'.presenceGen trip).Ordered (hub'.changes trip))
    (hroster : hub'.rosterGen.Ordered hub'.moves) (htasks : ∀ other ∈ tasks, TaskOk user may hub' other) :
    Sound user may hub' := by
  refine ht.sound h hpresence hroster htasks (fun c trip => ?_) fun c => ?_
  · rw [hconn]
    exact (h.presenceSent c trip).later (h.presence trip) ht.later (.of_frames rfl rfl rfl fun h => h)
  · rw [hconn]
    exact (h.rosterSent c).later h.roster ht.later (.of_frames rfl rfl rfl fun h => h)

variable [DecidableEq κ] {headSeq : Nat} {target : κ}

theorem next_turn (hi : hub.running[i]? = some (task :: rest)) : hub.next user may (.turn i headSeq target) =
    { (hub.work user may headSeq target task).1 with
      running := (hub.work user may headSeq target task).1.running.set i
        ((hub.work user may headSeq target task).2 ++ rest) } := by
  simp only [next, hi]

theorem turn_presence (h : Kept user may hub) (hi : hub.running[i]? = some (.presence trip :: rest)) :
    Kept user may (hub.next user may (.turn i headSeq target)) := by
  rw [next_turn hi]
  let hub' := { hub with
    running := hub.running.set i ((hub.work user may headSeq target (.presence trip)).2 ++ rest) }
  have ht : Turns hub hub' i (.presence trip) (hub.work user may headSeq target (.presence trip)).2 rest :=
    ⟨hi, rfl, rfl, rfl, rfl, rfl, fun _ => .refl _, .refl _, fun _ => .refl _⟩
  refine ht.kept h (ht.sound_of_conn h.toSound rfl h.presence h.roster ?_) (fun c t hc hdone htells => ?_) nofun
    fun c _ hdone hun => .inr (.inr (ht.unshown hun rfl ?_ nofun))
  · intro other hother
    rw [List.mem_singleton.1 hother]
    exact ⟨le_rfl, fun _ => rfl⟩
  · exact .inr ⟨_, ht.pending_new (List.mem_singleton_self _), htells, by rw [← htells]⟩
  · intro only view gen viewing targets hmem
    cases List.mem_singleton.1 hmem

theorem turn_numberPresence {targets : Finset κ} {view : Nat} (h : Kept user may hub)
    (hi : hub.running[i]? = some (.numberPresence trip targets view :: rest))
    (hordered : (hub.presenceGen trip).viewOf (hub.presenceGen trip).gen ≤ view) :
    Kept user may (hub.next user may (.turn i headSeq target)) := by
  rw [next_turn hi]
  obtain ⟨hle, htargets⟩ := h.tasks _ (List.mem_of_getElem? hi) _ (List.mem_cons_self ..)
  let hub' := { (hub.work user may headSeq target (.numberPresence trip targets view)).1 with
    running := hub.running.set i ((hub.work user may headSeq target (.numberPresence trip targets view)).2 ++ rest) }
  have hgen (t : τ) : hub'.presenceGen t = if t = trip then (hub.presenceGen trip).give view else hub.presenceGen t := by
    show Function.update _ _ _ _ = _
    rw [Function.update_apply]
  have ht : Turns hub hub' i (.numberPresence trip targets view)
      (hub.work user may headSeq target (.numberPresence trip targets view)).2 rest := by
    refine ⟨hi, rfl, rfl, rfl, rfl, rfl, fun t => ?_, .refl _, fun _ => .refl _⟩
    rw [hgen]
    split
    · next heq =>
      rw [heq]
      exact Numbering.extends_give
    · exact .refl _
  refine ht.kept h (ht.sound_of_conn h.toSound rfl (fun t => ?_) h.roster ?_) (fun c t hc hdone htells => ?_) nofun
    fun c _ hdone hun => .inr (.inr (ht.unshown hun rfl ?_ nofun))
  · rw [hgen]
    split
    · next heq =>
      rw [heq]
      exact (h.presence trip).give hordered hle
    · exact h.presence t
  · intro other hother
    rw [List.mem_singleton.1 hother]
    refine ⟨Nat.succ_pos _, ?_, ?_, hle, fun hview => ?_⟩
    · rw [hgen, if_pos rfl]
    · rw [hgen, if_pos rfl]
      exact Numbering.viewOf_give
    · rw [htargets hview]
      exact (ht.subscribers trip).symm
  · exact .inr ⟨_, ht.pending_new (List.mem_singleton_self _), htells⟩
  · intro only view' gen viewing targets' hmem
    cases List.mem_singleton.1 hmem

theorem turn_roster {only : Option κ} (h : Kept user may hub) (hi : hub.running[i]? = some (.roster only :: rest)) :
    Kept user may (hub.next user may (.turn i headSeq target)) := by
  rw [next_turn hi]
  let hub' := { (hub.work user may headSeq target (.roster only)).1 with
    running := hub.running.set i ((hub.work user may headSeq target (.roster only)).2 ++ rest) }
  have ht : Turns hub hub' i (.roster only) (hub.work user may headSeq target (.roster only)).2 rest :=
    ⟨hi, rfl, rfl, rfl, rfl, rfl, fun t => .refl _, Numbering.extends_give, fun _ => .refl _⟩
  have hlast : hub.rosterGen.viewOf hub.rosterGen.gen ≤ hub.moves := h.roster.le _ le_rfl
  refine ht.kept h (ht.sound_of_conn h.toSound rfl h.presence (h.roster.give hlast le_rfl) ?_) nofun
    (fun c hc hdone hshows => ?_) fun c hc hdone hun => .inr (.inr (ht.unshown hun rfl ?_ fun hgreets => .inr ?_))
  · intro other hother
    rw [List.mem_singleton.1 hother]
    refine ⟨Nat.succ_pos _, le_rfl, Numbering.viewOf_give, le_rfl, fun _ => ht.viewing_eq.symm, ?_⟩
    cases only with
    | none => exact h.used
    | some c => exact (Finset.filter_subset ..).trans h.used
  · cases only with
    | none => exact .inr (.inl ⟨_, ht.pending_new (List.mem_singleton_self _), rfl, hc⟩)
    | some d => exact absurd hshows id
  · intro only' view gen viewing targets hmem _
    cases List.mem_singleton.1 hmem
    rfl
  · cases only with
    | none => exact absurd hgreets id
    | some d => exact ⟨_, List.mem_singleton_self _, rfl, Finset.mem_filter.2 ⟨hc, hgreets.symm⟩⟩

omit [DecidableEq υ] [DecidableEq τ] [DecidableEq κ] in
theorem Sent.take {α : Type} {n : Numbering} {version taken : Nat} {frames : List (Queued υ τ)} {lost : Bool}
    {read : Event υ τ → α} {truth : α} (h : Sent n version taken frames lost read truth) {f : Queued υ τ}
    (hnew : taken < f.gen) (hle : f.gen ≤ n.gen) (hview : n.viewOf f.gen = f.view)
    (htruth : f.view = version → read f.event = truth) : Sent n version f.gen (frames ++ [f]) lost read truth := by
  refine ⟨h.guarded.take hnew hle hview.symm, fun g hg hversion => ?_⟩
  rcases List.mem_append.1 hg with hg | hg
  · exact h.truth g hg hversion
  · rw [List.mem_singleton.1 hg] at hversion ⊢
    exact htruth hversion

omit [DecidableEq υ] [DecidableEq τ] [DecidableEq κ] in
theorem enqueue_cases (conn : Conn υ τ) (f : Queued υ τ) :
    (conn.enqueue f).frames = conn.frames ++ [f] ∧ (conn.enqueue f).done = conn.done ∨
      (conn.enqueue f).frames = conn.frames ∧ (conn.enqueue f).done = true := by
  unfold Conn.enqueue
  split
  · exact .inl ⟨(List.append_assoc ..).symm, rfl⟩
  · exact .inr ⟨rfl, rfl⟩

section
variable {conn : Conn υ τ} {f : Queued υ τ}

omit [DecidableEq υ] [DecidableEq τ] in
theorem enqueue_done (h : (conn.enqueue f).done = false) : conn.done = false ∧ (conn.enqueue f).frames = conn.frames ++ [f] := by
  rcases enqueue_cases conn f with ⟨hframes, hdone⟩ | ⟨-, hdone⟩
  · exact ⟨hdone ▸ h, hframes⟩
  · rw [hdone] at h
    cases h

omit [DecidableEq υ] [DecidableEq τ] in
theorem enqueue_grows (conn : Conn υ τ) (f : Queued υ τ) : Grows conn (conn.enqueue f) := by
  refine ⟨?_, ?_, fun h => (enqueue_done h).1, ?_⟩
  · unfold Conn.enqueue
    split <;> rfl
  · unfold Conn.enqueue
    split <;> rfl
  · rcases enqueue_cases conn f with ⟨hframes, -⟩ | ⟨hframes, -⟩
    · rw [hframes]
      exact List.subset_append_left ..
    · rw [hframes]
      exact List.Subset.refl _

omit [DecidableEq υ] [DecidableEq τ] in
theorem enqueue_sent (conn : Conn υ τ) (f : Queued υ τ) :
    (conn.enqueue f).presenceSent = conn.presenceSent ∧ (conn.enqueue f).rosterSent = conn.rosterSent := by
  unfold Conn.enqueue
  split <;> exact ⟨rfl, rfl⟩

omit [DecidableEq υ] [DecidableEq τ] in
theorem enqueue_filter {p : Queued υ τ → Bool} (hf : p f = false) :
    (conn.enqueue f).frames.filter p = conn.frames.filter p := by
  rcases enqueue_cases conn f with ⟨hframes, -⟩ | ⟨hframes, -⟩
  · rw [hframes, List.filter_append, List.filter_cons_of_neg (by simp [hf]), List.filter_nil, List.append_nil]
  · rw [hframes]

omit [DecidableEq υ] [DecidableEq τ] in
/-- What was sent of one kind, after a newer frame of it is queued. -/
theorem Sent.enqueue {α : Type} {n : Numbering} {version taken : Nat} {p : Queued υ τ → Bool}
    {read : Event υ τ → α} {truth : α} (h : Sent n version taken (conn.frames.filter p) conn.done read truth)
    (hf : p f = true) (hnew : taken < f.gen) (hle : f.gen ≤ n.gen) (hview : n.viewOf f.gen = f.view)
    (htruth : f.view = version → read f.event = truth) :
    Sent n version f.gen ((conn.enqueue f).frames.filter p) (conn.enqueue f).done read truth := by
  rcases enqueue_cases conn f with ⟨hframes, hdone⟩ | ⟨hframes, hdone⟩
  · rw [hframes, hdone, List.filter_append, List.filter_cons_of_pos hf, List.filter_nil]
    exact h.take hnew hle hview htruth
  · rw [hframes, hdone]
    exact ⟨h.guarded.lose hnew.le hle, h.truth⟩

omit [DecidableEq υ] [DecidableEq τ] in
/-- What was sent of one kind, after a frame of another kind is queued. -/
theorem Sent.enqueue_other {α : Type} {n : Numbering} {version taken : Nat} {p : Queued υ τ → Bool}
    {read : Event υ τ → α} {truth : α} (h : Sent n version taken (conn.frames.filter p) conn.done read truth)
    (hf : p f = false) : Sent n version taken ((conn.enqueue f).frames.filter p) (conn.enqueue f).done read truth := by
  rw [enqueue_filter hf]
  exact ⟨h.guarded.gone fun hdone => (enqueue_done hdone).1, h.truth⟩

end

omit [DecidableEq κ] in
theorem devices_presenceMembers (targets : Finset κ) (cursors : υ → Nat) :
    (presenceMembers user targets cursors headSeq).image (fun m => (m.userID, m.deviceCount)) = devicesOf user targets := by
  unfold presenceMembers devicesOf
  rw [Finset.image_image]
  rfl

theorem turn_sendPresence {targets : Finset κ} {view gen : Nat} {cursors : υ → Nat} (h : Kept user may hub)
    (hi : hub.running[i]? = some (.sendPresence trip targets view gen cursors :: rest)) :
    Kept user may (hub.next user may (.turn i headSeq target)) := by
  rw [next_turn hi]
  obtain ⟨hpos, hgen, hviewOf, hle, htargets⟩ := h.tasks _ (List.mem_of_getElem? hi) _ (List.mem_cons_self ..)
  let hub' := { (hub.work user may headSeq target (.sendPresence trip targets view gen cursors)).1 with
    running := hub.running.set i ((hub.work user may headSeq target (.sendPresence trip targets view gen cursors)).2 ++ rest) }
  let frame : Queued υ τ := ⟨.presence trip headSeq (presenceMembers user targets cursors headSeq), gen, view⟩
  let noted (c : κ) := { hub.conn c with presenceSent := Function.update (hub.conn c).presenceSent trip gen }
  have hconn (c : κ) : c ∈ targets ∧ (hub.conn c).presenceSent trip < gen ∧ hub'.conn c = (noted c).enqueue frame ∨
      ¬ (c ∈ targets ∧ (hub.conn c).presenceSent trip < gen) ∧ hub'.conn c = hub.conn c := by
    by_cases hsend : c ∈ targets ∧ (hub.conn c).presenceSent trip < gen
    · exact .inl ⟨hsend.1, hsend.2, if_pos hsend⟩
    · exact .inr ⟨hsend, if_neg hsend⟩
  have hroster (c : κ) : (hub'.conn c).frames.filter (·.isRoster) = (hub.conn c).frames.filter (·.isRoster) := by
    rcases hconn c with ⟨-, -, hc⟩ | ⟨-, hc⟩
    · rw [hc, enqueue_filter rfl]
      rfl
    · rw [hc]
  have ht : Turns hub hub' i (.sendPresence trip targets view gen cursors) [] rest := by
    refine ⟨hi, rfl, rfl, rfl, rfl, rfl, fun _ => .refl _, .refl _, fun c => ?_⟩
    rcases hconn c with ⟨-, -, hc⟩ | ⟨-, hc⟩
    · rw [hc]
      have hgrows := enqueue_grows (noted c) frame
      exact ⟨hgrows.trips, hgrows.viewing, hgrows.done, hgrows.frames⟩
    · rw [hc]
      exact .refl _
  have hpresenceSent (c : κ) (t : τ) : PresenceSent user may hub (hub'.conn c) t := by
    rcases hconn c with ⟨-, hnew, hc⟩ | ⟨-, hc⟩
    · unfold PresenceSent
      rw [hc, (enqueue_sent ..).1]
      rcases eq_or_ne t trip with rfl | hne
      · rw [show (noted c).presenceSent t = frame.gen from Function.update_self ..]
        refine Sent.enqueue (h.presenceSent c t) (decide_eq_true rfl) hnew hgen hviewOf fun hview => ?_
        rw [← htargets hview]
        exact devices_presenceMembers targets cursors
      · rw [show (noted c).presenceSent t = (hub.conn c).presenceSent t from Function.update_of_ne hne ..]
        exact Sent.enqueue_other (h.presenceSent c t) (decide_eq_false hne.symm)
    · rw [hc]
      exact h.presenceSent c t
  have hrosterSent (c : κ) : RosterSent user may hub c (hub'.conn c) := by
    rcases hconn c with ⟨-, -, hc⟩ | ⟨-, hc⟩
    · unfold RosterSent
      rw [hc, (enqueue_sent ..).2]
      exact Sent.enqueue_other (h.rosterSent c) rfl
    · rw [hc]
      exact h.rosterSent c
  refine ht.kept h (ht.sound h.toSound h.presence h.roster nofun (fun c t => ?_) fun c => ?_)
    (fun c t hc hdone htells => .inl ?_) nofun fun c _ hdone hun => .inr (.inr (ht.unshown hun (hroster c) nofun nofun))
  · exact (hpresenceSent c t).later (h.presence t) ht.later (.of_frames rfl rfl rfl fun h => h)
  · exact (hrosterSent c).later h.roster ht.later (.of_frames rfl rfl rfl fun h => h)
  · obtain ⟨rfl, hview⟩ := htells
    rcases hconn c with ⟨-, -, hc'⟩ | ⟨hnot, hc'⟩
    · -- the frame is in the queue, or the connection is lost
      rw [hc'] at hdone ⊢
      exact ⟨frame, List.mem_filter.2 ⟨by rw [(enqueue_done hdone).2]; simp, decide_eq_true rfl⟩, hview⟩
    · -- the connection has already been sent a newer frame, of the same view
      rw [hc'] at hdone ⊢
      have hsent := (h.presenceSent c trip).guarded
      rw [hdone] at hsent
      refine hsent.reached (h.presence trip) hpos ?_ (hviewOf.trans hview)
      by_contra hlt
      exact hnot ⟨htargets hview ▸ hc, by omega⟩

theorem turn_sendRoster {only : Option κ} {view gen : Nat} {viewing : Finset (υ × τ)} {targets : Finset κ}
    (h : Kept user may hub) (hi : hub.running[i]? = some (.sendRoster only view gen viewing targets :: rest)) :
    Kept user may (hub.next user may (.turn i headSeq target)) := by
  rw [next_turn hi]
  obtain ⟨hpos, hgen, hviewOf, hle, hviewing, hused⟩ := h.tasks _ (List.mem_of_getElem? hi) _ (List.mem_cons_self ..)
  let task : Task κ υ τ := .sendRoster only view gen viewing targets
  let work := hub.work user may headSeq target task
  let hub' := { work.1 with running := work.1.running.set i (work.2 ++ rest) }
  let members := rosterMembers may viewing (user target)
  let frame : Queued υ τ := ⟨.roster members, gen, view⟩
  let noted := { hub.conn target with rosterSent := gen }
  have hwork : target ∈ targets ∧ ¬ (only.isSome ∧ members = ∅) ∧ (hub.conn target).rosterSent < gen ∧
        work.1 = hub.setConn target (noted.enqueue frame) ∨
      ¬ (target ∈ targets ∧ ¬ (only.isSome ∧ members = ∅) ∧ (hub.conn target).rosterSent < gen) ∧ work.1 = hub := by
    by_cases hsend : target ∈ targets ∧ ¬ (only.isSome ∧ members = ∅) ∧ (hub.conn target).rosterSent < gen
    · exact .inl ⟨hsend.1, hsend.2.1, hsend.2.2, if_pos hsend⟩
    · exact .inr ⟨hsend, if_neg hsend⟩
  have hother (c : κ) (hne : c ≠ target) : hub'.conn c = hub.conn c := by
    show work.1.conn c = _
    rcases hwork with ⟨-, -, -, hw⟩ | ⟨-, hw⟩
    · rw [hw]
      exact Function.update_of_ne hne ..
    · rw [hw]
  have htarget : target ∈ targets ∧ ¬ (only.isSome ∧ members = ∅) ∧ (hub.conn target).rosterSent < gen ∧
        hub'.conn target = noted.enqueue frame ∨
      ¬ (target ∈ targets ∧ ¬ (only.isSome ∧ members = ∅) ∧ (hub.conn target).rosterSent < gen) ∧
        hub'.conn target = hub.conn target := by
    rcases hwork with ⟨hmem, hsome, hnew, hw⟩ | ⟨hnot, hw⟩
    · refine .inl ⟨hmem, hsome, hnew, ?_⟩
      show work.1.conn target = _
      rw [hw]
      exact Function.update_self ..
    · refine .inr ⟨hnot, ?_⟩
      show work.1.conn target = _
      rw [hw]
  have ht : Turns hub hub' i task work.2 rest := by
    have hgrows (c : κ) : Grows (hub.conn c) (hub'.conn c) := by
      rcases eq_or_ne c target with rfl | hne
      · rcases htarget with ⟨-, -, -, hc⟩ | ⟨-, hc⟩
        · rw [hc]
          have hgrows := enqueue_grows noted frame
          exact ⟨hgrows.trips, hgrows.viewing, hgrows.done, hgrows.frames⟩
        · rw [hc]
          exact .refl _
      · rw [hother c hne]
        exact .refl _
    rcases hwork with ⟨-, -, -, hw⟩ | ⟨-, hw⟩
    · refine ⟨hi, ?_, ?_, ?_, ?_, ?_, fun t => ?_, ?_, hgrows⟩ <;> simp only [hub', hw]
      exacts [rfl, rfl, rfl, rfl, rfl, .refl _, .refl _]
    · refine ⟨hi, ?_, ?_, ?_, ?_, ?_, fun t => ?_, ?_, hgrows⟩ <;> simp only [hub', hw]
      exacts [.refl _, .refl _]
  have hpresence (t : τ) : hub'.presenceGen t = hub.presenceGen t := by
    show work.1.presenceGen t = _
    rcases hwork with ⟨-, -, -, hw⟩ | ⟨-, hw⟩ <;> rw [hw] <;> rfl
  have hroster : hub'.rosterGen = hub.rosterGen := by
    show work.1.rosterGen = _
    rcases hwork with ⟨-, -, -, hw⟩ | ⟨-, hw⟩ <;> rw [hw] <;> rfl
  have hpresenceSent (c : κ) (t : τ) : PresenceSent user may hub (hub'.conn c) t := by
    rcases eq_or_ne c target with rfl | hne
    · rcases htarget with ⟨-, -, -, hc⟩ | ⟨-, hc⟩
      · unfold PresenceSent
        rw [hc, (enqueue_sent ..).1]
        exact Sent.enqueue_other (h.presenceSent c t) rfl
      · rw [hc]
        exact h.presenceSent c t
    · rw [hother c hne]
      exact h.presenceSent c t
  have hrosterSent (c : κ) : RosterSent user may hub c (hub'.conn c) := by
    rcases eq_or_ne c target with rfl | hne
    · rcases htarget with ⟨-, -, hnew, hc⟩ | ⟨-, hc⟩
      · unfold RosterSent
        rw [hc, (enqueue_sent ..).2]
        refine Sent.enqueue (f := frame) (h.rosterSent c) rfl hnew hgen hviewOf fun hview => ?_
        rw [← hviewing hview]
        rfl
      · rw [hc]
        exact h.rosterSent c
    · rw [hother c hne]
      exact h.rosterSent c
  -- what is left of the targets
  have hleft {c : κ} (hne : c ≠ target) (hc : c ∈ targets) :
      .sendRoster only view gen viewing (targets.erase target) ∈ work.2 := by
    show _ ∈ if targets.erase target = ∅ then _ else _
    rw [if_neg (Finset.ne_empty_of_mem (Finset.mem_erase.2 ⟨hne, hc⟩))]
    exact List.mem_singleton_self _
  have hwork_mem {other : Task κ υ τ} (hmem : other ∈ work.2) :
      other = .sendRoster only view gen viewing (targets.erase target) := by
    have hmem : other ∈ if targets.erase target = ∅ then _ else _ := hmem
    split at hmem
    · cases hmem
    · exact List.mem_singleton.1 hmem
  -- the target was sent the frame, or one that is newer
  have hreached (hdone : (hub'.conn target).done = false) (hview : view = hub.moves) (hmem : target ∈ targets)
      (hsome : ¬ (only.isSome ∧ members = ∅)) :
      ∃ f ∈ (hub'.conn target).frames.filter (·.isRoster), f.view = hub'.moves := by
    rw [ht.moves]
    rcases htarget with ⟨-, -, -, hc⟩ | ⟨hnot, hc⟩
    · rw [hc] at hdone ⊢
      exact ⟨frame, List.mem_filter.2 ⟨by rw [(enqueue_done hdone).2]; simp, rfl⟩, hview⟩
    · rw [hc] at hdone ⊢
      have hsent := (h.rosterSent target).guarded
      rw [hdone] at hsent
      refine hsent.reached h.roster hpos ?_ (hviewOf.trans hview)
      by_contra hlt
      exact hnot ⟨hmem, hsome, by omega⟩
  refine ht.kept h (ht.sound h.toSound (fun t => ?_) ?_ (fun other hmem => ?_) (fun c t => ?_) fun c => ?_) nofun
    (fun c hc hdone hshows => ?_) fun c hc hdone hun => ?_
  · rw [hpresence, ht.changes]
    exact h.presence t
  · rw [hroster, ht.moves]
    exact h.roster
  · rw [hwork_mem hmem]
    refine TaskOk.later ht.later ⟨hpos, hgen, hviewOf, hle, hviewing, ?_⟩
    exact (Finset.erase_subset ..).trans hused
  · exact (hpresenceSent c t).later (h.presence t) ht.later (.of_frames rfl rfl rfl fun h => h)
  · exact (hrosterSent c).later h.roster ht.later (.of_frames rfl rfl rfl fun h => h)
  · cases only with
    | none =>
      obtain ⟨hview, hmem⟩ := hshows
      rcases eq_or_ne c target with rfl | hne
      · exact .inl (hreached hdone hview hmem nofun)
      · refine .inr (.inl ⟨_, ht.pending_new (hleft hne hmem), hview.trans ht.moves.symm, ?_⟩)
        exact Finset.mem_erase.2 ⟨hne, hmem⟩
    | some d => exact absurd hshows id
  · rcases eq_or_ne c target with rfl | hne
    · by_cases hsent : c ∈ targets ∧ ¬ (only.isSome ∧ members = ∅)
      · have hview := hun.present only view gen viewing targets ⟨_, List.mem_of_getElem? hi, List.mem_cons_self ..⟩ hsent.1
        exact .inl (hreached hdone hview hsent.1 hsent.2)
      · have hsame : hub'.conn c = hub.conn c := by
          rcases htarget with ⟨hmem, hsome, -, -⟩ | ⟨-, hc⟩
          · exact absurd ⟨hmem, hsome⟩ hsent
          · exact hc
        refine .inr (.inr (ht.unshown hun (by rw [hsame]) ?_ fun hgreets => .inl ?_))
        · intro only' view' gen' viewing' targets' hmem hc'
          cases hwork_mem hmem
          exact absurd hc' (Finset.notMem_erase c targets)
        · cases only with
          | none => exact absurd hgreets id
          | some d =>
            obtain ⟨hview, hmem⟩ := hgreets
            rw [← hviewing hview]
            by_contra hne
            exact hsent ⟨hmem, fun hempty => hne hempty.2⟩
    · refine .inr (.inr (ht.unshown hun (by rw [hother c hne]) ?_ fun hgreets => .inr ?_))
      · intro only' view' gen' viewing' targets' hmem hc'
        cases hwork_mem hmem
        exact hun.present only view gen viewing targets ⟨_, List.mem_of_getElem? hi, List.mem_cons_self ..⟩
          (Finset.mem_of_mem_erase hc')
      · cases only with
        | none => exact absurd hgreets id
        | some d =>
          obtain ⟨hview, hmem⟩ := hgreets
          exact ⟨_, hleft hne hmem, hview.trans ht.moves.symm, Finset.mem_erase.2 ⟨hne, hmem⟩⟩

/-! ## Runs -/

/-- A step of an operation. -/
theorem Kept.turn (h : Kept user may hub) (hordered : HubCall.Ordered hub (.turn i headSeq target : HubCall κ τ)) :
    Kept user may (hub.next user may (.turn i headSeq target)) := by
  cases hi : hub.running[i]? with
  | none =>
    have hsame : hub.next user may (.turn i headSeq target) = hub := by simp only [Hub.next, hi]
    rwa [hsame]
  | some tasks =>
    cases tasks with
    | nil =>
      have hsame : hub.next user may (.turn i headSeq target) = hub := by simp only [Hub.next, hi]
      rwa [hsame]
    | cons task rest =>
      cases task with
      | presence trip => exact turn_presence h hi
      | numberPresence trip targets view => exact turn_numberPresence h hi (hordered trip targets view rest hi)
      | sendPresence trip targets view gen cursors => exact turn_sendPresence h hi
      | roster only => exact turn_roster h hi
      | sendRoster only view gen viewing targets => exact turn_sendRoster h hi

/-- Every call keeps it. -/
theorem Kept.next (h : Kept user may hub) (call : HubCall κ τ) (hordered : call.Ordered hub) :
    Kept user may (hub.next user may call) := by
  by_cases hturn : ∃ i headSeq target, call = .turn i headSeq target
  · obtain ⟨i, headSeq, target, rfl⟩ := hturn
    exact h.turn hordered
  · obtain ⟨tasks, hs⟩ := next_starts h.used call fun i headSeq target hcall => hturn ⟨i, headSeq, target, hcall⟩
    exact hs.kept h

omit [DecidableEq κ] in
theorem kept_newHub : Kept user may (newHub : Hub κ υ τ) where
  used := Finset.Subset.refl _
  presence _ := ⟨fun _ _ _ _ => le_rfl, fun _ _ => le_rfl⟩
  roster := ⟨fun _ _ _ _ => le_rfl, fun _ _ => le_rfl⟩
  tasks := nofun
  presenceSent _ _ := Sent.nil
  rosterSent _ := Sent.nil
  told _ hc := absurd hc (Finset.notMem_empty _)
  shown _ hc := absurd hc (Finset.notMem_empty _)

/-! ## What was delivered -/

omit [DecidableEq υ] [DecidableEq τ] in
/-- What was delivered came in the order of the views. -/
theorem Sent.inOrder {α : Type} {n : Numbering} {version taken : Nat} {frames : List (Queued υ τ)} {lost : Bool}
    {read : Event υ τ → α} {truth : α} {sent : List (Queued υ τ)} (h : Sent n version taken frames lost read truth)
    (hn : n.Ordered version) (hsent : sent.Sublist frames) : sent.Pairwise fun f f' => f.view ≤ f'.view :=
  (h.guarded.pairwise_view hn).sublist hsent

omit [DecidableEq υ] [DecidableEq τ] in
/-- The last frame is true if there was one of the present view. -/
theorem Sent.last {α : Type} {n : Numbering} {version taken : Nat} {frames : List (Queued υ τ)} {lost : Bool}
    {read : Event υ τ → α} {truth : α} (h : Sent n version taken frames lost read truth) (hn : n.Ordered version)
    (hex : ∃ f ∈ frames, f.view = version) : ∃ f, frames.getLast? = some f ∧ read f.event = truth := by
  obtain ⟨f, hlast, hview⟩ := h.guarded.getLast_view hn hex
  exact ⟨f, hlast, h.truth f (List.mem_of_getLast? hlast) hview⟩

omit [DecidableEq κ] in
theorem Sound.inOrder (h : Sound user may hub) : hub.InOrder := by
  intro c
  have hsent (p : Queued υ τ → Bool) : ((hub.conn c).sent.filter p).Sublist ((hub.conn c).frames.filter p) :=
    (List.sublist_append_left _ _).filter p
  exact ⟨fun trip => (h.presenceSent c trip).inOrder (h.presence trip) (hsent _),
    (h.rosterSent c).inOrder h.roster (hsent _)⟩

omit [DecidableEq κ] in
/-- Once nothing is on its way, everyone who is to be told was told. -/
theorem Kept.settled (h : Kept user may hub) (hquiet : hub.Quiet) : hub.Settled user may := by
  intro c hc hdone
  have hframes : (hub.conn c).frames = (hub.conn c).sent := by
    rw [Conn.frames, hquiet.2 c hc hdone, List.append_nil]
  have hnone {task : Task κ υ τ} : ¬ hub.Pending task := by
    rintro ⟨tasks, htasks, hmem⟩
    rw [hquiet.1 tasks htasks] at hmem
    cases hmem
  constructor
  · intro trip htrip hmay
    rw [← hframes]
    rcases h.told c hc hdone trip htrip hmay with hex | ⟨task, hpending, -⟩
    · exact (h.presenceSent c trip).last (h.presence trip) hex
    · exact absurd hpending hnone
  · rw [← hframes]
    rcases h.shown c hc hdone with hex | ⟨task, hpending, -⟩ | hun
    · obtain ⟨f, hlast, hread⟩ := (h.rosterSent c).last h.roster hex
      rw [hlast]
      exact hread
    · exact absurd hpending hnone
    · rw [hun.none_sent]
      rcases hun.greeted with hempty | ⟨task, hpending, -⟩
      · exact hempty.symm
      · exact absurd hpending hnone

end

end Hub

/-- **Presence and rosters settle on the truth** in every run in which no presence broadcast takes a generation
after one that has read more recent subscribers. -/
theorem settles_after [DecidableEq κ] (user : κ → υ) (may : τ → υ → Bool) (calls : List (HubCall κ τ))
    (h : (hubMachine user may).Legal HubCall.Ordered newHub calls) :
    ((hubMachine user may).after newHub calls).InOrder ∧
      (((hubMachine user may).after newHub calls).Quiet →
        ((hubMachine user may).after newHub calls).Settled user may) := by
  have hkept : Hub.Kept user may ((hubMachine user may).after newHub calls) :=
    Machine.after_invariant (fun _ call hordered hkept => hkept.next call hordered) Hub.kept_newHub h
  exact ⟨hkept.inOrder, hkept.settled⟩

/-- A peer follows a trip, and is told that it is there. -/
def firstPeer : List (HubCall Nat String) :=
  [.connect 0, .subscribe 0 "T", .turn 1 0 0, .turn 1 0 0, .turn 1 0 0, .pump 0]

theorem settles_after_firstPeer :
    ((hubMachine id fun _ _ => true).after newHub firstPeer).InOrder ∧
      (((hubMachine id fun _ _ => true).after newHub firstPeer).Quiet →
        ((hubMachine id fun _ _ => true).after newHub firstPeer).Settled id fun _ _ => true) := by
  refine settles_after _ _ _ ?_
  simp only [firstPeer, Machine.legal_cons, Machine.legal_nil, and_true]
  exact ⟨trivial, trivial, (fun _ _ _ _ h => by cases h), fun _ _ _ _ _ => Nat.zero_le _,
    (fun _ _ _ _ h => by cases h), trivial⟩

/-- The second peer joins while the first one is being told that it is there. -/
def overtaken : List (HubCall Nat String) :=
  [.connect 0, .connect 1, .turn 0 0 0, .turn 0 0 0, .turn 1 0 1, .turn 1 0 1,
    .subscribe 0 "T", .turn 2 0 0, .subscribe 1 "T", .turn 3 0 0, .turn 3 0 0, .turn 3 0 0, .turn 2 0 0, .turn 2 0 0,
    .pump 0, .pump 0, .pump 1]

/-- The hub where everybody may receive everything, after that. -/
def overtakenHub : Hub Nat Nat String := (hubMachine id fun _ _ => true).after newHub overtaken

/-- The first peer was told of the second, and then that it is alone. -/
theorem overtaken_told :
    (overtakenHub.running.all List.isEmpty ∧
      ∀ c ∈ overtakenHub.conns, (overtakenHub.conn c).done = false → (overtakenHub.conn c).out = []) ∧
    (0 ∈ overtakenHub.conns ∧ (overtakenHub.conn 0).done = false ∧ "T" ∈ (overtakenHub.conn 0).trips) ∧
    ((overtakenHub.conn 0).sent.filter (·.ofTrip "T")).map (fun f => (f.event.devices, f.view)) =
      [({(0, 1), (1, 1)}, 2), ({(0, 1)}, 1)] ∧
    Hub.devicesOf id (overtakenHub.subscribersOf id (fun _ _ => true) "T") = {(0, 1), (1, 1)} := by
  decide +kernel

/-- The first peer does not learn that the second one is there. -/
theorem peer_is_missed : ¬ ∀ (user : Nat → Nat) (may : String → Nat → Bool) (calls : List (HubCall Nat String)),
    ((hubMachine user may).after newHub calls).InOrder ∧
      (((hubMachine user may).after newHub calls).Quiet →
        ((hubMachine user may).after newHub calls).Settled user may) := by
  intro h
  have hhub : overtakenHub.Quiet → overtakenHub.Settled id fun _ _ => true := (h id (fun _ _ => true) overtaken).2
  obtain ⟨⟨hrunning, hout⟩, ⟨hmem, hdone, htrip⟩, hframes, htruth⟩ := overtaken_told
  have hquiet : overtakenHub.Quiet :=
    ⟨fun tasks htasks => List.isEmpty_iff.1 (List.all_eq_true.1 hrunning tasks htasks), hout⟩
  obtain ⟨f, hlast, hdevices⟩ := (hhub hquiet 0 hmem hdone).1 "T" htrip rfl
  have hpair := congrArg List.getLast? hframes
  rw [List.getLast?_map, hlast, Option.map_some, hdevices, htruth] at hpair
  have hsame : ({(0, 1), (1, 1)} : Finset (Nat × Nat)) = {(0, 1)} := congrArg Prod.fst (Option.some.inj hpair)
  exact absurd hsame (by decide)

end JitPack
