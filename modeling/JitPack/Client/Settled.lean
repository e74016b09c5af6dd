import JitPack.Client.Refresh

/-!
# What a refresh settles

A position is settled when the ledger says of it what the templates say (`Settled`): the refresh pushes nothing for it,
whatever has become of its row. Writing the ledger half of a plan settles every position that the plan is about, so the
plan that was accepted is not offered again, nor is the one that was declined, until the templates ask for something
else (`refresh_settles`).

For this the entries have to be kept apart (`Separate`): a row that moves under one entry is named by no other one, and
an addition takes the id of no row that is there or was.
-/

namespace JitPack

namespace Refresh

section
variable {κ : Type*} [LinearOrder κ] {collate : String → κ} {s s' : RefreshInput} {p q : Position} {k : String}
variable {entry e x : GeneratedPosition} {row : TripItem}

/-! ## The keys of the positions -/

/-- The travelers' ids are distinct texts without the separator of `positionKey`. -/
structure Named (travelers : List Traveler) : Prop where
  nodup : (travelers.map (·.id)).Nodup
  nonempty : ∀ t ∈ travelers, t.id ≠ ""
  plain : ∀ t ∈ travelers, '|' ∉ t.id.toList

theorem defaultAssigneeIndex_generation (master : CategorisedMasterItem) :
    defaultAssigneeIndex master (generation s).travelers = none := by
  have hnone : ∀ account : String,
      (generation s).travelers.findIdx? (·.linkedUserId = some account) = none := fun account => by
    simp [generation]
  unfold defaultAssigneeIndex
  cases master.defaultAssigneeId with
  | none => rfl
  | some account =>
    dsimp only
    rw [hnone, ite_self]

/-- No row goes to a default assignee: the key of a row shows its traveler. -/
theorem key_generated {i : GeneratedItem} (h : i ∈ (generateTripItems collate (generation s)).items) :
    i.key = (i.sourceItemId, i.travelerIndex) := by
  have hrow : i ∈ placedRows collate (generation s) := by
    rw [items_eq] at h
    simpa [singleRows, generation, Insertion.ofList] using h
  have hrow := mem_placedRows.1 hrow
  cases hcs : contributionsTo collate (generation s) i.key with
  | nil => simp [hcs, rowOf_eq_none.2] at hrow
  | cons c cs =>
    rw [hcs, rowOf_cons] at hrow
    rw [← Option.some.inj hrow]
    simp only [GeneratedItem.key, Contribution.entry, defaultAssigneeIndex_generation, Option.or_none]
    cases c.travelerIndex <;> simp

theorem positionKey_inj {a b : ItemId} {t u : String} (ht : '|' ∉ t.toList) (hu : '|' ∉ u.toList)
    (h : positionKey a t = positionKey b u) : a = b ∧ t = u := by
  have hlist : a.text.toList ++ '|' :: t.toList = b.text.toList ++ '|' :: u.toList := by
    simpa [positionKey] using congrArg String.toList h
  obtain ⟨hitem, htraveler⟩ := append_separator_inj ht hu hlist
  exact ⟨ItemId.ext_text (String.toList_inj.1 hitem), String.toList_inj.1 htraveler⟩

section
variable {travelers : List Traveler} {i j : GeneratedItem}

/-- What a position keeps of its row. -/
theorem positionOf_some (h : positionOf travelers i = some p) : p.generated = i ∧
    (i.travelerIndex = none ∧ p.travelerId = "" ∨
      ∃ n t, i.travelerIndex = some n ∧ travelers[n]? = some t ∧ p.travelerId = t.id) := by
  unfold positionOf at h
  cases hindex : i.travelerIndex with
  | none =>
    rw [hindex] at h
    obtain ⟨_, -, rfl⟩ := Option.map_eq_some_iff.1 h
    exact ⟨rfl, .inl ⟨rfl, rfl⟩⟩
  | some n =>
    rw [hindex] at h
    obtain ⟨t, ht, h⟩ := Option.bind_eq_some_iff.1 h
    obtain ⟨_, -, rfl⟩ := Option.map_eq_some_iff.1 h
    exact ⟨rfl, .inr ⟨n, t, rfl, ht, rfl⟩⟩

theorem plain_travelerId (hn : Named travelers) (hp : positionOf travelers i = some p) :
    '|' ∉ p.travelerId.toList := by
  obtain ⟨-, ⟨-, hid⟩ | ⟨n, t, -, ht, hid⟩⟩ := positionOf_some hp
  · simp [hid]
  · rw [hid]
    exact hn.plain t (List.mem_of_getElem? ht)

/-- The traveler of a position tells the index in its row. -/
theorem travelerIndex_inj (hn : Named travelers) (hp : positionOf travelers i = some p)
    (hq : positionOf travelers j = some q) (h : p.travelerId = q.travelerId) :
    i.travelerIndex = j.travelerIndex := by
  obtain ⟨-, ⟨hi, hid⟩ | ⟨m, t, hi, ht, hid⟩⟩ := positionOf_some hp <;>
    obtain ⟨-, ⟨hj, hid'⟩ | ⟨n, u, hj, hu, hid'⟩⟩ := positionOf_some hq <;> rw [hid, hid'] at h
  · rw [hi, hj]
  · exact absurd h.symm (hn.nonempty u (List.mem_of_getElem? hu))
  · exact absurd h (hn.nonempty t (List.mem_of_getElem? ht))
  · -- The travelers' ids are distinct, so the two indices are one.
    have hlt : m < (travelers.map (·.id)).length := by simpa using (List.getElem?_eq_some_iff.1 ht).1
    have hids : (travelers.map (·.id))[m]? = (travelers.map (·.id))[n]? := by
      rw [List.getElem?_map, List.getElem?_map, ht, hu, Option.map_some, Option.map_some, h]
    rw [hi, hj, (List.getElem?_inj hlt hn.nodup).1 hids]

end

/-- **The positions of a trip have distinct keys.** -/
theorem nodup_keys_positions (hn : Named s.travelers) : ((positions collate s).map Position.key).Nodup := by
  have hitems : ((generateTripItems collate (generation s)).items.map (·.key)).Nodup := nodup_keys_items
  refine List.pairwise_map.2 (List.pairwise_filterMap.2 ?_)
  refine (List.pairwise_map.1 hitems).imp_of_mem fun {i j} hi hj hne p hp q hq hkey => hne ?_
  obtain ⟨hitem, htraveler⟩ := positionKey_inj (plain_travelerId hn hp) (plain_travelerId hn hq) hkey
  rw [(positionOf_some hp).1, (positionOf_some hq).1] at hitem
  rw [key_generated hi, key_generated hj, hitem, travelerIndex_inj hn hp hq htraveler]

/-! ## The ledger of a trip -/

/-- The ledger holds one entry under each id, which is derived from what the entry is about. -/
structure Recorded (s : RefreshInput) : Prop where
  nodup : (s.ledger.map (·.id)).Nodup
  derived : ∀ e ∈ s.ledger, e.id = deriveId "ledger" s.trip.id (entryKey e)

/-- The keys that the refresh of a trip is about. -/
def keys (collate : String → κ) (s : RefreshInput) : Set String :=
  {k | (∃ p ∈ positions collate s, p.key = k) ∨ ∃ e ∈ s.ledger, entryKey e = k}

/-- The keys tell the positions apart, and so do the ids of their entries. -/
structure KeysApart (collate : String → κ) (s : RefreshInput) : Prop where
  named : Named s.travelers
  hashed : Set.InjOn (deriveId "ledger" s.trip.id) (keys collate s)

theorem Recorded.nodup_keys (h : Recorded s) : (s.ledger.map entryKey).Nodup := by
  have hids : s.ledger.map (·.id) = (s.ledger.map entryKey).map (deriveId "ledger" s.trip.id) := by
    rw [List.map_map]
    exact List.map_congr_left h.derived
  have hnodup := h.nodup
  rw [hids] at hnodup
  exact hnodup.of_map _

theorem entryOf_eq_some (h : Recorded s) : entryOf s k = some e ↔ e ∈ s.ledger ∧ entryKey e = k :=
  Keyed.last_eq_some_iff h.nodup_keys

theorem entryOf_eq_none : entryOf s k = none ↔ ∀ e ∈ s.ledger, entryKey e ≠ k := Keyed.last_eq_none_iff

/-! ## The ledger after an answer -/

/-- An entry that a position pushes says what the position says. -/
theorem upsert_planPosition (hr : Recorded s) (h : x ∈ (planPosition s p).ledgerUpsert) :
    entryKey x = p.key ∧ content x = p.content ∧ x.id = deriveId "ledger" s.trip.id p.key := by
  obtain ⟨-, existing, -, hplan⟩ | ⟨-, -, a, -, hledger, hplan⟩ | ⟨_, -, hplan, -⟩ |
    ⟨entry, row, hentry, -, -, -, u, _, -, hledger, hplan⟩ := planPosition_cases s p <;> rw [hplan] at h
  · obtain rfl := List.mem_singleton.1 h
    exact ⟨rfl, rfl, rfl⟩
  · obtain rfl := List.mem_singleton.1 h
    rw [hledger]
    exact ⟨rfl, rfl, rfl⟩
  · cases h
  · obtain rfl := List.mem_singleton.1 h
    obtain ⟨hmem, hkey⟩ := (entryOf_eq_some hr).1 hentry
    rw [hledger]
    exact ⟨rfl, rfl, hkey ▸ hr.derived entry hmem⟩

theorem upsertKeys_planPosition (hr : Recorded s) :
    ((planPosition s p).ledgerUpsert.map entryKey).Sublist [p.key] := by
  have hkey : ∀ x ∈ (planPosition s p).ledgerUpsert, entryKey x = p.key := fun x hx => (upsert_planPosition hr hx).1
  obtain ⟨-, existing, -, hplan⟩ | ⟨-, -, a, -, -, hplan⟩ | ⟨_, -, hplan, -⟩ |
    ⟨_, _, -, -, -, -, u, _, -, -, hplan⟩ := planPosition_cases s p <;> rw [hplan] at hkey ⊢
  · simp
  · simp [hkey a.ledger (List.mem_singleton_self _)]
  · simp
  · simp [hkey u.ledger (List.mem_singleton_self _)]

theorem ledgerUpsert_planRefresh : (planRefresh collate s).ledgerUpsert =
    if Follows s then (positions collate s).flatMap fun p => (planPosition s p).ledgerUpsert else [] := by
  unfold planRefresh
  split
  · next h =>
    rw [if_pos (show Follows s from h), foldl_push (·.ledgerUpsert) fun _ _ => rfl]
    simp [List.flatMap_map, planGone_pushes]
  · next h => rw [if_neg (show ¬ Follows s from h)]

theorem upsertKeys_planRefresh (hr : Recorded s) :
    ((planRefresh collate s).ledgerUpsert.map entryKey).Sublist ((positions collate s).map Position.key) := by
  rw [ledgerUpsert_planRefresh]
  split
  · induction positions collate s with
    | nil => exact .slnil
    | cons p ps ih =>
      rw [List.flatMap_cons, List.map_append]
      exact (upsertKeys_planPosition hr).append ih
  · exact List.nil_sublist _

theorem id_of_mem_upsert (hr : Recorded s) (h : x ∈ (planRefresh collate s).ledgerUpsert) :
    x.id = deriveId "ledger" s.trip.id (entryKey x) := by
  obtain ⟨-, p, -, hx⟩ := mem_ledgerUpsert.1 h
  obtain ⟨hkey, -, hid⟩ := upsert_planPosition hr hx
  rw [hid, hkey]

theorem key_of_mem_upsert (hr : Recorded s) (h : x ∈ (planRefresh collate s).ledgerUpsert) :
    entryKey x ∈ (positions collate s).map Position.key :=
  (upsertKeys_planRefresh hr).subset (List.mem_map_of_mem h)

theorem nodup_upsert (hr : Recorded s) (hk : KeysApart collate s) :
    ((planRefresh collate s).ledgerUpsert.map (·.id)).Nodup := by
  have hkeys : ((planRefresh collate s).ledgerUpsert.map entryKey).Nodup :=
    (nodup_keys_positions hk.named).sublist (upsertKeys_planRefresh hr)
  have hids : (planRefresh collate s).ledgerUpsert.map (·.id) =
      ((planRefresh collate s).ledgerUpsert.map entryKey).map (deriveId "ledger" s.trip.id) := by
    rw [List.map_map]
    exact List.map_congr_left fun x hx => id_of_mem_upsert hr hx
  rw [hids]
  refine hkeys.map_on fun k hmem k' hmem' heq => hk.hashed ?_ ?_ heq
  · obtain ⟨p, hp, rfl⟩ := List.mem_map.1 ((upsertKeys_planRefresh hr).subset hmem)
    exact .inl ⟨p, hp, rfl⟩
  · obtain ⟨p, hp, rfl⟩ := List.mem_map.1 ((upsertKeys_planRefresh hr).subset hmem')
    exact .inl ⟨p, hp, rfl⟩

/-- The entries of the ledger that a plan neither writes nor drops. -/
def Kept (collate : String → κ) (s : RefreshInput) (e : GeneratedPosition) : Prop :=
  e ∈ s.ledger ∧ entryKey e ∉ (planRefresh collate s).ledgerUpsert.map entryKey ∧
    e.id ∉ (planRefresh collate s).ledgerDelete

theorem id_of_mem_delete {id : String} (h : id ∈ (planRefresh collate s).ledgerDelete) :
    ∃ e ∈ goneEntries collate s, e.id = id := by
  obtain ⟨-, e, he, hid⟩ := mem_ledgerDelete.1 h
  obtain ⟨-, hplan⟩ | ⟨_, -, -, hplan⟩ | ⟨_, _, -, -, hplan⟩ := planGone_cases s e <;> rw [hplan] at hid
  · exact ⟨e, he, (List.mem_singleton.1 hid).symm⟩
  · cases hid
  · exact ⟨e, he, (List.mem_singleton.1 hid).symm⟩

/-- After an answer the ledger holds what the plan wrote and what it kept. -/
theorem mem_answeredLedger (hr : Recorded s) (hk : KeysApart collate s) :
    x ∈ answeredLedger (planRefresh collate s) s.ledger ↔ x ∈ (planRefresh collate s).ledgerUpsert ∨ Kept collate s x := by
  have hmem : ∀ {k}, k ∈ (planRefresh collate s).ledgerUpsert.map entryKey → k ∈ keys collate s := fun h => by
    obtain ⟨p, hp, rfl⟩ := List.mem_map.1 ((upsertKeys_planRefresh hr).subset h)
    exact .inl ⟨p, hp, rfl⟩
  rw [answeredLedger, Keyed.mem_drops, Keyed.mem_puts (nodup_upsert hr hk), or_and_right, and_assoc]
  refine or_congr ⟨And.left, fun hx => ⟨hx, fun hdelete => ?_⟩⟩ (and_congr_right fun hx => and_congr_left' (not_congr ?_))
  · -- What is dropped has no position, and what is written has one.
    obtain ⟨e, he, hid⟩ := id_of_mem_delete hdelete
    obtain ⟨hemem, hgone⟩ := List.mem_filter.1 he
    rw [hr.derived e hemem, id_of_mem_upsert hr hx] at hid
    have hkey := hk.hashed (.inr ⟨e, hemem, rfl⟩) (hmem (List.mem_map_of_mem hx)) hid
    exact of_decide_eq_true hgone (hkey ▸ key_of_mem_upsert hr hx)
  · simp only [List.mem_map]
    constructor
    · rintro ⟨u, hu, hid⟩
      rw [hr.derived x hx, id_of_mem_upsert hr hu] at hid
      exact ⟨u, hu, hk.hashed (hmem (List.mem_map_of_mem hu)) (.inr ⟨x, hx, rfl⟩) hid⟩
    · rintro ⟨u, hu, hkey⟩
      exact ⟨u, hu, by rw [hr.derived x hx, id_of_mem_upsert hr hu, hkey]⟩

/-! ## Answers -/

/-- The trip after an answer to its plan: the ledger half is written, and of the rows only the named ones changed. -/
structure Answered (collate : String → κ) (rows : Set String) (s s' : RefreshInput) : Prop where
  frame : ∃ items prepTasks,
    s' = { s with items, prepTasks, ledger := answeredLedger (planRefresh collate s) s.ledger }
  row : ∀ id ∉ rows, rowById s' id = rowById s id
  prepTasks : ∀ task ∈ s'.prepTasks, task.tripItemId ∉ rows → task ∈ s.prepTasks

variable {drawn : ℕ → String × TaskFacts} {plan : RefreshPlan} {rows : Set String}

/-- A plan with the ledger half of the refresh is an answer, and changes its own rows. -/
theorem answered_apply (hupsert : plan.ledgerUpsert = (planRefresh collate s).ledgerUpsert)
    (hdelete : plan.ledgerDelete = (planRefresh collate s).ledgerDelete) :
    Answered collate (plannedRows plan) s (applyRefreshPlan drawn plan s) := by
  have hledger : ∀ ledger, answeredLedger plan ledger = answeredLedger (planRefresh collate s) ledger := fun ledger => by
    rw [answeredLedger, answeredLedger, hupsert, hdelete]
  unfold applyRefreshPlan
  split
  · next hempty =>
    simp only [isEmptyPlan, Bool.and_eq_true, List.isEmpty_iff] at hempty
    refine ⟨⟨s.items, s.prepTasks, ?_⟩, fun _ _ => rfl, fun _ h _ => h⟩
    rw [← hledger, answeredLedger, hempty.1.2, hempty.2]
    rfl
  · refine ⟨?_, fun id hid => rowById_writeAll fun w hw htarget => hid (target_of_mem_planWrites hw htarget),
      fun task htask hid => ?_⟩
    · obtain ⟨items, prepTasks, h⟩ := writeAll_frame drawn (planWrites s.trip.id plan) s
      exact ⟨items, prepTasks, by rw [h, ledger_planWrites, hledger]⟩
    · obtain hmem | ⟨w, hw, htarget⟩ := prepTasks_writeAll htask
      · exact hmem
      · exact absurd (target_of_mem_planWrites hw htarget) hid

theorem answered_accept : Answered collate (plannedRows (planRefresh collate s)) s
    (applyRefreshPlan drawn (planRefresh collate s) s) := answered_apply rfl rfl

/-- The answer "no" changes no row. -/
theorem answered_decline : Answered collate ∅ s
    (applyRefreshPlan drawn (declinePlan (planRefresh collate s)) s) := by
  have hrows : plannedRows (declinePlan (planRefresh collate s)) = ∅ := by
    ext id
    simp [plannedRows, declinePlan]
  rw [← hrows]
  exact answered_apply rfl rfl

section
variable (h : Answered collate rows s s')
include h

theorem Answered.trip_eq : s'.trip = s.trip := by
  obtain ⟨_, _, rfl⟩ := h.frame
  rfl

theorem Answered.positions_eq : positions collate s' = positions collate s := by
  obtain ⟨_, _, rfl⟩ := h.frame
  rfl

theorem Answered.follows_iff : Follows s' ↔ Follows s := by
  obtain ⟨_, _, rfl⟩ := h.frame
  rfl

theorem Answered.ledger_eq : s'.ledger = answeredLedger (planRefresh collate s) s.ledger := by
  obtain ⟨_, _, rfl⟩ := h.frame
  rfl

theorem Answered.mem_ledger (hr : Recorded s) (hk : KeysApart collate s) :
    x ∈ s'.ledger ↔ x ∈ (planRefresh collate s).ledgerUpsert ∨ Kept collate s x := by
  rw [h.ledger_eq, mem_answeredLedger hr hk]

/-- An answer keeps the ledger in order. -/
theorem Answered.recorded (hr : Recorded s) (hk : KeysApart collate s) : Recorded s' where
  nodup := by
    rw [h.ledger_eq]
    exact Keyed.nodup_drops (Keyed.nodup_puts hr.nodup)
  derived e he := by
    rw [h.trip_eq]
    obtain he | he := (h.mem_ledger hr hk).1 he
    · exact id_of_mem_upsert hr he
    · exact hr.derived e he.1

end

/-! ## Settled positions -/

/-- What the templates ask for under a key. -/
def asked (collate : String → κ) (s : RefreshInput) (k : String) : Option (PropagatedFields × Finset String) :=
  ((positions collate s).find? (·.key = k)).map Position.content

/-- The ledger says of a key what the templates say. -/
def Settled (collate : String → κ) (s : RefreshInput) (k : String) : Prop :=
  (entryOf s k).map content = asked collate s k

/-- The plan writes or drops the entry of a key. -/
def Pushed (collate : String → κ) (s : RefreshInput) (k : String) : Prop :=
  k ∈ (planRefresh collate s).ledgerUpsert.map entryKey ∨
    ∃ e ∈ goneEntries collate s, e.id ∈ (planRefresh collate s).ledgerDelete ∧ entryKey e = k

theorem asked_eq_none : asked collate s k = none ↔ k ∉ (positions collate s).map Position.key := by
  simp [asked]

theorem asked_position (hn : Named s.travelers) (hp : p ∈ positions collate s) :
    asked collate s p.key = some p.content := by
  obtain ⟨q, hq⟩ : ∃ q, (positions collate s).find? (·.key = p.key) = some q :=
    Option.isSome_iff_exists.1 (List.find?_isSome.2 ⟨p, hp, by simp⟩)
  have hkey : q.key = p.key := by simpa using List.find?_some hq
  have hqp : q = p := Keyed.eq_of_key (nodup_keys_positions hn) (List.mem_of_find?_eq_some hq) hp hkey
  rw [asked, hq, hqp, Option.map_some]

/-- A settled position has an entry that says what it says. -/
theorem Settled.exists_entry (h : Settled collate s p.key) (hn : Named s.travelers) (hp : p ∈ positions collate s) :
    ∃ e, entryOf s p.key = some e ∧ content e = p.content := by
  rw [Settled, asked_position hn hp] at h
  exact Option.map_eq_some_iff.1 h

theorem Settled.no_entry (h : Settled collate s k) (hk : k ∉ (positions collate s).map Position.key) :
    entryOf s k = none := by
  rw [Settled, asked_eq_none.2 hk] at h
  exact Option.map_eq_none_iff.1 h

theorem mem_positions_or (collate : String → κ) (s : RefreshInput) (k : String) :
    (∃ p ∈ positions collate s, p.key = k) ∨ k ∉ (positions collate s).map Position.key := by
  rw [← List.mem_map]
  exact em _

/-- Nothing is pushed for a settled position. -/
theorem Settled.not_pushed (h : Settled collate s k) (hr : Recorded s) (hn : Named s.travelers) :
    ¬ Pushed collate s k := by
  rintro (hupsert | ⟨e, he, -, rfl⟩)
  · obtain ⟨x, hx, rfl⟩ := List.mem_map.1 hupsert
    obtain ⟨-, p, hp, hx⟩ := mem_ledgerUpsert.1 hx
    obtain ⟨hkey, -, -⟩ := upsert_planPosition hr hx
    obtain ⟨e, he, hc⟩ := Settled.exists_entry (hkey ▸ h) hn hp
    rw [planPosition_settled he hc] at hx
    cases hx
  · obtain ⟨hmem, hgone⟩ := List.mem_filter.1 he
    exact entryOf_eq_none.1 (h.no_entry (of_decide_eq_true hgone)) e hmem rfl

/-- An entry of a settled position stays. -/
theorem Settled.kept (h : Settled collate s p.key) (hr : Recorded s) (hn : Named s.travelers)
    (hp : p ∈ positions collate s) (he : entryOf s p.key = some e) : Kept collate s e := by
  obtain ⟨hmem, hkey⟩ := (entryOf_eq_some hr).1 he
  refine ⟨hmem, fun hupsert => h.not_pushed hr hn (.inl (hkey ▸ hupsert)), fun hdelete => ?_⟩
  obtain ⟨e', he', hid⟩ := id_of_mem_delete hdelete
  obtain ⟨hmem', hgone⟩ := List.mem_filter.1 he'
  obtain rfl := Keyed.eq_of_key hr.nodup hmem' hmem hid
  exact of_decide_eq_true hgone (hkey ▸ List.mem_map_of_mem hp)

section
variable (h : Answered collate rows s s') (hr : Recorded s) (hk : KeysApart collate s)
include h hr hk

/-- **An answer settles every position that the plan is about.** -/
theorem settled_of_pushed (hpushed : Pushed collate s k) : Settled collate s' k := by
  obtain hupsert | ⟨e, he, hdelete, rfl⟩ := hpushed
  · obtain ⟨x, hx, rfl⟩ := List.mem_map.1 hupsert
    obtain ⟨-, p, hp, hpx⟩ := mem_ledgerUpsert.1 hx
    obtain ⟨hkey, hc, -⟩ := upsert_planPosition hr hpx
    have hentry : entryOf s' (entryKey x) = some x :=
      (entryOf_eq_some (h.recorded hr hk)).2 ⟨(h.mem_ledger hr hk).2 (.inl hx), rfl⟩
    have hasked : asked collate s' p.key = asked collate s p.key := by
      simp only [asked, h.positions_eq]
    rw [Settled, hentry, hkey, hasked, asked_position hk.named hp, Option.map_some, hc]
  · obtain ⟨hmem, hgone⟩ := List.mem_filter.1 he
    have hgone := of_decide_eq_true hgone
    have hnone : entryOf s' (entryKey e) = none := by
      refine entryOf_eq_none.2 fun x hx hkey => ?_
      obtain hx | ⟨hx, -, hkept⟩ := (h.mem_ledger hr hk).1 hx
      · exact hgone (hkey ▸ key_of_mem_upsert hr hx)
      · obtain rfl := Keyed.eq_of_key hr.nodup_keys hx hmem hkey
        exact hkept hdelete
    rw [Settled, hnone, Option.map_none, eq_comm, asked_eq_none, h.positions_eq]
    exact hgone

/-- An answer leaves a settled position settled. -/
theorem settled_answered (hs : Settled collate s k) : Settled collate s' k := by
  have hasked : asked collate s' k = asked collate s k := by
    simp only [asked, h.positions_eq]
  rw [Settled, hasked, ← hs]
  obtain ⟨p, hp, rfl⟩ | hgone := mem_positions_or collate s k
  · obtain ⟨e, he, -⟩ := hs.exists_entry hk.named hp
    have hkept := hs.kept hr hk.named hp he
    have he' : entryOf s' p.key = some e :=
      (entryOf_eq_some (h.recorded hr hk)).2 ⟨(h.mem_ledger hr hk).2 (.inr hkept), ((entryOf_eq_some hr).1 he).2⟩
    rw [he, he']
  · have hnone : entryOf s' k = none := by
      refine entryOf_eq_none.2 fun x hx hkey => ?_
      obtain hx | hx := (h.mem_ledger hr hk).1 hx
      · exact hgone (hkey ▸ key_of_mem_upsert hr hx)
      · exact entryOf_eq_none.1 (hs.no_entry hgone) x hx.1 hkey
    rw [hnone, hs.no_entry hgone]

end

/-! ## The plan after an answer -/

/-- A row that is left alone stays so, if its fields are as they were and it has been given no preparation. -/
theorem planRow_of_eq_empty (h : planRow s p e row = {})
    (hprep : ∀ task ∈ s'.prepTasks, task.tripItemId = row.id → task ∈ s.prepTasks) : planRow s' p e row = {} := by
  refine planRow_eq_empty.2 ((planRow_eq_empty.1 h).imp_right fun ⟨hfields, hgained, hlost⟩ =>
    ⟨hfields, hgained, List.eq_nil_iff_forall_not_mem.2 fun task htask => ?_⟩)
  obtain ⟨hmem, hrow, hrest⟩ := mem_lostPrepTasks.1 htask
  exact List.eq_nil_iff_forall_not_mem.1 hlost task (mem_lostPrepTasks.2 ⟨hprep task hmem hrow, hrow, hrest⟩)

/-- **After an answer there is nothing left to plan**, if the rows of the kept entries have not changed. -/
theorem planRefresh_answered (h : Answered collate rows s s') (hr : Recorded s) (hk : KeysApart collate s)
    (hrows : ∀ e, Kept collate s e → e.tripItemId ∉ rows) : planRefresh collate s' = {} := by
  by_cases hf : Follows s
  swap
  · exact if_neg fun hf' => hf (h.follows_iff.1 hf')
  have hentry : ∀ {e}, Kept collate s e → entryOf s' (entryKey e) = some e := fun hkept =>
    (entryOf_eq_some (h.recorded hr hk)).2 ⟨(h.mem_ledger hr hk).2 (.inr hkept), rfl⟩
  have hrow : ∀ {e}, Kept collate s e → rowById s' e.tripItemId = rowById s e.tripItemId := fun hkept =>
    h.row _ (hrows _ hkept)
  refine planRefresh_eq_empty (fun p hp => ?_) fun e he => ?_
  · rw [h.positions_eq] at hp
    by_cases hpushed : Pushed collate s p.key
    · -- The ledger now says of the position what the templates say.
      have hs := settled_of_pushed h hr hk hpushed
      have hn : Named s'.travelers := by
        obtain ⟨_, _, rfl⟩ := h.frame
        exact hk.named
      obtain ⟨e, he, hc⟩ := hs.exists_entry hn (h.positions_eq.symm ▸ hp)
      exact planPosition_settled he hc
    · -- The position was left alone, and so was its row.
      have hnone : ∀ x ∈ (planPosition s p).ledgerUpsert, False := fun x hx =>
        hpushed (.inl ((upsert_planPosition hr hx).1 ▸ List.mem_map_of_mem (mem_ledgerUpsert.2 ⟨hf, p, hp, hx⟩)))
      obtain ⟨-, existing, -, hplan⟩ | ⟨-, -, a, -, -, hplan⟩ | ⟨e, he, -, hplan⟩ |
        ⟨_, _, -, -, -, -, u, _, -, -, hplan⟩ := planPosition_cases s p
      · rw [hplan] at hnone
        exact (hnone _ (List.mem_singleton_self _)).elim
      · rw [hplan] at hnone
        exact (hnone _ (List.mem_singleton_self _)).elim
      · obtain ⟨hmem, hkey⟩ := (entryOf_eq_some hr).1 he
        have hkept : Kept collate s e := by
          refine ⟨hmem, fun hupsert => hpushed (.inl (hkey ▸ hupsert)), fun hdelete => ?_⟩
          obtain ⟨e', he', hid⟩ := id_of_mem_delete hdelete
          obtain rfl := Keyed.eq_of_key hr.nodup (List.mem_filter.1 he').1 hmem hid
          exact hpushed (.inr ⟨e', he', hdelete, hkey⟩)
        have he' : entryOf s' p.key = some e := hkey ▸ hentry hkept
        cases hby : rowById s e.tripItemId with
        | none => exact planPosition_missing he' ((hrow hkept).trans hby)
        | some row =>
          rw [planPosition_row he' ((hrow hkept).trans hby)]
          refine planRow_of_eq_empty (hplan row hby) fun task htask hid => ?_
          have hrowid : row.id = e.tripItemId := (Keyed.mem_of_last hby).2
          exact h.prepTasks task htask (hid.trans hrowid ▸ hrows e hkept)
      · rw [hplan] at hnone
        exact (hnone _ (List.mem_singleton_self _)).elim
  · obtain ⟨hmem, hgone⟩ := List.mem_filter.1 he
    have hgone := of_decide_eq_true hgone
    rw [h.positions_eq] at hgone
    obtain hx | hkept := (h.mem_ledger hr hk).1 hmem
    · exact absurd (key_of_mem_upsert hr hx) hgone
    · have hmemgone : e ∈ goneEntries collate s := List.mem_filter.2 ⟨hkept.1, decide_eq_true hgone⟩
      have hnone : e.id ∉ (planGone s e).ledgerDelete := fun hdelete =>
        hkept.2.2 (mem_ledgerDelete.2 ⟨hf, e, hmemgone, hdelete⟩)
      obtain ⟨-, hplan⟩ | ⟨row, hby, hprotected, -⟩ | ⟨_, _, -, -, hplan⟩ := planGone_cases s e
      · exact absurd (hplan ▸ List.mem_singleton_self _) hnone
      · unfold planGone
        rw [hrow hkept, hby]
        exact if_pos hprotected
      · exact absurd (hplan ▸ List.mem_singleton_self _) hnone

/-! ## Rows of their own -/

/-- The row of an entry moves: it is there and not protected, and its position moved or is gone. -/
def Moves (collate : String → κ) (s : RefreshInput) (e : GeneratedPosition) (row : TripItem) : Prop :=
  rowById s e.tripItemId = some row ∧ ¬ isProtected row e ∧
    ((∃ p ∈ positions collate s, p.key = entryKey e ∧ ¬ UpToDate s p e row) ∨
      entryKey e ∉ (positions collate s).map Position.key)

/-- The position is to become a new row. -/
def Unrecorded (s : RefreshInput) (p : Position) : Prop := entryOf s p.key = none ∧ rowOfKey s p.key = none

/-- No row moves under one entry and is protected under another, and no new row takes the id of one that is there. -/
structure Unshared (collate : String → κ) (s : RefreshInput) : Prop where
  row : ∀ e ∈ s.ledger, ∀ row, Moves collate s e row → ∀ e' ∈ s.ledger, e'.tripItemId = row.id → ¬ isProtected row e'
  id : ∀ p ∈ positions collate s, Unrecorded s p → deriveId "item" s.trip.id p.key ∉ s.items.map (·.id)

/-- A row that moves is named by one entry, and a new row takes the id of no row that is there or was. -/
structure Separate (collate : String → κ) (s : RefreshInput) : Prop where
  row : ∀ e ∈ s.ledger, ∀ row, Moves collate s e row → ∀ e' ∈ s.ledger, e'.tripItemId = row.id → e' = e
  id : ∀ p ∈ positions collate s, Unrecorded s p → deriveId "item" s.trip.id p.key ∉ s.items.map (·.id)
  gone : ∀ p ∈ positions collate s, Unrecorded s p → deriveId "item" s.trip.id p.key ∉ s.ledger.map (·.tripItemId)

/-- The plan leaves to the user what is the user's: no row that it changes or removes is protected under an entry that
names it, and no row that it adds takes the place of another one. -/
structure Respects (s : RefreshInput) (plan : RefreshPlan) : Prop where
  update : ∀ u ∈ plan.update, ∀ e ∈ s.ledger, e.tripItemId = u.item.id → ¬ isProtected u.item e
  remove : ∀ r ∈ plan.remove, ∀ e ∈ s.ledger, e.tripItemId = r.item.id → ¬ isProtected r.item e
  add : ∀ a ∈ plan.add, a.tripItemId ∉ s.items.map (·.id)

theorem Separate.unshared (h : Separate collate s) : Unshared collate s where
  row e he row hmoves e' he' hrow := by
    rw [h.row e he row hmoves e' he' hrow]
    exact hmoves.2.1
  id := h.id

/-- A change moves the row of its entry. -/
theorem moves_of_update {u : PlannedUpdate} (hr : Recorded s) (h : u ∈ (planRefresh collate s).update) :
    ∃ e ∈ s.ledger, Moves collate s e u.item ∧ u.ledger ∈ (planRefresh collate s).ledgerUpsert ∧
      entryKey u.ledger = entryKey e := by
  obtain ⟨hf, p, hp, hu⟩ := mem_update.1 h
  obtain ⟨-, existing, -, hplan⟩ | ⟨-, -, a, -, -, hplan⟩ | ⟨_, -, hplan, -⟩ |
    ⟨e, row, he, hrow, hprotected, hmoved, u', _, hitem, hledger, hplan⟩ := planPosition_cases s p <;> rw [hplan] at hu
  · cases hu
  · cases hu
  · cases hu
  · obtain rfl := List.mem_singleton.1 hu
    obtain ⟨hmem, hkey⟩ := (entryOf_eq_some hr).1 he
    subst hitem
    refine ⟨e, hmem, ⟨hrow, hprotected, .inl ⟨p, hp, hkey.symm, hmoved⟩⟩,
      mem_ledgerUpsert.2 ⟨hf, p, hp, hplan ▸ List.mem_singleton_self _⟩, ?_⟩
    rw [hledger, entryKey_snapshotOf, hkey]

/-- A removal moves the row of its entry. -/
theorem moves_of_remove {r : PlannedRemoval} (h : r ∈ (planRefresh collate s).remove) :
    r.ledger ∈ goneEntries collate s ∧ Moves collate s r.ledger r.item ∧
      r.ledger.id ∈ (planRefresh collate s).ledgerDelete := by
  obtain ⟨hf, e, he, hr⟩ := mem_remove.1 h
  obtain ⟨-, hplan⟩ | ⟨_, -, -, hplan⟩ | ⟨row, _, hrow, hprotected, hplan⟩ := planGone_cases s e <;> rw [hplan] at hr
  · cases hr
  · cases hr
  · obtain rfl := List.mem_singleton.1 hr
    have hgone := of_decide_eq_true (List.mem_filter.1 he).2
    exact ⟨he, ⟨hrow, hprotected, .inr hgone⟩, mem_ledgerDelete.2 ⟨hf, e, he, hplan ▸ List.mem_singleton_self _⟩⟩

/-- A row that moves is changed or removed. -/
theorem planned_of_moves (hr : Recorded s) (hf : Follows s) (he : e ∈ s.ledger) (h : Moves collate s e row) :
    (∃ u ∈ (planRefresh collate s).update, u.item = row) ∨ ∃ r ∈ (planRefresh collate s).remove, r.item = row := by
  obtain ⟨hrow, hprotected, ⟨p, hp, hkey, hmoved⟩ | hgone⟩ := h
  · left
    have hentry : entryOf s p.key = some e := (entryOf_eq_some hr).2 ⟨he, hkey.symm⟩
    obtain ⟨hnone, -⟩ | ⟨hnone, -⟩ | ⟨e', he', -, hplan⟩ |
      ⟨e', row', he', hrow', -, -, u, _, hitem, -, hplan⟩ := planPosition_cases s p
    · exact absurd (hnone.symm.trans hentry) nofun
    · exact absurd (hnone.symm.trans hentry) nofun
    · obtain rfl := Option.some.inj (he'.symm.trans hentry)
      exact absurd (planRow_eq_empty.1 (hplan row hrow)) (not_or.2 ⟨hprotected, hmoved⟩)
    · obtain rfl := Option.some.inj (he'.symm.trans hentry)
      obtain rfl := Option.some.inj (hrow'.symm.trans hrow)
      exact ⟨u, mem_update.2 ⟨hf, p, hp, hplan ▸ List.mem_singleton_self _⟩, hitem⟩
  · right
    have hmem : e ∈ goneEntries collate s := List.mem_filter.2 ⟨he, decide_eq_true hgone⟩
    obtain ⟨hnone, -⟩ | ⟨row', hrow', hprotected', -⟩ | ⟨row', _, hrow', -, hplan⟩ := planGone_cases s e
    · exact absurd (hnone.symm.trans hrow) nofun
    · obtain rfl := Option.some.inj (hrow'.symm.trans hrow)
      exact absurd hprotected' hprotected
    · obtain rfl := Option.some.inj (hrow'.symm.trans hrow)
      exact ⟨⟨row', e⟩, mem_remove.2 ⟨hf, e, hmem, hplan ▸ List.mem_singleton_self _⟩, rfl⟩

/-- An addition is made for a position without an entry and without a row. -/
theorem mem_add_iff {id : String} : (∃ a ∈ (planRefresh collate s).add, a.tripItemId = id) ↔
    Follows s ∧ ∃ p ∈ positions collate s, Unrecorded s p ∧ id = deriveId "item" s.trip.id p.key := by
  constructor
  · rintro ⟨a, ha, rfl⟩
    obtain ⟨hf, p, hp, ha⟩ := mem_add.1 ha
    obtain ⟨-, existing, -, hplan⟩ | ⟨hentry, hrow, a', hid, -, hplan⟩ | ⟨_, -, hplan, -⟩ |
      ⟨_, _, -, -, -, -, u, _, -, -, hplan⟩ := planPosition_cases s p <;> rw [hplan] at ha
    · cases ha
    · obtain rfl := List.mem_singleton.1 ha
      exact ⟨hf, p, hp, ⟨hentry, hrow⟩, hid⟩
    · cases ha
    · cases ha
  · rintro ⟨hf, p, hp, ⟨hentry, hrow⟩, rfl⟩
    obtain ⟨-, existing, hsome, -⟩ | ⟨-, -, a, hid, -, hplan⟩ | ⟨_, hsome, -⟩ | ⟨_, _, hsome, -⟩ :=
      planPosition_cases s p
    · exact absurd (hrow.symm.trans hsome) nofun
    · exact ⟨a, mem_add.2 ⟨hf, p, hp, hplan ▸ List.mem_singleton_self _⟩, hid⟩
    · exact absurd (hentry.symm.trans hsome) nofun
    · exact absurd (hentry.symm.trans hsome) nofun

/-- **A plan respects the user** exactly if no row moves under one entry and is protected under another, and no new row
takes the id of one that is there. -/
theorem respects_iff (hr : Recorded s) :
    Respects s (planRefresh collate s) ↔ (Follows s → Unshared collate s) := by
  constructor
  · refine fun h hf => ⟨fun e he row hmoves e' he' hrow => ?_, fun p hp hnew => ?_⟩
    · obtain ⟨u, hu, rfl⟩ | ⟨r, hremove, rfl⟩ := planned_of_moves hr hf he hmoves
      · exact h.update u hu e' he' hrow
      · exact h.remove r hremove e' he' hrow
    · obtain ⟨a, ha, hid⟩ := mem_add_iff.2 ⟨hf, p, hp, hnew, rfl⟩
      exact hid ▸ h.add a ha
  · refine fun h => ⟨fun u hu e he hrow => ?_, fun r hremove e he hrow => ?_, fun a ha => ?_⟩
    · obtain ⟨e', he', hmoves, -⟩ := moves_of_update hr hu
      exact (h (mem_update.1 hu).1).row e' he' _ hmoves e he hrow
    · obtain ⟨hgone, hmoves, -⟩ := moves_of_remove hremove
      exact (h (mem_remove.1 hremove).1).row _ (List.mem_filter.1 hgone).1 _ hmoves e he hrow
    · obtain ⟨hf, p, hp, hnew, hid⟩ := mem_add_iff.1 ⟨a, ha, rfl⟩
      exact hid ▸ (h hf).id p hp hnew

/-- The rows of the entries that a plan keeps are none of its own. -/
theorem kept_not_planned (hr : Recorded s) (hs : Separate collate s) (hkept : Kept collate s e) :
    e.tripItemId ∉ plannedRows (planRefresh collate s) := by
  rintro (hadd | ⟨u, hu, hrow⟩ | ⟨r, hremove, hrow⟩)
  · obtain ⟨-, p, hp, hnew, hid⟩ := mem_add_iff.1 hadd
    exact hs.gone p hp hnew (hid ▸ List.mem_map_of_mem hkept.1)
  · obtain ⟨e', he', hmoves, hupsert, hkey⟩ := moves_of_update hr hu
    obtain rfl := hs.row e' he' _ hmoves e hkept.1 hrow.symm
    exact hkept.2.1 (hkey ▸ List.mem_map_of_mem hupsert)
  · obtain ⟨hgone, hmoves, hdelete⟩ := moves_of_remove hremove
    obtain rfl := hs.row _ (List.mem_filter.1 hgone).1 _ hmoves e hkept.1 hrow.symm
    exact hkept.2.2 hdelete

/-! ## Runs -/

/-- The plan offers an addition, a change or a removal for a key. -/
def Proposes (collate : String → κ) (s : RefreshInput) (k : String) : Prop :=
  (∃ a ∈ (planRefresh collate s).add, entryKey a.ledger = k) ∨
    (∃ u ∈ (planRefresh collate s).update, entryKey u.ledger = k) ∨
    ∃ r ∈ (planRefresh collate s).remove, entryKey r.ledger = k

/-- What happens to a trip: its plan is accepted, which is also how a plan that offers nothing is written, or declined;
or anything else about it is edited: its rows, its travelers, its templates, the day. -/
inductive Step (collate : String → κ) (s : RefreshInput) : RefreshInput → Prop
  | accept (drawn : ℕ → String × TaskFacts) : Step collate s (applyRefreshPlan drawn (planRefresh collate s) s)
  | decline (drawn : ℕ → String × TaskFacts) :
    Step collate s (applyRefreshPlan drawn (declinePlan (planRefresh collate s)) s)
  | edit {s' : RefreshInput} (trip : s'.trip.id = s.trip.id) (ledger : s'.ledger = s.ledger) : Step collate s s'

theorem ledgerUpsert_of_add {a : PlannedAdd} (h : a ∈ (planRefresh collate s).add) :
    a.ledger ∈ (planRefresh collate s).ledgerUpsert := by
  obtain ⟨hf, p, hp, ha⟩ := mem_add.1 h
  obtain ⟨-, existing, -, hplan⟩ | ⟨-, -, a', -, -, hplan⟩ | ⟨_, -, hplan, -⟩ |
    ⟨_, _, -, -, -, -, u, _, -, -, hplan⟩ := planPosition_cases s p <;> rw [hplan] at ha
  · cases ha
  · obtain rfl := List.mem_singleton.1 ha
    exact mem_ledgerUpsert.2 ⟨hf, p, hp, hplan ▸ List.mem_singleton_self _⟩
  · cases ha
  · cases ha

theorem Proposes.pushed (hr : Recorded s) (h : Proposes collate s k) : Pushed collate s k := by
  obtain ⟨a, ha, rfl⟩ | ⟨u, hu, rfl⟩ | ⟨r, hremove, rfl⟩ := h
  · exact .inl (List.mem_map_of_mem (ledgerUpsert_of_add ha))
  · obtain ⟨_, -, -, hupsert, -⟩ := moves_of_update hr hu
    exact .inl (List.mem_map_of_mem hupsert)
  · obtain ⟨hgone, -, hdelete⟩ := moves_of_remove hremove
    exact .inr ⟨_, hgone, hdelete, rfl⟩

/-- A step keeps the ledger in order. -/
theorem recorded_step (hr : Recorded s) (hk : KeysApart collate s) (h : Step collate s s') : Recorded s' := by
  cases h with
  | accept drawn => exact answered_accept.recorded hr hk
  | decline drawn => exact answered_decline.recorded hr hk
  | edit htrip hledger => exact ⟨hledger ▸ hr.nodup, fun e he => htrip ▸ hr.derived e (hledger ▸ he)⟩

/-- A step keeps a position settled, as long as the templates ask for the same. -/
theorem settled_step (hr : Recorded s) (hk : KeysApart collate s) (h : Step collate s s') (hs : Settled collate s k)
    (hasked : asked collate s' k = asked collate s k) : Settled collate s' k := by
  cases h with
  | accept drawn => exact settled_answered answered_accept hr hk hs
  | decline drawn => exact settled_answered answered_decline hr hk hs
  | edit htrip hledger =>
    have hentry : entryOf s' k = entryOf s k := by
      unfold entryOf
      rw [hledger]
    rw [Settled, hentry, hasked]
    exact hs

/-- A run of the trip. -/
def Run (collate : String → κ) : RefreshInput → RefreshInput → Prop :=
  Relation.ReflTransGen fun a b => KeysApart collate a ∧ Step collate a b

/-- A run of the trip in which the templates ask for one thing under a key. -/
def SteadyRun (collate : String → κ) (k : String) (wanted : Option (PropagatedFields × Finset String)) :
    RefreshInput → RefreshInput → Prop :=
  Relation.ReflTransGen fun a b => (KeysApart collate a ∧ Step collate a b) ∧ asked collate b k = wanted

theorem recorded_run (hr : Recorded s) (h : Run collate s s') : Recorded s' := by
  induction h with
  | refl => exact hr
  | tail _ hstep ih => exact recorded_step ih hstep.1 hstep.2

theorem settled_run {wanted : Option (PropagatedFields × Finset String)} (hr : Recorded s) (hs : Settled collate s k)
    (hwanted : asked collate s k = wanted) (h : SteadyRun collate k wanted s s') :
    Recorded s' ∧ Settled collate s' k ∧ asked collate s' k = wanted := by
  induction h with
  | refl => exact ⟨hr, hs, hwanted⟩
  | tail _ hstep ih =>
    obtain ⟨hr, hs, hwanted⟩ := ih
    exact ⟨recorded_step hr hstep.1.1 hstep.1.2,
      settled_step hr hstep.1.1 hstep.1.2 hs (hstep.2.trans hwanted.symm), hstep.2⟩

/-- **A position whose proposal was declined is not proposed again** until the templates ask for something else. -/
theorem not_proposes_of_declined (hr : Recorded s) (hk : KeysApart collate s) (hp : Proposes collate s k)
    (run : SteadyRun collate k (asked collate s k) (applyRefreshPlan drawn (declinePlan (planRefresh collate s)) s) s')
    (hk' : KeysApart collate s') : ¬ Proposes collate s' k := by
  have hasked : asked collate (applyRefreshPlan drawn (declinePlan (planRefresh collate s)) s) k =
      asked collate s k := by
    simp only [asked, answered_decline.positions_eq]
  obtain ⟨hr', hs', -⟩ := settled_run (answered_decline.recorded hr hk)
    (settled_of_pushed answered_decline hr hk (hp.pushed hr)) hasked run
  exact fun hp' => hs'.not_pushed hr' hk'.named (hp'.pushed hr')

/-- **A refresh settles the trip.** In every run, a plan that was declined leaves nothing to plan, and no position of it
is proposed again until the templates ask for something else. The plan leaves the protected rows alone exactly if they
are not shared; and where the rows that it moves are their entry's own, nothing is left to plan once it is written. -/
theorem refresh_settles {s₀ : RefreshInput} (h₀ : Recorded s₀) (run : Run collate s₀ s) (hk : KeysApart collate s) :
    (∀ drawn, planRefresh collate (applyRefreshPlan drawn (declinePlan (planRefresh collate s)) s) = {}) ∧
    (∀ k drawn s', Proposes collate s k → SteadyRun collate k (asked collate s k)
        (applyRefreshPlan drawn (declinePlan (planRefresh collate s)) s) s' →
      KeysApart collate s' → ¬ Proposes collate s' k) ∧
    (Respects s (planRefresh collate s) ↔ (Follows s → Unshared collate s)) ∧
    (Separate collate s → Respects s (planRefresh collate s) ∧
      ∀ drawn, planRefresh collate (applyRefreshPlan drawn (planRefresh collate s) s) = {}) := by
  have hr := recorded_run h₀ run
  refine ⟨fun drawn => ?_, fun k drawn s' hp run' hk' => not_proposes_of_declined hr hk hp run' hk', respects_iff hr,
    fun hs => ⟨(respects_iff hr).2 fun _ => hs.unshared, fun drawn => ?_⟩⟩
  · exact planRefresh_answered answered_decline hr hk fun _ _ => Set.notMem_empty _
  · exact planRefresh_answered answered_accept hr hk fun _ hkept => kept_not_planned hr hs hkept

end

/-- The entry of the camera for a traveler. -/
def cameraEntry (travelerId : String) (quantity : ℕ) : GeneratedPosition where
  id := ledgerId "trip" .camera travelerId
  tripId := "trip"
  tripItemId := "row"
  sourceTemplateId := "photos"
  sourceItemId := .camera
  travelerId := travelerId
  name := "Camera"
  quantity := quantity
  mode := .pack
  latePacker := false
  weightGrams := none
  valueCents := none
  categoryName := none
  tasks := []

/-- A trip with Ann that follows a group with the camera, and has one row of it. -/
def cameraTrip (assignment : TemplateAssignment) (asked : ℚ) (traveler : Option String) (quantity : ℕ)
    (ledger : List GeneratedPosition) : RefreshInput where
  trip := ⟨"trip", .planning, none, none⟩
  sources := [⟨"source", "photos"⟩]
  templates := [⟨"photos", "Photos"⟩]
  includes := []
  templateItems := [⟨"position", "photos", .camera, asked, assignment, .max, none, .pack, false⟩]
  templateItemTasks := []
  masterItems := [⟨.camera, "Camera", none, none, none, none⟩]
  travelers := [⟨"ann", "Ann", none⟩]
  items := [{ (cameraEntry "" quantity).toPropagatedFields with
    id := "row", tripId := "trip", sourceItemId := some .camera, sourceTemplateId := some "photos"
    packedCount := 0, state := .opened, assignedTravelerId := traveler }]
  prepTasks := []
  ledger := ledger
  today := "2025-06-01"

/-- What is drawn for a preparation. -/
def drawnTask (_ : ℕ) : String × TaskFacts := ("task", ⟨none, none, none, none, none, none, none, none, none⟩)

/-- The trip before its first refresh: the group brings one camera for everybody. -/
def cameraStart : RefreshInput := cameraTrip .tripGlobal 1 none 1 []

/-- The camera is Ann's now, and there are two of them, by hand; and the group brings two for each. -/
def cameraTaken : RefreshInput := cameraTrip .perPerson 2 (some "ann") 2 [cameraEntry "" 1]

/-- The row has been taken for Ann's, and the group brings one for each. -/
def cameraShared : RefreshInput := cameraTrip .perPerson 1 (some "ann") 2 [cameraEntry "" 1, cameraEntry "ann" 2]

theorem keysApart_camera {s : RefreshInput} (htravelers : s.travelers = [⟨"ann", "Ann", none⟩])
    (htrip : s.trip.id = "trip")
    (hkeys : ∀ k ∈ (positions id s).map Position.key ++ s.ledger.map entryKey, k = "camera|" ∨ k = "camera|ann") :
    KeysApart id s where
  named := by
    rw [htravelers]
    exact ⟨List.nodup_singleton _, by decide, by decide⟩
  hashed := by
    have hne : deriveId "ledger" "trip" "camera|" ≠ deriveId "ledger" "trip" "camera|ann" := by decide +kernel
    have hmem : ∀ k ∈ keys id s, k = "camera|" ∨ k = "camera|ann" := by
      rintro _ (⟨p, hp, rfl⟩ | ⟨e, he, rfl⟩)
      · exact hkeys _ (List.mem_append_left _ (List.mem_map_of_mem hp))
      · exact hkeys _ (List.mem_append_right _ (List.mem_map_of_mem he))
    intro k hk k' hk' heq
    rw [htrip] at heq
    obtain rfl | rfl := hmem k hk <;> obtain rfl | rfl := hmem k' hk'
    · rfl
    · exact absurd heq hne
    · exact absurd heq.symm hne
    · rfl

/-- Ann's row is protected under its first entry, since there are two cameras. It is set back to one under the second
entry, since the group asks for one; and then it is no longer protected under the first, and goes. -/
theorem camera_drifts_back : Recorded cameraStart ∧ Run id cameraStart cameraShared ∧ KeysApart id cameraShared ∧
    ¬ Respects cameraShared (planRefresh id cameraShared) ∧
    (planRefresh id (applyRefreshPlan drawnTask (planRefresh id cameraShared) cameraShared)).remove ≠ [] := by
  have hadopted : (applyRefreshPlan drawnTask (planRefresh id cameraStart) cameraStart).ledger =
      cameraTaken.ledger := by decide +kernel
  have hshared : (applyRefreshPlan drawnTask (planRefresh id cameraTaken) cameraTaken).ledger =
      cameraShared.ledger := by decide +kernel
  have hne : (planRefresh id cameraShared).update ≠ [] := by decide +kernel
  have hprotected : ∀ u ∈ (planRefresh id cameraShared).update,
      u.item.id = "row" ∧ isProtected u.item (cameraEntry "" 1) := by decide +kernel
  refine ⟨⟨List.nodup_nil, nofun⟩, ?_, keysApart_camera rfl rfl (by decide +kernel), fun h => ?_, by decide +kernel⟩
  · have haccept : Step id cameraStart _ := .accept drawnTask
    have hedit : Step id _ cameraTaken := .edit (by decide +kernel) hadopted.symm
    have haccept' : Step id cameraTaken _ := .accept drawnTask
    have hedit' : Step id _ cameraShared := .edit (by decide +kernel) hshared.symm
    refine (((Relation.ReflTransGen.single ⟨?_, haccept⟩).tail ⟨?_, hedit⟩).tail ⟨?_, haccept'⟩).tail ⟨?_, hedit'⟩
    all_goals exact keysApart_camera (by decide +kernel) (by decide +kernel) (by decide +kernel)
  · obtain ⟨u, hu⟩ := List.exists_mem_of_ne_nil _ hne
    obtain ⟨hrow, hu'⟩ := hprotected u hu
    exact h.update u hu _ List.mem_cons_self hrow.symm hu'

/-- Ann's row under its one entry follows the group to one camera, and stays. -/
def cameraFollowed : RefreshInput := cameraTrip .perPerson 1 (some "ann") 2 [cameraEntry "ann" 2]

theorem refresh_settles_camera : (planRefresh id cameraFollowed).update ≠ [] ∧
    Respects cameraFollowed (planRefresh id cameraFollowed) ∧
    planRefresh id (applyRefreshPlan drawnTask (planRefresh id cameraFollowed) cameraFollowed) = {} ∧
    planRefresh id (applyRefreshPlan drawnTask (declinePlan (planRefresh id cameraFollowed)) cameraFollowed) = {} ∧
    ¬ Proposes id (applyRefreshPlan drawnTask (declinePlan (planRefresh id cameraFollowed)) cameraFollowed)
      "camera|ann" := by
  have hrecorded : Recorded cameraFollowed := ⟨List.nodup_singleton _, by decide +kernel⟩
  have hapart : KeysApart id cameraFollowed := keysApart_camera rfl rfl (by decide +kernel)
  have hapart' : KeysApart id
      (applyRefreshPlan drawnTask (declinePlan (planRefresh id cameraFollowed)) cameraFollowed) :=
    keysApart_camera (by decide +kernel) (by decide +kernel) (by decide +kernel)
  have hrecordedAll : ∀ p ∈ positions id cameraFollowed, entryOf cameraFollowed p.key ≠ none := by decide +kernel
  have hseparate : Separate id cameraFollowed := by
    refine ⟨fun e he row _ e' he' _ => ?_, fun p hp hnew => absurd hnew.1 (hrecordedAll p hp),
      fun p hp hnew => absurd hnew.1 (hrecordedAll p hp)⟩
    rw [List.mem_singleton.1 he, List.mem_singleton.1 he']
  have hne : (planRefresh id cameraFollowed).update ≠ [] := by decide +kernel
  have hkeys : ∀ u ∈ (planRefresh id cameraFollowed).update, entryKey u.ledger = "camera|ann" := by decide +kernel
  obtain ⟨hdeclined, hagain, -, haccepted⟩ := refresh_settles hrecorded .refl hapart
  obtain ⟨u, hu⟩ := List.exists_mem_of_ne_nil _ hne
  exact ⟨hne, (haccepted hseparate).1, (haccepted hseparate).2 _, hdeclined _,
    hagain _ _ _ (.inr (.inl ⟨u, hu, hkeys u hu⟩)) .refl hapart'⟩

end Refresh

end JitPack
