import JitPack.Store.References

/-!
# Owners and members

The creator of a trip becomes its owner along with the trip, and no push is let through to the row of
an owner or makes another one, so a trip has one owner as long as it is there (`TripOwned`). The other
memberships are written by the owner and the admins of their trip. That rule looks at the trip a
membership is in and at the one a mutation names as a text. A trip that is named as a number or a
boolean escapes it, so the memberships of a trip are its administration's in every run in which no
such value names a trip that the caller does not administer (`ownership_of_coerced`).
-/

namespace JitPack

def roleOwner : String := "owner"

/-- The roles that manage the memberships of a trip. -/
def administration : List String := ["owner", "admin"]

/-- The trip has exactly one owner, and it is the creator. -/
def TripOwned (db : Db) (tripID : String) (trip : StoredRow) : Prop := ∃ user id row,
  trip.fields "created_by" = .str user ∧ db.rows.lookup ⟨.tripMembers, id⟩ = some row ∧
  row.fields columnTripID = .str tripID ∧ row.fields "role" = .str roleOwner ∧
  row.fields "user_id" = .str user ∧
  ∀ id' row', db.rows.lookup ⟨.tripMembers, id'⟩ = some row' →
    row'.fields columnTripID = .str tripID → row'.fields "role" = .str roleOwner → id' = id

/-- What a call may do to owners: a new trip gets its caller as its owner, a trip keeps its creator,
the owner's row is kept as it is while its trip is there, and no owner is made but a new trip's. -/
structure OwnersKept (caller : Option String) (db db' : Db) : Prop where
  founded : ∀ tripID trip, db.rows.lookup ⟨.trips, tripID⟩ = none →
    db'.rows.lookup ⟨.trips, tripID⟩ = some trip →
    (∃ user, caller = some user ∧ trip.fields "created_by" = .str user) ∧ TripOwned db' tripID trip
  creator : ∀ tripID trip trip', db.rows.lookup ⟨.trips, tripID⟩ = some trip →
    db'.rows.lookup ⟨.trips, tripID⟩ = some trip' →
    trip'.fields "created_by" = trip.fields "created_by"
  kept : ∀ id row, db.rows.lookup ⟨.tripMembers, id⟩ = some row →
    row.fields "role" = .str roleOwner → db'.rows.lookup ⟨.tripMembers, id⟩ = some row ∨
      ∃ tripID, row.fields columnTripID = .str tripID ∧ db'.rows.lookup ⟨.trips, tripID⟩ = none
  made : ∀ id row, db'.rows.lookup ⟨.tripMembers, id⟩ = some row →
    row.fields "role" = .str roleOwner → db.rows.lookup ⟨.tripMembers, id⟩ = some row ∨
      ∃ tripID, row.fields columnTripID = .str tripID ∧ db.rows.lookup ⟨.trips, tripID⟩ = none

/-- A membership that a call writes, the owner's apart, is of a trip that the caller administers. -/
def Administered (caller : Option String) (db db' : Db) : Prop := ∀ id row',
  db'.rows.lookup ⟨.tripMembers, id⟩ = some row' → db.rows.lookup ⟨.tripMembers, id⟩ ≠ some row' →
  row'.fields "role" ≠ .str roleOwner → ∃ user tripID, caller = some user ∧
    row'.fields columnTripID = .str tripID ∧ db.memberRole tripID user ∈ administration

/-- A push or a revert that gives a membership that is there a trip which is no text names no trip
that its caller does not administer. -/
def Call.TripCoerced (c : Call) (σ : Server) : Prop := ∀ p m, c.Asks p .tripMembers m →
  m.op ≠ .delete → (loadRow ⟨.tripMembers, m.id⟩ σ.db).present = true →
  ∀ v, m.fields.lookup columnTripID = some v → v.asString = none →
  ∀ tripID, c.env.sqlite.store .text v = .str tripID →
    (σ.db.rows.lookup ⟨.trips, tripID⟩).isSome → σ.db.memberRole tripID p.actorID ∈ administration

/-! ## Guards -/

section
variable {db db' : Db} {i : GuardInput} {m' : Mutation}

theorem memberRole_congr (h : db'.rows = db.rows) (tripID userID : String) :
    db'.memberRole tripID userID = db.memberRole tripID userID := by
  unfold Db.memberRole
  rw [h]

/-- A mutation of a membership that passes leaves the owner's row alone, makes no owner, and comes
from the administration of each trip it names. -/
theorem memberAdministration_passes (h : memberAdministration db i = (m', none)) : m' = i.m ∧
    i.m.string "role" ≠ some roleOwner ∧
    (i.row.present = true → i.row.fields "role" ≠ .str roleOwner) ∧
    parentIDs i columnTripID ≠ [] ∧
    ∀ trip ∈ parentIDs i columnTripID, db.memberRole trip i.actorID ∈ administration := by
  unfold memberAdministration at h
  dsimp only [GuardInput.answer] at h
  split at h
  · cases h
  next hrole =>
  split at h
  · cases h
  next howner =>
  obtain ⟨rfl, h⟩ := Prod.mk.inj h
  unfold authorized at h
  split at h
  · next hok =>
    simp only [Bool.and_eq_true, Bool.not_eq_true', List.all_eq_true, decide_eq_true_eq] at hok
    exact ⟨rfl, hrole, fun hp hr => howner ⟨hp, hr⟩, by simpa using hok.1, hok.2⟩
  · cases h

end

/-! ## Writes -/

section
variable {c : Call} {σ : Server} {db db' db₁ : Db} {key : Key} {applied : Fields} {p : Partition}
variable {m m' : Mutation} {hlc : HLC} {clocks : FieldClocks} {rows : Rows} {s : Env} {id : String}
variable {caller : Option String}

/-- A mutation of a membership passes as it is. -/
theorem membership_passes (ha : c.Asks p .tripMembers m)
    (hg : p.gate s db .tripMembers m = (m', none)) : m' = m ∧ m.string "role" ≠ some roleOwner ∧
    ((loadRow ⟨.tripMembers, m.id⟩ db).present = true →
      (loadRow ⟨.tripMembers, m.id⟩ db).fields "role" ≠ .str roleOwner) ∧
    parentIDs ⟨"", p.actorID, m, loadRow ⟨.tripMembers, m.id⟩ db⟩ columnTripID ≠ [] ∧
    ∀ trip ∈ parentIDs ⟨"", p.actorID, m, loadRow ⟨.tripMembers, m.id⟩ db⟩ columnTripID,
      db.memberRole trip p.actorID ∈ administration := by
  obtain ⟨userID, rfl⟩ := ha.master rfl nofun
  exact memberAdministration_passes (i := ⟨"", userID, m, loadRow ⟨.tripMembers, m.id⟩ db⟩) hg

theorem Asked.membership (ha : Asked c db ⟨.tripMembers, id⟩ applied p m m') : m' = m ∧
    m.op ≠ .delete ∧ m.string "role" ≠ some roleOwner ∧
    ((loadRow ⟨.tripMembers, id⟩ db).present = true →
      (loadRow ⟨.tripMembers, id⟩ db).fields "role" ≠ .str roleOwner) ∧
    parentIDs ⟨"", p.actorID, m, loadRow ⟨.tripMembers, id⟩ db⟩ columnTripID ≠ [] ∧
    ∀ trip ∈ parentIDs ⟨"", p.actorID, m, loadRow ⟨.tripMembers, id⟩ db⟩ columnTripID,
      db.memberRole trip p.actorID ∈ administration := by
  obtain ⟨db₁, hn, hg⟩ := ha.gate
  obtain ⟨rfl, hpass⟩ := membership_passes ha.asks hg
  simp only [loadRow_congr hn.rows, ha.id, memberRole_congr hn.rows] at hpass
  exact ⟨rfl, ha.op (by simp [lifecycleTables]), hpass⟩

/-- A membership that was written by a push is not an owner's. -/
theorem Asked.role_ne (ha : Asked c db ⟨.tripMembers, id⟩ applied p m m') :
    db.written c.env ⟨.tripMembers, id⟩ applied "role" ≠ .str roleOwner := by
  obtain ⟨rfl, -, hrole, howner, -⟩ := ha.membership
  intro hw
  rcases Db.written_cases c.env ⟨.tripMembers, id⟩ applied db "role" with ⟨-, hbase⟩ | ⟨v, hv, hread⟩
  · rw [hbase] at hw
    cases hrow : db.rows.lookup ⟨.tripMembers, id⟩ with
    | none =>
      rw [Db.base_of_absent hrow] at hw
      exact absurd hw (show Value.str "editor" ≠ .str roleOwner by decide)
    | some row =>
      rw [Db.base_of_lookup hrow] at hw
      rw [loadRow_of_lookup hrow] at howner
      exact howner rfl hw
  · have hvo : v = .str roleOwner := by
      refine Sqlite.eq_of_store_text (fun ch cs hcs => ?_) (hread.symm.trans hw)
      cases hcs
      decide
    refine hrole ?_
    rw [Mutation.string, Mutation.get, (ha.fields _ _ (by decide) hv).2, hvo]
    rfl

/-- A membership that was written by a push is of a trip that the caller administers. -/
theorem Asked.administers (ha : Asked c σ.db ⟨.tripMembers, id⟩ applied p m m')
    (hc : c.TripCoerced σ) (put : Put c.env ⟨.tripMembers, id⟩ applied hlc clocks σ.db rows) :
    ∃ tripID, σ.db.written c.env ⟨.tripMembers, id⟩ applied columnTripID = .str tripID ∧
      σ.db.memberRole tripID p.actorID ∈ administration := by
  obtain ⟨rfl, hop, -, -, hne, hadmin⟩ := ha.membership
  have hnull : σ.db.written c.env ⟨.tripMembers, id⟩ applied columnTripID ≠ .null :=
    Db.allows_notNull put.allows rfl rfl
  obtain ⟨trip, htrip, hself | hthere⟩ := (Db.allows_refers put.allows
    (f := columnTripID) (t := .trips) (a := .cascade) rfl).resolve_left hnull
  · cases hself
  refine ⟨trip, htrip, ?_⟩
  rcases Db.written_cases c.env ⟨.tripMembers, id⟩ applied σ.db columnTripID with
    ⟨-, hbase⟩ | ⟨v, hv, hread⟩
  · rw [htrip] at hbase
    cases hrow : σ.db.rows.lookup ⟨.tripMembers, id⟩ with
    | none =>
      rw [Db.base_of_absent hrow] at hbase
      exact absurd hbase (show Value.str trip ≠ .null by simp)
    | some row =>
      rw [Db.base_of_lookup hrow] at hbase
      refine hadmin trip ?_
      simp [parentIDs, loadRow_of_lookup hrow, ← hbase, Value.asString]
  have hnamed := (ha.fields _ _ (by decide) hv).2
  have hread : .str trip = c.env.sqlite.store .text v := htrip.symm.trans hread
  cases hstr : v.asString with
  | some y =>
    obtain rfl : v = .str y := by
      cases v <;> cases hstr
      rfl
    obtain rfl : trip = y := Value.str.inj hread
    refine hadmin trip ?_
    simp [parentIDs, Mutation.string, Mutation.get, hnamed, Value.asString]
  | none =>
    refine hc _ _ ha.asks hop ?_ v hnamed hstr trip hread.symm hthere
    by_contra hp
    rw [ha.id] at hp
    have hrow : (loadRow ⟨.tripMembers, id⟩ σ.db).fields columnTripID = .null := by
      rw [loadRow, lookup_of_not_present (by simpa using hp)]
    refine hne ?_
    simp [parentIDs, Mutation.string, Mutation.get, hnamed, hstr, hrow, show Value.asString .null = none from rfl]

/-- A trip keeps its creator: the server takes the column out of a mutation of a trip that is there. -/
theorem Asked.creator (ha : Asked c db ⟨.trips, id⟩ applied p m m')
    (hp : (loadRow ⟨.trips, id⟩ db).present = true) :
    db.written c.env ⟨.trips, id⟩ applied "created_by" =
      db.base c.env.sqlNow ⟨.trips, id⟩ "created_by" := by
  rcases Db.written_cases c.env ⟨.trips, id⟩ applied db "created_by" with ⟨-, hbase⟩ | ⟨v, hv, -⟩
  · exact hbase
  obtain ⟨userID, rfl⟩ := ha.asks.master rfl nofun
  obtain ⟨db₁, hn, hg⟩ := ha.gate
  have hstamped := (gate_thinned masterPartition_thins hg).lookup _ v (ha.fields _ _ (by decide) hv).2
  simp [Partition.stamped, stampServerOwned, Table.serverOwned, stampedOnCreate, loadRow_congr hn.rows,
    ha.id, hp] at hstamped

/-- A new trip gets its caller as its creator. -/
theorem founded_creator (hr : Pushes c.request p m) (valid : validate m p.tables = .ok .trips)
    (gate : p.gate s db .trips m = (m', none)) (hop : m'.op ≠ .delete)
    (hp : (loadRow ⟨.trips, m.id⟩ db).present = false) :
    db.written s ⟨.trips, m.id⟩ (merge (loadRow ⟨.trips, m.id⟩ db) m').applied "created_by" =
      .str p.actorID := by
  obtain ⟨userID, rfl⟩ := (Call.Asks.push hr valid).master rfl nofun
  have hstamp := gate_onlyFields masterPartition_thins gate
  obtain rfl : (masterPartition userID).stamped s db .trips m = m' := (Prod.mk.inj gate).1
  have hmop : m.op ≠ .delete := hstamp.op ▸ hop
  have hlook : (merge (loadRow ⟨.trips, m.id⟩ db)
      ((masterPartition userID).stamped s db .trips m)).applied.lookup "created_by" =
      some (.str userID) := by
    rw [merge_applied_missing hop hp]
    simp [Partition.stamped, stampServerOwned, Table.serverOwned, stampedOnCreate, hp, Mutation.drop,
      hmop, masterPartition]
  rw [Db.written, Db.updatedFields, hlook]
  rfl

/-- A write keeps the owners if it writes no owner's row and no creator. -/
theorem OwnersKept.of_put (put : Put s key applied hlc clocks db db'.rows)
    (hm : key.table = .tripMembers → db.written s key applied "role" ≠ .str roleOwner ∧
      ∀ row, db.rows.lookup key = some row → row.fields "role" ≠ .str roleOwner)
    (ht : key.table = .trips → (loadRow key db).present = true ∧
      db.written s key applied "created_by" = db.base s.sqlNow key "created_by") :
    OwnersKept caller db db' where
  founded tripID trip hnone hsome := by
    rw [put.lookup] at hsome
    split at hsome
    · next hk =>
      obtain ⟨row, hrow, -⟩ := loadRow_of_present (ht (hk ▸ rfl)).1
      rw [← hk, hnone] at hrow
      cases hrow
    · rw [hnone] at hsome
      cases hsome
  creator tripID trip trip' htrip htrip' := by
    rw [put.lookup] at htrip'
    split at htrip'
    · next hk =>
      cases htrip'
      refine (ht (hk ▸ rfl)).2.trans ?_
      rw [← hk, Db.base_of_lookup htrip]
    · rw [htrip] at htrip'
      cases htrip'
      rfl
  kept id row hrow hrole := by
    refine .inl ?_
    rw [put.lookup, if_neg]
    · exact hrow
    · rintro rfl
      exact (hm rfl).2 row hrow hrole
  made id row hrow hrole := by
    rw [put.lookup] at hrow
    split at hrow
    · next hk =>
      cases hrow
      exact absurd hrole (hm (hk ▸ rfl)).1
    · exact .inl hrow

/-- A write of any other row keeps them. -/
theorem OwnersKept.of_put_other (put : Put s key applied hlc clocks db db'.rows)
    (hm : key.table ≠ .tripMembers) (ht : key.table ≠ .trips) : OwnersKept caller db db' :=
  .of_put put (fun h => absurd h hm) fun h => absurd h ht

theorem OwnersKept.of_rows (h : db'.rows = db.rows) : OwnersKept caller db db' where
  founded tripID trip hnone hsome := by
    rw [h, hnone] at hsome
    cases hsome
  creator tripID trip trip' htrip htrip' := by
    rw [h, htrip] at htrip'
    cases htrip'
    rfl
  kept id row hrow _ := .inl (h ▸ hrow)
  made id row hrow _ := .inl (h ▸ hrow)

/-- A delete leaves a membership as it was. -/
theorem deleteRow_membership (hkey : (db.rows.lookup key).isSome) (h : Db.deleteRow key db = .ok db')
    {row : StoredRow} (hrow : db'.rows.lookup ⟨.tripMembers, id⟩ = some row) :
    db.rows.lookup ⟨.tripMembers, id⟩ = some row := by
  obtain ⟨old, hold, -, rfl⟩ := Db.deleteRow_left hkey h hrow
  -- no reference of a membership is ever emptied
  have hkept : Db.forget (db.removed key) .tripMembers old.fields = old.fields := by
    funext f
    rcases Db.forget_cases (db.removed key) .tripMembers old.fields f with hf | ⟨t, x, href, -⟩
    · exact hf
    · have hmem := Table.mem_references href
      rw [show Table.references .tripMembers = [("trip_id", .trips, .cascade)] from rfl] at hmem
      simp at hmem
  rw [hold]
  exact congrArg (fun fields => some { old with fields }) hkept.symm

/-- A delete of a row that is no owner's takes an owner's row along only with its trip. -/
theorem OwnersKept.of_deleteRow (hkey : (db.rows.lookup key).isSome)
    (hm : ∀ row, key.table = .tripMembers → db.rows.lookup key = some row →
      row.fields "role" ≠ .str roleOwner)
    (h : Db.deleteRow key db = .ok db₁) (hrows : db'.rows = db₁.rows) : OwnersKept caller db db' := by
  refine ⟨fun tripID trip hnone hsome => ?_, fun tripID trip trip' htrip htrip' => ?_,
    fun id row hrow hrole => ?_,
    fun id row hrow hrole => .inl (deleteRow_membership hkey h (hrows ▸ hrow))⟩
  · rw [hrows] at hsome
    obtain ⟨old, hold, -⟩ := Db.deleteRow_left hkey h hsome
    rw [hnone] at hold
    cases hold
  · rw [hrows] at htrip'
    obtain ⟨old, hold, -, rfl⟩ := Db.deleteRow_left hkey h htrip'
    rw [htrip] at hold
    cases hold
    have hkept : Db.forget (db.removed key) .trips trip.fields "created_by" = trip.fields "created_by" :=
      Db.forget_of_refers _ (.inl rfl)
    exact hkept
  · cases hleft : db'.rows.lookup ⟨.tripMembers, id⟩ with
    | some row' =>
      rw [deleteRow_membership hkey h (hrows ▸ hleft)] at hrow
      exact .inl hrow
    | none =>
      refine .inr ?_
      rw [hrows, Db.deleteRow_gone hkey h, hrow] at hleft
      have hgone := hleft.resolve_left nofun
      rcases (Db.mem_removed.1 hgone).cases_tail with hk | ⟨parent, hreach, hhangs⟩
      · exact absurd hrole (hm row (by rw [← hk]) (hk ▸ hrow))
      · obtain ⟨row', f, hrow', href, hv⟩ := hhangs.refers
        rw [hrow] at hrow'
        cases hrow'
        have hmem := Table.mem_references href
        rw [show Table.references .tripMembers = [("trip_id", .trips, .cascade)] from rfl] at hmem
        simp only [List.mem_singleton, Prod.mk.injEq] at hmem
        obtain ⟨rfl, ht, -⟩ := hmem
        refine ⟨parent.id, hv, ?_⟩
        rw [hrows, ← ht, Db.deleteRow_gone hkey h]
        exact .inr (Db.mem_removed.2 hreach)

/-- A new trip has its creator as its owner: nobody could be a member of a trip that was not there. -/
theorem OwnersKept.of_founded {tripID user : String} (hdb : db.RefsHold)
    (fresh : db.rows.lookup ⟨.trips, tripID⟩ = none)
    (put : Put s ⟨.trips, tripID⟩ applied hlc clocks db db₁.rows)
    (hcreator : db.written s ⟨.trips, tripID⟩ applied "created_by" = .str user)
    (absent : db₁.rows.lookup ⟨.tripMembers, id⟩ = none) {hlc' : HLC} {clocks' : FieldClocks}
    (owner : Put s ⟨.tripMembers, id⟩ (ownerRow tripID user) hlc' clocks' db₁ db'.rows) :
    OwnersKept (some user) db db' := by
  have htrips (t : String) : db'.rows.lookup ⟨.trips, t⟩ =
      if t = tripID then some ⟨db.written s ⟨.trips, tripID⟩ applied, hlc, clocks⟩
      else db.rows.lookup ⟨.trips, t⟩ := by
    rw [owner.lookup, if_neg (by simp), put.lookup]
    simp only [Key.mk.injEq, true_and]
  have hmembers (n : String) : db'.rows.lookup ⟨.tripMembers, n⟩ =
      if n = id then some ⟨db₁.written s ⟨.tripMembers, id⟩ (ownerRow tripID user), hlc', clocks'⟩
      else db.rows.lookup ⟨.tripMembers, n⟩ := by
    rw [owner.lookup, put.lookup, if_neg (show (⟨.tripMembers, n⟩ : Key) ≠ ⟨.trips, tripID⟩ by simp)]
    simp only [Key.mk.injEq, true_and]
  have hnone : db.rows.lookup ⟨.tripMembers, id⟩ = none := by
    rwa [put.lookup, if_neg (by simp)] at absent
  refine ⟨fun t trip ht htrip => ?_, fun t trip trip' htrip htrip' => ?_, fun n row hrow _ => ?_,
    fun n row hrow hrole => ?_⟩
  · rw [htrips] at htrip
    split at htrip
    · next hk =>
      subst hk
      cases htrip
      refine ⟨⟨user, rfl, hcreator⟩, user, id, _, hcreator, by rw [hmembers, if_pos rfl], rfl, rfl, rfl,
        fun n row hrow hmember _ => ?_⟩
      rw [hmembers] at hrow
      split at hrow
      · assumption
      · have href := hdb _ _ hrow columnTripID .trips .cascade rfl
        rw [hmember] at href
        obtain ⟨x, hx, hthere⟩ := href.resolve_left nofun
        obtain rfl : t = x := Value.str.inj hx
        rw [fresh] at hthere
        cases hthere
    · rw [ht] at htrip
      cases htrip
  · rw [htrips] at htrip'
    split at htrip'
    · next hk =>
      rw [hk, fresh] at htrip
      cases htrip
    · rw [htrip] at htrip'
      cases htrip'
      rfl
  · refine .inl ?_
    rw [hmembers, if_neg]
    · exact hrow
    · rintro rfl
      rw [hnone] at hrow
      cases hrow
  · rw [hmembers] at hrow
    split at hrow
    · cases hrow
      exact .inr ⟨tripID, rfl, fresh⟩
    · exact .inl hrow

/-- What was asked for keeps the owners. -/
theorem OwnersKept.asked {t : Table} (ha : Asked c db ⟨t, id⟩ applied p m m')
    (hold : t = .trips → (loadRow ⟨t, id⟩ db).present = true)
    (put : Put c.env ⟨t, id⟩ applied hlc clocks db db'.rows) : OwnersKept caller db db' := by
  refine .of_put put (fun ht => ?_) fun ht => ?_
  · obtain rfl : t = .tripMembers := ht
    refine ⟨ha.role_ne, fun row hrow => ?_⟩
    have howner := ha.membership.2.2.2.1
    rw [loadRow_of_lookup hrow] at howner
    exact howner rfl
  · obtain rfl : t = .trips := ht
    exact ⟨hold rfl, ha.creator (hold rfl)⟩

theorem Alters.ownersKept (hdb : db.RefsHold) (h : Alters c db db'.rows) :
    OwnersKept c.request.caller db db' := by
  generalize hrows : db'.rows = rows at h
  cases h with
  | nothing => exact .of_rows hrows
  | deleted hr valid gate hop present delete =>
    obtain ⟨row, hrow, -⟩ := loadRow_of_present present
    refine .of_deleteRow (by rw [hrow]; rfl) (fun row ht hrow => ?_) delete hrows
    obtain rfl := ht
    have howner := (membership_passes (.push hr valid) gate).2.2.1
    rw [loadRow_of_lookup hrow] at howner
    exact howner rfl
  | pushed hr valid how hop put old => exact .asked (how.asked hr valid hop _) old (hrows ▸ put)
  | founded hr valid gate hop fresh put absent owner =>
    rw [hr.caller]
    exact .of_founded hdb (lookup_of_not_present fresh) put (founded_creator hr valid gate hop fresh)
      absent (hrows ▸ owner)
  | restored hr valid noted present gate put =>
    exact .asked (hr.asked valid noted gate _) (fun _ => present) (hrows ▸ put)
  | taken hr present put => exact .of_put_other (hrows ▸ put) (by simp) (by simp)
  | attached ht absent own fields put =>
    exact .of_put_other (hrows ▸ put) (fun h => absurd (h ▸ ht) (by decide))
      fun h => absurd (h ▸ ht) (by decide)
  | stamped ht present fields put =>
    exact .of_put_other (hrows ▸ put) (fun h => absurd (h ▸ ht) (by decide))
      fun h => absurd (h ▸ ht) (by decide)

/-- A write of another table writes no membership. -/
theorem Administered.of_put_other (put : Put s key applied hlc clocks db db'.rows)
    (hm : key.table ≠ .tripMembers) : Administered caller db db' := by
  intro n row' hrow' hnew
  rw [put.lookup, if_neg (by rintro rfl; exact hm rfl)] at hrow'
  exact absurd hrow' hnew

theorem Administered.asked {t : Table} (ha : Asked c σ.db ⟨t, id⟩ applied p m m')
    (hc : c.TripCoerced σ) (hcaller : c.request.caller = some p.actorID)
    (put : Put c.env ⟨t, id⟩ applied hlc clocks σ.db db'.rows) :
    Administered c.request.caller σ.db db' := by
  by_cases ht : t = .tripMembers
  · subst ht
    intro n row' hrow' hnew _
    rw [put.lookup] at hrow'
    split at hrow'
    · cases hrow'
      obtain ⟨trip, htrip, hadmin⟩ := ha.administers hc put
      exact ⟨_, trip, hcaller, htrip, hadmin⟩
    · exact absurd hrow' hnew
  · exact .of_put_other put ht

theorem Alters.administered (hc : c.TripCoerced σ) (h : Alters c σ.db db'.rows) :
    Administered c.request.caller σ.db db' := by
  generalize hrows : db'.rows = rows at h
  cases h with
  | nothing => exact fun n row' hrow' hnew => absurd (hrows ▸ hrow') hnew
  | deleted hr valid gate hop present delete =>
    obtain ⟨row, hrow, -⟩ := loadRow_of_present present
    exact fun n row' hrow' hnew =>
      absurd (deleteRow_membership (by rw [hrow]; rfl) delete (hrows ▸ hrow')) hnew
  | pushed hr valid how hop put old =>
    exact .asked (how.asked hr valid hop _) hc hr.caller (hrows ▸ put)
  | founded hr valid gate hop fresh put absent owner =>
    intro n row' hrow' hnew hrole
    rw [hrows, owner.lookup] at hrow'
    split at hrow'
    · cases hrow'
      exact absurd rfl hrole
    · rw [put.lookup, if_neg (by simp)] at hrow'
      exact absurd hrow' hnew
  | restored hr valid noted present gate put =>
    exact .asked (hr.asked valid noted gate _) hc hr.caller (hrows ▸ put)
  | taken hr present put => exact .of_put_other (hrows ▸ put) (by simp)
  | attached ht absent own fields put =>
    exact .of_put_other (hrows ▸ put) fun h => absurd (h ▸ ht) (by decide)
  | stamped ht present fields put =>
    exact .of_put_other (hrows ▸ put) fun h => absurd (h ▸ ht) (by decide)

end

/-! ## Runs -/

/-- Every trip has one owner. -/
def TripsOwned (db : Db) : Prop :=
  ∀ tripID trip, db.rows.lookup ⟨.trips, tripID⟩ = some trip → TripOwned db tripID trip

theorem TripsOwned.step {caller : Option String} {db db' : Db} (h : TripsOwned db)
    (hk : OwnersKept caller db db') : TripsOwned db' := by
  intro tripID trip' htrip'
  cases htrip : db.rows.lookup ⟨.trips, tripID⟩ with
  | none => exact (hk.founded tripID trip' htrip htrip').2
  | some trip =>
    obtain ⟨user, id, row, hcreator, hrow, hmember, hrole, huser, hunique⟩ := h tripID trip htrip
    have hrow' : db'.rows.lookup ⟨.tripMembers, id⟩ = some row := by
      refine (hk.kept id row hrow hrole).resolve_right ?_
      rintro ⟨x, hx, hgone⟩
      obtain rfl : tripID = x := Value.str.inj (hmember.symm.trans hx)
      rw [htrip'] at hgone
      cases hgone
    refine ⟨user, id, row, (hk.creator tripID trip trip' htrip htrip').trans hcreator, hrow', hmember,
      hrole, huser, fun id' row₂ hrow₂ hmember₂ hrole₂ => ?_⟩
    rcases hk.made id' row₂ hrow₂ hrole₂ with hold | ⟨x, hx, hgone⟩
    · exact hunique id' row₂ hold hmember₂ hrole₂
    · obtain rfl : tripID = x := Value.str.inj (hmember₂.symm.trans hx)
      rw [htrip] at hgone
      cases hgone

/-- Every trip has one owner, whom no call touches, in every run from a fresh store. -/
theorem tripsOwned_after (g : Generator) (calls : List Call) :
    TripsOwned (server.after (.fresh g) calls).db ∧
    ∀ pre c post, calls = pre ++ c :: post → OwnersKept c.request.caller
      (server.after (.fresh g) pre).db (server.after (.fresh g) (pre ++ [c])).db := by
  constructor
  · refine (Machine.after_of_step (I := fun σ : Server => σ.db.RefsHold ∧ TripsOwned σ.db)
      (fun σ c hd => ?_) ⟨?_, ?_⟩ calls).2
    · have halters := step_alters σ c
      exact ⟨halters.refsHold hd.1, hd.2.step (halters.ownersKept hd.1)⟩
    · intro key row hr
      cases hr
    · intro tripID trip hr
      cases hr
  · intro pre c post _
    rw [server.after_append]
    exact (step_alters _ c).ownersKept (refsHold_after g pre)

/-- **A trip has one owner, its creator, whom no call touches, and its other memberships are written
by its administration**, in every run in which no trip that a membership is given as a number or a
boolean is one that the caller does not administer. -/
theorem ownership_of_coerced (g : Generator) (calls : List Call)
    (hc : server.Legal (fun σ c => c.TripCoerced σ) (.fresh g) calls) :
    TripsOwned (server.after (.fresh g) calls).db ∧
    ∀ pre c post, calls = pre ++ c :: post →
      OwnersKept c.request.caller (server.after (.fresh g) pre).db
        (server.after (.fresh g) (pre ++ [c])).db ∧
      Administered c.request.caller (server.after (.fresh g) pre).db
        (server.after (.fresh g) (pre ++ [c])).db := by
  obtain ⟨howned, hkept⟩ := tripsOwned_after g calls
  refine ⟨howned, fun pre c post hcalls => ⟨hkept pre c post hcalls, ?_⟩⟩
  rw [server.after_append]
  exact (step_alters _ c).administered (hc pre c post hcalls)

/-- Bob is an editor of Ann's trip, and Cem has a trip of his own. -/
def bobsMembership : List Call := annsTrip ++ [
  .plain 1760000000000 (.addUser "bob"),
  .plain 1760000000000 (.addUser "cem"),
  { Call.master "cem" (.plain 2 .insert .trips "1" [("name", .str "Rome"), ("year", .float 2026)]) with
    env := { Env.plain 1760000000000 with randomID := fun n => "s" ++ toString n } },
  .master "ann" (.plain 3 .insert .tripMembers "m" [("trip_id", .str "T1"), ("user_id", .str "bob")])]

/-- Bob's membership names its trip as a text. -/
theorem ownership_of_coerced_bob :
    TripsOwned (server.after (.fresh .plain) bobsMembership).db ∧
    ∀ pre c post, bobsMembership = pre ++ c :: post →
      OwnersKept c.request.caller (server.after (.fresh .plain) pre).db
        (server.after (.fresh .plain) (pre ++ [c])).db ∧
      Administered c.request.caller (server.after (.fresh .plain) pre).db
        (server.after (.fresh .plain) (pre ++ [c])).db := by
  refine ownership_of_coerced _ _ ?_
  simp only [bobsMembership, annsTrip, List.cons_append, List.nil_append, Machine.legal_cons,
    Machine.legal_nil, and_true]
  refine ⟨fun p m ha => absurd ha (Call.asks_addUser rfl), fun p m ha => ?_,
    fun p m ha => absurd ha (Call.asks_addUser rfl), fun p m ha => absurd ha (Call.asks_addUser rfl),
    fun p m ha => ?_, fun p m ha _ hp => ?_⟩
  · exact absurd (Call.asks_master rfl ha).2 (by decide +kernel)
  · exact absurd (Call.asks_master rfl ha).2 (by decide +kernel)
  · obtain ⟨rfl, -⟩ := Call.asks_master rfl ha
    exact absurd hp (by decide +kernel)

/-- A boolean passes the guard of a membership, and is stored as the id of a trip: Ann, who has no
part in Cem's trip, makes Bob its member. -/
theorem boolean_moves_membership : ¬ ∀ (g : Generator) (calls : List Call) pre c post,
    calls = pre ++ c :: post → Administered c.request.caller (server.after (.fresh g) pre).db
      (server.after (.fresh g) (pre ++ [c])).db := by
  intro h
  let c := Call.master "ann" (.plain 4 .upsert .tripMembers "m" [("trip_id", .bool true)])
  have hrun : ((server.after (.fresh .plain) (bobsMembership ++ [c])).db.rows.lookup
      ⟨.tripMembers, "m"⟩).map (fun row => (row.fields "trip_id", row.fields "role")) =
      some (.str "1", .str "editor") := by
    decide +kernel
  obtain ⟨row, hrow, hfields⟩ := Option.map_eq_some_iff.1 hrun
  obtain ⟨htrip, hrole⟩ := Prod.mk.inj hfields
  have hnew : (server.after (.fresh .plain) bobsMembership).db.rows.lookup ⟨.tripMembers, "m"⟩ ≠
      some row := by
    intro hold
    have hbefore : ((server.after (.fresh .plain) bobsMembership).db.rows.lookup
        ⟨.tripMembers, "m"⟩).map (·.fields "trip_id") = some (.str "T1") := by decide +kernel
    rw [hold, Option.map_some, htrip] at hbefore
    exact absurd hbefore (by decide)
  obtain ⟨user, tripID, hcaller, hof, hadmin⟩ := h .plain (bobsMembership ++ [c]) bobsMembership c []
    rfl "m" row hrow hnew (by rw [hrole]; decide)
  cases hcaller
  have hof := htrip.symm.trans hof
  cases hof
  exact absurd hadmin (by decide +kernel)

end JitPack
