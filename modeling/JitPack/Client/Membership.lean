import JitPack.Lib.Keyed
import JitPack.Lib.Machine
import JitPack.Lib.Ranked
import JitPack.Client.Refresh

/-!
# Who packs an item

The rows of one item are rewritten when somebody picks who packs it: into one shared row, or into a row for each
traveler picked. Rows are kept where they can be: a traveler's row stays, a shared row goes to the first traveler
without one, and the others get rows under derived ids. Going back keeps the row with the most to lose.

A plan does what was asked (`Planned`) exactly if it finds rows it was made for (`Fits`, `planned_iff`): the planner
looks at one row of each traveler and at one shared row, it writes a new amount over a row without looking at what is
packed of it, and it does not look whether a derived id is taken. A row that was made for one traveler and then shared
can go to another, and its id is derived again for the first. So a run of plans does what was asked throughout exactly
if every step finds such rows (`planned_run_iff`).
-/

namespace JitPack

namespace Membership

/-! ## Rows and plans -/

/-- An id of a traveler. -/
abbrev TravelerId := { id : String // id ≠ "" }

/-- `TripItem`, as far as a membership change reads and writes it. -/
@[ext]
structure MemberRow where
  id : String
  tripId : String
  sourceItemId : Option String
  name : String
  assignedTravelerId : Option TravelerId
  quantity : ℕ
  packedCount : ℕ
  state : ItemState
  deriving DecidableEq

/-- `MembershipMember`. -/
structure MembershipMember where
  travelerId : TravelerId
  quantity : ℚ
  deriving DecidableEq

/-- `MembershipTarget`: a traveler is named once. -/
inductive MembershipTarget where
  | shared
  | perPerson (members : List MembershipMember) (distinct : (members.map (·.travelerId)).Nodup)

/-- The fields of a membership update: those it leaves alone are `none`. -/
structure MemberFields where
  assignedTravelerId : Option (Option TravelerId) := none
  quantity : Option ℕ := none
  packedCount : Option ℕ := none
  state : Option ItemState := none
  deriving DecidableEq

/-- `MembershipUpdate`. -/
structure MembershipUpdate where
  id : String
  fields : MemberFields
  deriving DecidableEq

/-- `MembershipInsert`. -/
structure MembershipInsert where
  id : String
  travelerId : TravelerId
  quantity : ℕ
  source : MemberRow
  deriving DecidableEq

/-- `MembershipPlan`, without what only the confirmation is worded with. -/
structure MembershipPlan where
  update : List MembershipUpdate
  insert : List MembershipInsert
  delete : List String
  deriving DecidableEq

/-- The row with the fields of an update laid over it. -/
def MemberRow.paint (row : MemberRow) (fields : MemberFields) : MemberRow :=
  { row with
    assignedTravelerId := fields.assignedTravelerId.getD row.assignedTravelerId
    quantity := fields.quantity.getD row.quantity
    packedCount := fields.packedCount.getD row.packedCount
    state := fields.state.getD row.state }

section
variable (foldName : String → String) (travelers : List TravelerId) (rowsWithContent : List String)

/-- `membershipKey`. -/
def membershipKey (row : MemberRow) : String := row.sourceItemId.getD ("name:" ++ foldName row.name)

/-- `orderOf`: the place of a traveler on the trip. -/
def orderOf (travelerId : TravelerId) : Option ℕ := (Keyed.last (·.1) travelers.zipIdx travelerId).map (·.2)

/-- What `survivorOf` sorts by: content, then packing progress, then trip order. -/
def ladder (row : MemberRow) : ℕ ×ₗ ℕᵒᵈ ×ₗ ℕ :=
  toLex (if row.id ∈ rowsWithContent then 0 else 1,
    toLex (OrderDual.toDual row.packedCount, (row.assignedTravelerId.bind (orderOf travelers)).getD (2 ^ 53 - 1)))

/-- `survivorOf`. -/
def survivorOf (rows : List MemberRow) : Option MemberRow :=
  (Ranked.byRank (ladder travelers rowsWithContent) rows).head?

/-- `stateAfter`. -/
def stateAfter (row : MemberRow) (quantity packedCount : ℕ) : Option ItemState :=
  if row.state = .skipped ∧ quantity > 0 then some .opened
  else if row.state = .packed ∧ packedCount < quantity then some .opened
  else none

/-- `diff`. -/
def diff (row : MemberRow) (next : MemberFields) : MemberFields where
  assignedTravelerId := next.assignedTravelerId.filter (· ≠ row.assignedTravelerId)
  quantity := next.quantity.filter (· ≠ row.quantity)
  packedCount := next.packedCount.filter (· ≠ row.packedCount)
  state := next.state.filter (· ≠ row.state)

/-- The update of a row, if anything of it differs. -/
def updateOf (row : MemberRow) (next : MemberFields) : List MembershipUpdate :=
  if diff row next = {} then [] else [⟨row.id, diff row next⟩]

/-- `Math.trunc`. -/
def trunc (q : ℚ) : ℤ := if q < 0 then ⌈q⌉ else ⌊q⌋

/-- A member as the plan reads it: the amount at least one. -/
structure Member where
  travelerId : TravelerId
  quantity : ℕ
  deriving DecidableEq

/-- `members`: the travelers of the trip that are asked for, in trip order. -/
def membersOf (members : List MembershipMember) : List Member :=
  Ranked.byRank (fun m : Member => (orderOf travelers m.travelerId).getD 0)
    ((members.filter fun m => (orderOf travelers m.travelerId).isSome).map fun m =>
      ⟨m.travelerId, (max 1 (trunc m.quantity)).toNat⟩)

/-- The fields of the row that survives a collapse. -/
def collapsed (rows : List MemberRow) (keep : MemberRow) : MemberFields :=
  let quantity := (rows.map (·.quantity)).sum
  let packed := min (rows.map (·.packedCount)).sum quantity
  { assignedTravelerId := some none, quantity := some quantity, packedCount := some packed
    state := stateAfter keep quantity packed }

/-- `planCollapse`. -/
def planCollapse (rows : List MemberRow) (template : MemberRow) : MembershipPlan :=
  let keep := (survivorOf travelers rowsWithContent rows).getD template
  ⟨updateOf keep (collapsed rows keep), [], (rows.filter (·.id ≠ keep.id)).map (·.id)⟩

/-- The fields of a shared row that goes to a member. -/
def repointed (row : MemberRow) (m : Member) : MemberFields :=
  let packedCount := min row.packedCount m.quantity
  { assignedTravelerId := some (some m.travelerId), quantity := some m.quantity, packedCount := some packedCount
    state := stateAfter row m.quantity packedCount }

/-- The id of a member's new row, as `propagatedItemId` derives it. -/
def derivedId (template : MemberRow) (m : Member) : String :=
  Refresh.deriveId "item" template.tripId (membershipKey foldName template ++ "|" ++ m.travelerId)

/-- The new row of a member. -/
def insertOf (template : MemberRow) (m : Member) : MembershipInsert :=
  ⟨derivedId foldName template m, m.travelerId, m.quantity, template⟩

/-- The loop over the members: the updates, the inserts and the shared row that is left. -/
def planMembers (byTraveler : TravelerId → Option MemberRow) (template : MemberRow) :
    Option MemberRow → List Member → List MembershipUpdate × List MembershipInsert × Option MemberRow
  | repointable, [] => ([], [], repointable)
  | repointable, m :: ms =>
    match byTraveler m.travelerId with
    | some existing =>
      let rest := planMembers byTraveler template repointable ms
      (updateOf existing { quantity := some m.quantity } ++ rest.1, rest.2)
    | none =>
      match repointable with
      | some row =>
        let rest := planMembers byTraveler template none ms
        (updateOf row (repointed row m) ++ rest.1, rest.2)
      | none =>
        let rest := planMembers byTraveler template none ms
        (rest.1, insertOf foldName template m :: rest.2.1, rest.2.2)

/-- `byTraveler.get`: the last row of a traveler. -/
def byTraveler (rows : List MemberRow) (travelerId : TravelerId) : Option MemberRow :=
  Keyed.last (·.assignedTravelerId) rows (some travelerId)

/-- `unassigned`. -/
def unassigned (rows : List MemberRow) : List MemberRow := rows.filter (·.assignedTravelerId = none)

/-- `repointable` before the loop: the shared row that may go to a member. -/
def sharedRow (rows : List MemberRow) : Option MemberRow := survivorOf travelers rowsWithContent (unassigned rows)

/-- `planPerPerson`. -/
def planPerPerson (rows : List MemberRow) (template : MemberRow) (members : List Member) : MembershipPlan :=
  let planned := planMembers foldName (byTraveler rows) template (sharedRow travelers rowsWithContent rows) members
  let wanted := members.map (·.travelerId)
  let removed := rows.filter (fun r => r.assignedTravelerId.any (· ∉ wanted)) ++ planned.2.2.toList
  ⟨planned.1, planned.2.1, removed.map (·.id)⟩

/-- `planMembership`. -/
def planMembership (rows : List MemberRow) : MembershipTarget → MembershipPlan
  | .shared =>
    match rows with
    | [] => ⟨[], [], []⟩
    | template :: _ => planCollapse travelers rowsWithContent rows template
  | .perPerson members _ =>
    match rows with
    | [] => ⟨[], [], []⟩
    | template :: _ =>
      let members := membersOf travelers members
      if members = [] then ⟨[], [], []⟩
      else planPerPerson foldName travelers rowsWithContent rows template members

end

/-- `addGeneratedTripItem` of an insert, read back. -/
def MembershipInsert.row (insert : MembershipInsert) : MemberRow :=
  { insert.source with
    id := insert.id, assignedTravelerId := some insert.travelerId, quantity := insert.quantity, packedCount := 0
    state := if insert.quantity = 0 then .skipped else .opened }

/-- `setMembershipFields`. -/
def setMembershipFields (rows : List MemberRow) (u : MembershipUpdate) : List MemberRow :=
  rows.map fun row => if row.id = u.id then row.paint u.fields else row

/-- `applyMembershipPlan`. -/
def applyMembershipPlan (rows : List MemberRow) (plan : MembershipPlan) : List MemberRow :=
  let updated := plan.update.foldl setMembershipFields rows
  let inserted := (plan.insert.map MembershipInsert.row).foldl (Keyed.put (·.id)) updated
  plan.delete.foldl (Keyed.drop (·.id)) inserted

/-! ## Fields -/

variable {row r x : MemberRow} {next : MemberFields} {q n : ℕ}

@[simp] theorem paint_id : (row.paint next).id = row.id := rfl

@[simp] theorem paint_empty : row.paint {} = row := rfl

@[simp] theorem paint_paint : (row.paint next).paint next = row.paint next := by
  simp only [MemberRow.paint, MemberRow.mk.injEq, true_and]
  refine ⟨?_, ?_, ?_, ?_⟩
  · cases next.assignedTravelerId <;> rfl
  · cases next.quantity <;> rfl
  · cases next.packedCount <;> rfl
  · cases next.state <;> rfl

/-- Fields that do not differ need no write. -/
theorem getD_filter {α : Type*} [DecidableEq α] (o : Option α) (a : α) : (o.filter (· ≠ a)).getD a = o.getD a := by
  cases o with
  | none => rfl
  | some b =>
    by_cases hb : b = a
    · simp [Option.filter, hb]
    · simp [Option.filter, hb]

theorem paint_diff : row.paint (diff row next) = row.paint next := by
  simp only [MemberRow.paint, diff, getD_filter]

theorem mem_updateOf {u : MembershipUpdate} (h : u ∈ updateOf row next) : u = ⟨row.id, diff row next⟩ := by
  unfold updateOf at h
  split at h
  · cases h
  · exact List.mem_singleton.1 h

/-- The row after its update, or after none. -/
theorem paint_of_updateOf : row.paint next = if updateOf row next = [] then row else row.paint (diff row next) := by
  unfold updateOf
  split
  · next h => rw [if_pos rfl, ← paint_diff, h, paint_empty]
  · rw [if_neg (List.cons_ne_nil _ _), paint_diff]

/-! ## Sound rows -/

/-- What is packed of a row is no more than its amount, and its state is true of the two. -/
structure Sound (row : MemberRow) : Prop where
  packed_le : row.packedCount ≤ row.quantity
  packed : row.state = .packed → row.packedCount = row.quantity
  skipped : row.state = .skipped → row.quantity = 0

/-- `stateAfter` leaves no state that the new numbers make false. -/
theorem sound_stateAfter (row : MemberRow) (hle : n ≤ q) (hq : x.quantity = q) (hn : x.packedCount = n)
    (hs : x.state = (stateAfter row q n).getD row.state) : Sound x := by
  subst hq hn
  unfold stateAfter at hs
  split at hs
  · exact ⟨hle, fun h => by simp [hs] at h, fun h => by simp [hs] at h⟩
  · next hskip =>
    split at hs
    · exact ⟨hle, fun h => by simp [hs] at h, fun h => by simp [hs] at h⟩
    · next hpack =>
      rw [Option.getD_none] at hs
      refine ⟨hle, fun h => ?_, fun h => ?_⟩
      · rw [hs] at h
        have := not_and.1 hpack h
        omega
      · rw [hs] at h
        have := not_and.1 hskip h
        omega

theorem sound_repointed (m : Member) : Sound (row.paint (repointed row m)) :=
  sound_stateAfter row (min_le_right row.packedCount m.quantity) rfl rfl rfl

theorem sound_collapsed (rows : List MemberRow) : Sound (row.paint (collapsed rows row)) :=
  sound_stateAfter row (min_le_right _ _) rfl rfl rfl

/-! ## The loop over the members -/

section loop
variable {foldName : String → String} {rowOf : TravelerId → Option MemberRow} {template : MemberRow}
variable {repointable : Option MemberRow} {members : List Member}

/-- The members without a row. -/
def absent (rowOf : TravelerId → Option MemberRow) (members : List Member) : List Member :=
  members.filter fun m => (rowOf m.travelerId).isNone

/-- The loop gives a row the fields `next`. -/
def Changes (rowOf : TravelerId → Option MemberRow) (repointable : Option MemberRow) (members : List Member)
    (row : MemberRow) (next : MemberFields) : Prop :=
  (∃ m ∈ members, rowOf m.travelerId = some row ∧ next = { quantity := some m.quantity }) ∨
    repointable = some row ∧ ∃ m ∈ (absent rowOf members).head?, next = repointed row m

theorem changes_nil : ¬ Changes rowOf repointable [] row next := by
  rintro (⟨m, hm, -⟩ | ⟨-, m, hm, -⟩)
  · cases hm
  · cases hm

theorem changes_cons_some {m : Member} {e : MemberRow} (h : rowOf m.travelerId = some e) :
    Changes rowOf repointable (m :: members) row next ↔
      row = e ∧ next = { quantity := some m.quantity } ∨ Changes rowOf repointable members row next := by
  have habsent : absent rowOf (m :: members) = absent rowOf members := List.filter_cons_of_neg (by simp [h])
  simp only [Changes, habsent, List.exists_mem_cons_iff, h, Option.some.injEq, or_assoc, eq_comm (a := e)]

theorem changes_cons_none {m : Member} (h : rowOf m.travelerId = none) :
    Changes rowOf repointable (m :: members) row next ↔
      (repointable = some row ∧ next = repointed row m) ∨ Changes rowOf none members row next := by
  have habsent : absent rowOf (m :: members) = m :: absent rowOf members := List.filter_cons_of_pos (by simp [h])
  simp [Changes, habsent, h, or_comm]

/-- The updates are those of the rows the loop changes. -/
theorem mem_planMembers_update {u : MembershipUpdate} :
    u ∈ (planMembers foldName rowOf template repointable members).1 ↔
      ∃ row next, Changes rowOf repointable members row next ∧ u ∈ updateOf row next := by
  induction members generalizing repointable with
  | nil => simp [planMembers, changes_nil]
  | cons m members ih =>
    unfold planMembers
    split
    · next e he =>
      simp only [List.mem_append, ih, changes_cons_some he, or_and_right, exists_or]
      refine or_congr_left ⟨fun hu => ⟨e, _, ⟨rfl, rfl⟩, hu⟩, ?_⟩
      rintro ⟨row, next, ⟨rfl, rfl⟩, hu⟩
      exact hu
    · next hnone =>
      simp only [changes_cons_none hnone]
      split
      · next row =>
        simp only [List.mem_append, ih, or_and_right, exists_or]
        refine or_congr_left ⟨fun hu => ⟨row, _, ⟨rfl, rfl⟩, hu⟩, ?_⟩
        rintro ⟨row', next, ⟨hrow, rfl⟩, hu⟩
        rwa [← Option.some.inj hrow] at hu
      · simp [ih]

/-- The members that get new rows: all without a row, but the first if a shared row goes to it. -/
def joining (rowOf : TravelerId → Option MemberRow) (repointable : Option MemberRow) (members : List Member) :
    List Member :=
  if repointable = none then absent rowOf members else (absent rowOf members).tail

theorem planMembers_insert :
    (planMembers foldName rowOf template repointable members).2.1 =
      (joining rowOf repointable members).map (insertOf foldName template) := by
  induction members generalizing repointable with
  | nil => cases repointable <;> rfl
  | cons m members ih =>
    unfold planMembers
    split
    · next e he =>
      have habsent : absent rowOf (m :: members) = absent rowOf members := List.filter_cons_of_neg (by simp [he])
      simpa only [joining, habsent] using ih
    · next hnone =>
      have habsent : absent rowOf (m :: members) = m :: absent rowOf members :=
        List.filter_cons_of_pos (by simp [hnone])
      split
      · simp only [ih, joining, habsent, reduceCtorEq, if_true, if_false, List.tail_cons]
      · simp only [ih, joining, habsent, if_true, List.map_cons]

theorem planMembers_left :
    (planMembers foldName rowOf template repointable members).2.2 =
      if absent rowOf members = [] then repointable else none := by
  induction members generalizing repointable with
  | nil => rfl
  | cons m members ih =>
    unfold planMembers
    split
    · next e he =>
      have habsent : absent rowOf (m :: members) = absent rowOf members := List.filter_cons_of_neg (by simp [he])
      simpa only [habsent] using ih
    · next hnone =>
      have habsent : absent rowOf (m :: members) = m :: absent rowOf members :=
        List.filter_cons_of_pos (by simp [hnone])
      split <;> simp [ih, habsent]

end loop

/-! ## Writing a plan -/

section write
variable {rows : List MemberRow} {updates : List MembershipUpdate} {C : MemberRow → MemberFields → Prop}

theorem foldl_setMembershipFields (updates : List MembershipUpdate) (rows : List MemberRow) :
    updates.foldl setMembershipFields rows =
      rows.map fun row => updates.foldl (fun row u => if row.id = u.id then row.paint u.fields else row) row := by
  induction updates generalizing rows with
  | nil => simp
  | cons u updates ih => simp [ih, setMembershipFields, Function.comp_def]

theorem foldl_update_id (updates : List MembershipUpdate) (row : MemberRow) :
    (updates.foldl (fun row u => if row.id = u.id then row.paint u.fields else row) row).id = row.id := by
  induction updates generalizing row with
  | nil => rfl
  | cons u updates ih =>
    rw [List.foldl_cons, ih]
    split <;> rfl

/-- A row to which one update is made at most. -/
theorem foldl_update {u₀ : MembershipUpdate} (h : ∀ u ∈ updates, u.id = row.id → u = u₀) :
    updates.foldl (fun row u => if row.id = u.id then row.paint u.fields else row) row =
      if ∃ u ∈ updates, u.id = row.id then row.paint u₀.fields else row :=
  Keyed.foldl_agree (f := fun u row => MemberRow.paint row u.fields) (fun _ _ => rfl) paint_paint h

/-- What becomes of a row by the changes `C`. -/
def Becomes (C : MemberRow → MemberFields → Prop) (row x : MemberRow) : Prop :=
  (∃ next, C row next ∧ x = row.paint next) ∨ (∀ next, ¬ C row next) ∧ x = row

theorem Becomes.id_eq (h : Becomes C row x) : x.id = row.id := by
  obtain ⟨next, -, rfl⟩ | ⟨-, rfl⟩ := h
  · rfl
  · rfl

theorem Becomes.of_change (huniq : ∀ row next next', C row next → C row next' → next = next') (hC : C row next) :
    Becomes C row x ↔ x = row.paint next := by
  constructor
  · rintro (⟨next', hC', rfl⟩ | ⟨hnone, -⟩)
    · rw [huniq row next' next hC' hC]
    · exact absurd hC (hnone next)
  · rintro rfl
    exact .inl ⟨next, hC, rfl⟩

theorem Becomes.of_none (hnone : ∀ next, ¬ C row next) : Becomes C row x ↔ x = row := by
  constructor
  · rintro (⟨next, hC, -⟩ | ⟨-, rfl⟩)
    · exact absurd hC (hnone next)
    · rfl
  · rintro rfl
    exact .inr ⟨hnone, rfl⟩

/-- The rows after the updates of the changes `C`, one of a row at most. -/
theorem mem_updated (hrows : (rows.map (·.id)).Nodup)
    (hupdates : ∀ u, u ∈ updates ↔ ∃ row next, C row next ∧ u ∈ updateOf row next)
    (hmem : ∀ row next, C row next → row ∈ rows) (huniq : ∀ row next next', C row next → C row next' → next = next') :
    x ∈ updates.foldl setMembershipFields rows ↔
      ∃ row ∈ rows, Becomes C row x := by
  rw [foldl_setMembershipFields, List.mem_map]
  refine exists_congr fun row => and_congr_right fun hrow => ?_
  have hown : ∀ u ∈ updates, u.id = row.id → ∃ next, C row next ∧ u ∈ updateOf row next := by
    intro u hu hid
    obtain ⟨row', next, hC, hu⟩ := (hupdates u).1 hu
    obtain rfl : row' = row := by
      refine Keyed.eq_of_key hrows (hmem row' next hC) hrow ?_
      rw [← hid, mem_updateOf hu]
    exact ⟨next, hC, hu⟩
  by_cases hchange : ∃ next, C row next
  · obtain ⟨next, hC⟩ := hchange
    have hone : ∀ u ∈ updates, u.id = row.id → u = ⟨row.id, diff row next⟩ := by
      intro u hu hid
      obtain ⟨next', hC', hu⟩ := hown u hu hid
      rw [mem_updateOf hu, huniq row next' next hC' hC]
    have hiff : (∃ u ∈ updates, u.id = row.id) ↔ updateOf row next ≠ [] := by
      constructor
      · rintro ⟨u, hu, hid⟩ hnil
        obtain ⟨next', hC', hu⟩ := hown u hu hid
        rw [huniq row next' next hC' hC, hnil] at hu
        cases hu
      · intro hne
        obtain ⟨u, hu⟩ := List.exists_mem_of_ne_nil _ hne
        exact ⟨u, (hupdates u).2 ⟨row, next, hC, hu⟩, by rw [mem_updateOf hu]⟩
    have hresult : updates.foldl (fun row u => if row.id = u.id then row.paint u.fields else row) row =
        row.paint next := by
      rw [foldl_update hone]
      simp only [hiff, ne_eq, ite_not]
      exact paint_of_updateOf.symm
    rw [hresult, Becomes.of_change huniq hC, eq_comm]
  · have hnone : ¬ ∃ u ∈ updates, u.id = row.id := by
      rintro ⟨u, hu, hid⟩
      obtain ⟨next, hC, -⟩ := hown u hu hid
      exact hchange ⟨next, hC⟩
    have hresult : updates.foldl (fun row u => if row.id = u.id then row.paint u.fields else row) row = row := by
      have hvacuous : ∀ u ∈ updates, u.id = row.id → u = ⟨row.id, {}⟩ := fun u hu hid => absurd ⟨u, hu, hid⟩ hnone
      rw [foldl_update hvacuous, if_neg hnone]
    rw [hresult, Becomes.of_none (not_exists.1 hchange), eq_comm]

end write

/-! ## Steps -/

/-- The rows of an item: no two have one id. -/
structure ItemRows where
  rows : List MemberRow
  distinct : (rows.map (·.id)).Nodup

/-- `MembershipInput`, less the rows. The trip's rows of other items have the ids `elsewhere`. -/
structure MembershipInput where
  travelers : List TravelerId
  rowsWithContent : List String
  elsewhere : List String
  target : MembershipTarget

section steps
variable (foldName : String → String)

/-- The plan of a step. -/
def planOf (s : ItemRows) (i : MembershipInput) : MembershipPlan :=
  planMembership foldName i.travelers i.rowsWithContent s.rows i.target

theorem distinct_apply (s : ItemRows) (plan : MembershipPlan) :
    ((applyMembershipPlan s.rows plan).map (·.id)).Nodup := by
  have hupdated : ((plan.update.foldl setMembershipFields s.rows).map (·.id)).Nodup := by
    have hids : (plan.update.foldl setMembershipFields s.rows).map (·.id) = s.rows.map (·.id) := by
      rw [foldl_setMembershipFields, List.map_map]
      exact List.map_congr_left fun row _ => foldl_update_id plan.update row
    rw [hids]
    exact s.distinct
  exact Keyed.nodup_drops (Keyed.nodup_puts hupdated)

/-- `setMembership`. -/
def setMembership : Machine ItemRows MembershipInput MembershipPlan where
  step s i := (planOf foldName s i, ⟨applyMembershipPlan s.rows (planOf foldName s i), distinct_apply s _⟩)

/-- The rows are what was asked for: one shared row with the amounts of all of them, or a row for each member. -/
def Asked (i : MembershipInput) (before after : List MemberRow) : Prop :=
  match i.target with
  | .shared => ∃ row, (∀ x, x ∈ after ↔ x = row) ∧ row.assignedTravelerId = none ∧
      row.quantity = (before.map (·.quantity)).sum ∧ row.packedCount = (before.map (·.packedCount)).sum
  | .perPerson members _ =>
      (∀ m ∈ membersOf i.travelers members, ∃! row, row ∈ after ∧ row.assignedTravelerId = some m.travelerId) ∧
      ∀ row ∈ after, ∃ m ∈ membersOf i.travelers members,
        row.assignedTravelerId = some m.travelerId ∧ row.quantity = m.quantity

/-- The step does what was asked: all rows are sound, and every new row has an id of its own. -/
structure Planned (s : ItemRows) (i : MembershipInput) : Prop where
  asked : Asked i s.rows ((setMembership foldName).step s i).2.rows
  sound : ∀ row ∈ ((setMembership foldName).step s i).2.rows, Sound row
  inserted : ((planOf foldName s i).insert.map (·.id)).Nodup
  fresh : ∀ insert ∈ (planOf foldName s i).insert, insert.id ∉ s.rows.map (·.id) ∧ insert.id ∉ i.elsewhere

/-- The members that need a new row: those without one, less the first if there is a shared row to go to it. -/
def newcomers (rows : List MemberRow) (members : List Member) : List Member :=
  let missing := members.filter fun m => ∀ row ∈ rows, row.assignedTravelerId ≠ some m.travelerId
  if unassigned rows = [] then missing else missing.tail

/-- A shared row, and a row of a member, are the only one of their kind. -/
def OneEach (rows : List MemberRow) (members : List Member) : Prop :=
  ∀ row ∈ rows, ∀ row' ∈ rows, row.assignedTravelerId = row'.assignedTravelerId →
    (∀ t ∈ row.assignedTravelerId, ∃ m ∈ members, m.travelerId = t) → row = row'

/-- The new amount leaves a row sound. -/
def Keeps (row : MemberRow) (m : Member) : Prop :=
  row.packedCount ≤ m.quantity ∧ row.state ≠ .skipped ∧ (row.state = .packed → row.packedCount = m.quantity)

/-- There is one row of each member at most, and one shared row; what is packed fits the new amounts, and the ids of the
new rows are free. -/
structure FitsMembers (rows : List MemberRow) (elsewhere : List String) (members : List Member) : Prop where
  asked : rows = [] ↔ members = []
  one : OneEach rows members
  keeps : ∀ row ∈ rows, ∀ m ∈ members, row.assignedTravelerId = some m.travelerId → Keeps row m
  inserted : ∀ template ∈ rows.head?, ((newcomers rows members).map (derivedId foldName template)).Nodup
  fresh : ∀ template ∈ rows.head?, ∀ m ∈ newcomers rows members,
    derivedId foldName template m ∉ rows.map (·.id) ∧ derivedId foldName template m ∉ elsewhere

/-- The rows are such that the step does what is asked. -/
def Fits (s : ItemRows) (i : MembershipInput) : Prop :=
  match i.target with
  | .shared => s.rows ≠ [] ∧ (s.rows.map (·.packedCount)).sum ≤ (s.rows.map (·.quantity)).sum
  | .perPerson members _ => FitsMembers foldName s.rows i.elsewhere (membersOf i.travelers members)

end steps

/-! ## A row for each member -/

section perPerson
variable {foldName : String → String} {travelers : List TravelerId} {rowsWithContent : List String}
variable {rows : List MemberRow} {template : MemberRow} {members : List Member} {t : TravelerId} {m m' : Member}

theorem byTraveler_none : byTraveler rows t = none ↔ ∀ row ∈ rows, row.assignedTravelerId ≠ some t :=
  Keyed.last_eq_none_iff

theorem mem_of_byTraveler (h : byTraveler rows t = some row) : row ∈ rows ∧ row.assignedTravelerId = some t :=
  Keyed.mem_of_last h

theorem mem_unassigned : row ∈ unassigned rows ↔ row ∈ rows ∧ row.assignedTravelerId = none := by
  simp [unassigned]

theorem mem_of_survivorOf (h : survivorOf travelers rowsWithContent rows = some row) : row ∈ rows :=
  (Ranked.le_of_head?_byRank h).1

theorem survivorOf_none : survivorOf travelers rowsWithContent rows = none ↔ rows = [] := by
  refine ⟨fun h => ?_, fun h => h ▸ rfl⟩
  refine List.eq_nil_iff_forall_not_mem.2 fun row hrow => ?_
  exact Ranked.head?_byRank_ne_none hrow h

theorem mem_of_sharedRow (h : sharedRow travelers rowsWithContent rows = some row) :
    row ∈ rows ∧ row.assignedTravelerId = none :=
  mem_unassigned.1 (mem_of_survivorOf h)

theorem sharedRow_none : sharedRow travelers rowsWithContent rows = none ↔ unassigned rows = [] := survivorOf_none

theorem joining_eq (travelers : List TravelerId) (rowsWithContent : List String) (rows : List MemberRow)
    (members : List Member) :
    joining (byTraveler rows) (sharedRow travelers rowsWithContent rows) members = newcomers rows members := by
  have habsent : absent (byTraveler rows) members =
      members.filter fun m => ∀ row ∈ rows, row.assignedTravelerId ≠ some m.travelerId := by
    refine List.filter_congr fun m _ => ?_
    rw [Bool.eq_iff_iff, Option.isNone_iff_eq_none, byTraveler_none, decide_eq_true_iff]
  simp only [joining, newcomers, sharedRow_none, habsent]

/-- What the loop changes are rows of the item. -/
theorem mem_of_changes {next : MemberFields}
    (h : Changes (byTraveler rows) (sharedRow travelers rowsWithContent rows) members row next) : row ∈ rows := by
  obtain ⟨m, -, hrow, -⟩ | ⟨hrow, -⟩ := h
  · exact (mem_of_byTraveler hrow).1
  · exact (mem_of_sharedRow hrow).1

/-- A row is changed once. -/
theorem changes_unique {next next' : MemberFields} (hmembers : (members.map (·.travelerId)).Nodup)
    (h : Changes (byTraveler rows) (sharedRow travelers rowsWithContent rows) members row next)
    (h' : Changes (byTraveler rows) (sharedRow travelers rowsWithContent rows) members row next') :
    next = next' := by
  obtain ⟨m, hm, hrow, rfl⟩ | ⟨hrow, m, hm, rfl⟩ := h
  · have hassigned := (mem_of_byTraveler hrow).2
    obtain ⟨m', hm', hrow', rfl⟩ | ⟨hrow', -⟩ := h'
    · have hassigned' := (mem_of_byTraveler hrow').2
      rw [Keyed.eq_of_key hmembers hm hm' (Option.some.inj (hassigned.symm.trans hassigned'))]
    · have hnone := (mem_of_sharedRow hrow').2
      rw [hnone] at hassigned
      cases hassigned
  · have hnone := (mem_of_sharedRow hrow).2
    obtain ⟨m', -, hrow', -⟩ | ⟨-, m', hm', rfl⟩ := h'
    · rw [(mem_of_byTraveler hrow').2] at hnone
      cases hnone
    · rw [Option.mem_unique hm hm']

/-- The plan takes the row out. -/
def Leaves (travelers : List TravelerId) (rowsWithContent : List String) (rows : List MemberRow) (members : List Member)
    (row : MemberRow) : Prop :=
  (∃ t ∈ row.assignedTravelerId, t ∉ members.map (·.travelerId)) ∨
    absent (byTraveler rows) members = [] ∧ sharedRow travelers rowsWithContent rows = some row

theorem mem_planPerPerson_delete {id : String} :
    id ∈ (planPerPerson foldName travelers rowsWithContent rows template members).delete ↔
      ∃ row ∈ rows, Leaves travelers rowsWithContent rows members row ∧ row.id = id := by
  have hleft : ∀ r, r ∈ (planMembers foldName (byTraveler rows) template
      (sharedRow travelers rowsWithContent rows) members).2.2.toList ↔
        absent (byTraveler rows) members = [] ∧ sharedRow travelers rowsWithContent rows = some r := by
    intro r
    rw [planMembers_left, Option.mem_toList]
    split
    · next h => exact ⟨fun hr => ⟨h, hr⟩, And.right⟩
    · next h => exact ⟨fun hr => (nomatch hr), fun hr => absurd hr.1 h⟩
  refine List.mem_map.trans (exists_congr fun r => ?_)
  rw [← and_assoc]
  refine and_congr_left fun _ => ?_
  simp only [List.mem_append, List.mem_filter, hleft, Option.any_eq_true, Leaves, and_or_left, decide_eq_true_iff]
  refine or_congr_right ⟨fun h => ⟨?_, h⟩, And.right⟩
  exact (mem_of_sharedRow h.2).1

theorem planPerPerson_insert : (planPerPerson foldName travelers rowsWithContent rows template members).insert =
    (newcomers rows members).map (insertOf foldName template) :=
  planMembers_insert.trans (congrArg _ (joining_eq travelers rowsWithContent rows members))

/-- What the rows of an item become by a plan for each member, if the ids of the new rows are free. -/
theorem mem_planPerPerson (travelers : List TravelerId) (rowsWithContent : List String)
    (hrows : (rows.map (·.id)).Nodup) (hmembers : (members.map (·.travelerId)).Nodup)
    (hinserted : ((newcomers rows members).map (derivedId foldName template)).Nodup)
    (hfresh : ∀ m ∈ newcomers rows members, derivedId foldName template m ∉ rows.map (·.id)) :
    x ∈ applyMembershipPlan rows (planPerPerson foldName travelers rowsWithContent rows template members) ↔
      (∃ m ∈ newcomers rows members, x = (insertOf foldName template m).row) ∨
        ∃ row ∈ rows, ¬ Leaves travelers rowsWithContent rows members row ∧
          Becomes (Changes (byTraveler rows) (sharedRow travelers rowsWithContent rows) members) row x := by
  have hids : (((newcomers rows members).map (insertOf foldName template)).map MembershipInsert.row).map (·.id) =
      (newcomers rows members).map (derivedId foldName template) := by
    simp only [List.map_map, Function.comp_def]
    rfl
  have hupdated : x ∈ (planPerPerson foldName travelers rowsWithContent rows template members).update.foldl
      setMembershipFields rows ↔ ∃ row ∈ rows,
        Becomes (Changes (byTraveler rows) (sharedRow travelers rowsWithContent rows) members) row x :=
    mem_updated hrows (fun _ => mem_planMembers_update) (fun _ _ => mem_of_changes) fun _ _ _ => changes_unique hmembers
  unfold applyMembershipPlan
  rw [Keyed.mem_drops, Keyed.mem_puts (by rwa [planPerPerson_insert, hids]), planPerPerson_insert, hids, hupdated,
    List.map_map, List.mem_map, mem_planPerPerson_delete, or_and_right]
  refine or_congr ?_ ?_
  · constructor
    · rintro ⟨⟨m, hm, rfl⟩, -⟩
      exact ⟨m, hm, rfl⟩
    · rintro ⟨m, hm, rfl⟩
      refine ⟨⟨m, hm, rfl⟩, ?_⟩
      rintro ⟨row, hrow, -, hid⟩
      exact hfresh m hm (List.mem_map.2 ⟨row, hrow, hid⟩)
  · constructor
    · rintro ⟨⟨⟨row, hrow, hx⟩, -⟩, hkept⟩
      exact ⟨row, hrow, fun hleaves => hkept ⟨row, hrow, hleaves, hx.id_eq.symm⟩, hx⟩
    · rintro ⟨row, hrow, hstays, hx⟩
      refine ⟨⟨⟨row, hrow, hx⟩, fun hnew => ?_⟩, ?_⟩
      · obtain ⟨m, hm, hid⟩ := List.mem_map.1 hnew
        exact hfresh m hm (List.mem_map.2 ⟨row, hrow, by rw [hid, hx.id_eq]⟩)
      · rintro ⟨row', hrow', hleaves, hid⟩
        rw [hx.id_eq] at hid
        rw [Keyed.eq_of_key hrows hrow' hrow hid] at hleaves
        exact hstays hleaves

/-- The row a member has after a plan. -/
def RowFor (foldName : String → String) (travelers : List TravelerId) (rowsWithContent : List String)
    (rows : List MemberRow) (template : MemberRow) (members : List Member) (m : Member) (x : MemberRow) : Prop :=
  (∃ row, byTraveler rows m.travelerId = some row ∧ x = row.paint { quantity := some m.quantity }) ∨
    (∃ row, sharedRow travelers rowsWithContent rows = some row ∧ (absent (byTraveler rows) members).head? = some m ∧
      x = row.paint (repointed row m)) ∨
    m ∈ joining (byTraveler rows) (sharedRow travelers rowsWithContent rows) members ∧
      x = (insertOf foldName template m).row

theorem mem_absent : m ∈ absent (byTraveler rows) members ↔ m ∈ members ∧ byTraveler rows m.travelerId = none := by
  rw [absent, List.mem_filter, Option.isNone_iff_eq_none]

theorem mem_absent_of_joining
    (h : m ∈ joining (byTraveler rows) (sharedRow travelers rowsWithContent rows) members) :
    m ∈ absent (byTraveler rows) members := by
  unfold joining at h
  split at h
  · exact h
  · exact List.mem_of_mem_tail h

/-- A member's row is the member's, with the amount asked for. -/
theorem RowFor.assigned (h : RowFor foldName travelers rowsWithContent rows template members m x) :
    x.assignedTravelerId = some m.travelerId ∧ x.quantity = m.quantity := by
  obtain ⟨row, hrow, rfl⟩ | ⟨row, -, -, rfl⟩ | ⟨-, rfl⟩ := h
  · exact ⟨(mem_of_byTraveler hrow).2, rfl⟩
  · exact ⟨rfl, rfl⟩
  · exact ⟨rfl, rfl⟩

theorem exists_rowFor (hm : m ∈ members) :
    ∃ x, RowFor foldName travelers rowsWithContent rows template members m x := by
  cases hrow : byTraveler rows m.travelerId with
  | some row => exact ⟨_, .inl ⟨row, hrow, rfl⟩⟩
  | none =>
    have habsent : m ∈ absent (byTraveler rows) members := mem_absent.2 ⟨hm, hrow⟩
    cases hshared : sharedRow travelers rowsWithContent rows with
    | none => exact ⟨_, .inr (.inr ⟨by rwa [joining, if_pos hshared], rfl⟩)⟩
    | some row =>
      obtain ⟨first, rest, hlist⟩ := List.exists_cons_of_ne_nil (List.ne_nil_of_mem habsent)
      rw [hlist, List.mem_cons] at habsent
      obtain rfl | hrest := habsent
      · exact ⟨_, .inr (.inl ⟨row, hshared, by rw [hlist]; rfl, rfl⟩)⟩
      · exact ⟨_, .inr (.inr ⟨by rwa [joining, hshared, if_neg (Option.some_ne_none _), hlist], rfl⟩)⟩

/-- A member has one row. -/
theorem RowFor.unique {x' : MemberRow} (hmembers : (members.map (·.travelerId)).Nodup)
    (h : RowFor foldName travelers rowsWithContent rows template members m x)
    (h' : RowFor foldName travelers rowsWithContent rows template members m x') : x = x' := by
  have hnot : ∀ row, byTraveler rows m.travelerId = some row → m ∉ absent (byTraveler rows) members := by
    intro row hrow habsent
    rw [(mem_absent.1 habsent).2] at hrow
    cases hrow
  -- the first member without a row is not one of the others
  have hfirst : ∀ row, sharedRow travelers rowsWithContent rows = some row →
      (absent (byTraveler rows) members).head? = some m →
        m ∉ joining (byTraveler rows) (sharedRow travelers rowsWithContent rows) members := by
    intro row hshared hhead hjoin
    obtain ⟨rest, hlist⟩ := List.head?_eq_some_iff.1 hhead
    have hnodup : (absent (byTraveler rows) members).Nodup := (List.Nodup.of_map _ hmembers).filter _
    rw [joining, hshared, if_neg (Option.some_ne_none _), hlist] at hjoin
    rw [hlist] at hnodup
    exact (List.nodup_cons.1 hnodup).1 hjoin
  obtain ⟨row, hrow, rfl⟩ | ⟨row, hshared, hhead, rfl⟩ | ⟨hjoin, rfl⟩ := h
  · obtain ⟨row', hrow', rfl⟩ | ⟨row', -, hhead, rfl⟩ | ⟨hjoin, rfl⟩ := h'
    · rw [Option.some.inj (hrow.symm.trans hrow')]
    · exact absurd (List.mem_of_head? hhead) (hnot row hrow)
    · exact absurd (mem_absent_of_joining hjoin) (hnot row hrow)
  · obtain ⟨row', hrow', rfl⟩ | ⟨row', hshared', -, rfl⟩ | ⟨hjoin, rfl⟩ := h'
    · exact absurd (List.mem_of_head? hhead) (hnot row' hrow')
    · rw [Option.some.inj (hshared.symm.trans hshared')]
    · exact absurd hjoin (hfirst row hshared hhead)
  · obtain ⟨row', hrow', rfl⟩ | ⟨row', hshared', hhead, rfl⟩ | ⟨-, rfl⟩ := h'
    · exact absurd (mem_absent_of_joining hjoin) (hnot row' hrow')
    · exact absurd hjoin (hfirst row' hshared' hhead)
    · rfl

theorem OneEach.byTraveler (hone : OneEach rows members) (hrow : row ∈ rows) (hm : m ∈ members)
    (hassigned : row.assignedTravelerId = some m.travelerId) : byTraveler rows m.travelerId = some row := by
  cases hby : Membership.byTraveler rows m.travelerId with
  | none => exact absurd hassigned (byTraveler_none.1 hby row hrow)
  | some row' =>
    obtain ⟨hrow', hassigned'⟩ := mem_of_byTraveler hby
    have hall : ∀ t ∈ row.assignedTravelerId, ∃ m ∈ members, m.travelerId = t := by
      intro t ht
      exact ⟨m, hm, Option.mem_unique hassigned ht⟩
    rw [hone row hrow row' hrow' (hassigned.trans hassigned'.symm) hall]

/-- **A row for each member.** The rows after a plan are those of the members. -/
theorem mem_planPerPerson_iff (hrows : (rows.map (·.id)).Nodup) (hmembers : (members.map (·.travelerId)).Nodup)
    (hinserted : ((newcomers rows members).map (derivedId foldName template)).Nodup)
    (hfresh : ∀ m ∈ newcomers rows members, derivedId foldName template m ∉ rows.map (·.id))
    (hone : OneEach rows members) :
    x ∈ applyMembershipPlan rows (planPerPerson foldName travelers rowsWithContent rows template members) ↔
      ∃ m ∈ members, RowFor foldName travelers rowsWithContent rows template members m x := by
  rw [mem_planPerPerson _ _ hrows hmembers hinserted hfresh, ← joining_eq travelers rowsWithContent]
  constructor
  · rintro (⟨m, hm, rfl⟩ | ⟨row, hrow, hstays, hx⟩)
    · exact ⟨m, (mem_absent.1 (mem_absent_of_joining hm)).1, .inr (.inr ⟨hm, rfl⟩)⟩
    · obtain ⟨next, ⟨m, hm, hrow, rfl⟩ | ⟨hshared, m, hhead, rfl⟩, rfl⟩ | ⟨hnone, rfl⟩ := hx
      · exact ⟨m, hm, .inl ⟨row, hrow, rfl⟩⟩
      · exact ⟨m, (mem_absent.1 (List.mem_of_head? hhead)).1, .inr (.inl ⟨row, hshared, hhead, rfl⟩)⟩
      · -- every row that stays is changed
        exfalso
        cases hassigned : x.assignedTravelerId with
        | none =>
          cases hshared : sharedRow travelers rowsWithContent rows with
          | none =>
            have hmem : x ∈ unassigned rows := mem_unassigned.2 ⟨hrow, hassigned⟩
            rw [sharedRow_none.1 hshared] at hmem
            cases hmem
          | some row =>
            obtain ⟨hrow', hassigned'⟩ := mem_of_sharedRow hshared
            obtain rfl : x = row := hone x hrow row hrow' (hassigned.trans hassigned'.symm) (by simp [hassigned])
            cases hhead : (absent (byTraveler rows) members).head? with
            | none => exact hstays (.inr ⟨List.head?_eq_none_iff.1 hhead, hshared⟩)
            | some m => exact hnone _ (.inr ⟨hshared, m, hhead, rfl⟩)
        | some t =>
          have hwanted : ∃ m ∈ members, m.travelerId = t := by
            by_contra hnot
            refine hstays (.inl ⟨t, hassigned, fun hmem => hnot ?_⟩)
            exact List.mem_map.1 hmem
          obtain ⟨m, hm, rfl⟩ := hwanted
          exact hnone _ (.inl ⟨m, hm, hone.byTraveler hrow hm hassigned, rfl⟩)
  · rintro ⟨m, hm, ⟨row, hrow, rfl⟩ | ⟨row, hshared, hhead, rfl⟩ | ⟨hjoin, rfl⟩⟩
    · obtain ⟨hmem, hassigned⟩ := mem_of_byTraveler hrow
      refine .inr ⟨row, hmem, ?_, .inl ⟨_, .inl ⟨m, hm, hrow, rfl⟩, rfl⟩⟩
      rintro (⟨t, ht, hnot⟩ | ⟨-, hshared⟩)
      · rw [Option.mem_unique ht hassigned] at hnot
        exact hnot (List.mem_map.2 ⟨m, hm, rfl⟩)
      · rw [(mem_of_sharedRow hshared).2] at hassigned
        cases hassigned
    · obtain ⟨hmem, hassigned⟩ := mem_of_sharedRow hshared
      refine .inr ⟨row, hmem, ?_, .inl ⟨_, .inr ⟨hshared, m, hhead, rfl⟩, rfl⟩⟩
      rintro (⟨t, ht, -⟩ | ⟨hnil, -⟩)
      · rw [hassigned] at ht
        cases ht
      · rw [hnil] at hhead
        cases hhead
    · exact .inl ⟨m, hjoin, rfl⟩

end perPerson

/-! ## What a step does -/

section main
variable {foldName : String → String} {travelers : List TravelerId} {rowsWithContent elsewhere : List String}
variable {rows : List MemberRow} {template : MemberRow} {members : List MembershipMember} {m : Member}

theorem distinct_membersOf (h : (members.map (·.travelerId)).Nodup) :
    ((membersOf travelers members).map (·.travelerId)).Nodup := by
  refine (((Ranked.byRank_perm _ _).map Member.travelerId).nodup_iff).2 ?_
  rw [List.map_map]
  exact h.sublist (List.filter_sublist.map _)

theorem membersOf_pos (h : m ∈ membersOf travelers members) : 0 < m.quantity := by
  obtain ⟨m', -, rfl⟩ := List.mem_map.1 (Ranked.mem_byRank.1 h)
  have : 1 ≤ max 1 (trunc m'.quantity) := le_max_left _ _
  show 0 < (max 1 (trunc m'.quantity)).toNat
  omega

theorem sound_amount_iff (hm : 0 < m.quantity) :
    Sound (row.paint { quantity := some m.quantity }) ↔ Keeps row m := by
  constructor
  · rintro ⟨hle, hpacked, hskipped⟩
    refine ⟨hle, fun h => ?_, hpacked⟩
    have hzero : m.quantity = 0 := hskipped h
    omega
  · rintro ⟨hle, hskipped, hpacked⟩
    exact ⟨hle, hpacked, fun h => absurd h hskipped⟩

theorem sound_insertOf (hm : 0 < m.quantity) : Sound (insertOf foldName template m).row := by
  have hstate : (insertOf foldName template m).row.state = .opened := if_neg hm.ne'
  exact ⟨Nat.zero_le _, fun h => by simp [hstate] at h, fun h => by simp [hstate] at h⟩

theorem planned_shared_iff (s : ItemRows) :
    Planned foldName s ⟨travelers, rowsWithContent, elsewhere, .shared⟩ ↔
      Fits foldName s ⟨travelers, rowsWithContent, elsewhere, .shared⟩ := by
  obtain ⟨rows, hrows⟩ := s
  cases rows with
  | nil =>
    refine iff_of_false (fun h => ?_) fun h => h.1 rfl
    obtain ⟨row, hall, -⟩ := h.asked
    cases (hall row).2 rfl
  | cons template rest =>
    obtain ⟨keep, hkeep⟩ : ∃ keep, survivorOf travelers rowsWithContent (template :: rest) = some keep :=
      Option.ne_none_iff_exists'.1 fun h => List.cons_ne_nil _ _ (survivorOf_none.1 h)
    have hmem := mem_of_survivorOf hkeep
    have hplan : planCollapse travelers rowsWithContent (template :: rest) template =
        ⟨updateOf keep (collapsed (template :: rest) keep), [],
          ((template :: rest).filter (·.id ≠ keep.id)).map (·.id)⟩ := by
      rw [planCollapse, hkeep, Option.getD_some]
    -- one row is left
    have hafter : ∀ x, x ∈ applyMembershipPlan (template :: rest)
        (planCollapse travelers rowsWithContent (template :: rest) template) ↔
          x = keep.paint (collapsed (template :: rest) keep) := by
      intro x
      rw [hplan, applyMembershipPlan, Keyed.mem_drops]
      refine (and_congr_left' (mem_updated (C := fun row next =>
        row = keep ∧ next = collapsed (template :: rest) keep) hrows ?_ ?_ ?_)).trans ?_
      · intro u
        constructor
        · intro hu
          exact ⟨keep, _, ⟨rfl, rfl⟩, hu⟩
        · rintro ⟨row, next, ⟨rfl, rfl⟩, hu⟩
          exact hu
      · rintro row next ⟨rfl, -⟩
        exact hmem
      · rintro row next next' ⟨-, rfl⟩ ⟨-, rfl⟩
        rfl
      · constructor
        · rintro ⟨⟨row, hrow, hx⟩, hkept⟩
          have hid : row.id = keep.id := by
            by_contra hne
            exact hkept (List.mem_map.2 ⟨row, List.mem_filter.2 ⟨hrow, by simpa using hne⟩, hx.id_eq.symm⟩)
          obtain rfl : row = keep := Keyed.eq_of_key hrows hrow hmem hid
          obtain ⟨next, ⟨-, rfl⟩, rfl⟩ | ⟨hnone, -⟩ := hx
          · rfl
          · exact absurd ⟨rfl, rfl⟩ (hnone _)
        · rintro rfl
          refine ⟨⟨keep, hmem, .inl ⟨_, ⟨rfl, rfl⟩, rfl⟩⟩, fun hgone => ?_⟩
          obtain ⟨row, hrow, hid⟩ := List.mem_map.1 hgone
          exact absurd hid (by simpa using (List.mem_filter.1 hrow).2)
    constructor
    · intro h
      obtain ⟨row, hall, -, -, hpacked⟩ := h.asked
      have hrow : row = keep.paint (collapsed (template :: rest) keep) := (hafter row).1 ((hall row).2 rfl)
      rw [hrow] at hpacked
      exact ⟨List.cons_ne_nil _ _, min_eq_left_iff.1 hpacked⟩
    · rintro ⟨-, hle⟩
      refine ⟨⟨_, hafter, rfl, rfl, min_eq_left hle⟩, fun x hx => ?_, ?_, ?_⟩
      · rw [(hafter x).1 hx]
        exact sound_collapsed _
      · exact List.nodup_nil
      · intro insert hinsert
        cases hinsert

section members
variable {members : List Member}

/-- Where every row after a plan is that of a member, and the only one of it, so it was before. -/
theorem oneEach_of_asked (hrows : (rows.map (·.id)).Nodup) (hmembers : (members.map (·.travelerId)).Nodup)
    (hinserted : ((newcomers rows members).map (derivedId foldName template)).Nodup)
    (hfresh : ∀ m ∈ newcomers rows members, derivedId foldName template m ∉ rows.map (·.id))
    (hunique : ∀ m ∈ members, ∃! row, row ∈ applyMembershipPlan rows
      (planPerPerson foldName travelers rowsWithContent rows template members) ∧
        row.assignedTravelerId = some m.travelerId)
    (hall : ∀ row ∈ applyMembershipPlan rows
      (planPerPerson foldName travelers rowsWithContent rows template members), ∃ m ∈ members,
        row.assignedTravelerId = some m.travelerId ∧ row.quantity = m.quantity) : OneEach rows members := by
  have hafter := fun x => (mem_planPerPerson travelers rowsWithContent hrows hmembers hinserted hfresh : x ∈ _ ↔ _)
  intro row hrow row' hrow' hassigned hwanted
  cases ht : row.assignedTravelerId with
  | none =>
    have hshared : ∀ r ∈ rows, r.assignedTravelerId = none → sharedRow travelers rowsWithContent rows = some r := by
      intro r hr hnone
      by_contra hne
      have hstays : ¬ Leaves travelers rowsWithContent rows members r := by
        rintro (⟨t, ht, -⟩ | ⟨-, hshared⟩)
        · rw [hnone] at ht
          cases ht
        · exact hne hshared
      have hsame : ∀ next,
          ¬ Changes (byTraveler rows) (sharedRow travelers rowsWithContent rows) members r next := by
        rintro next (⟨m, -, hby, -⟩ | ⟨hshared, -⟩)
        · rw [(mem_of_byTraveler hby).2] at hnone
          cases hnone
        · exact hne hshared
      obtain ⟨m, -, hassigned, -⟩ := hall r ((hafter r).2 (.inr ⟨r, hr, hstays, .inr ⟨hsame, rfl⟩⟩))
      rw [hnone] at hassigned
      cases hassigned
    exact Option.some.inj ((hshared row hrow ht).symm.trans (hshared row' hrow' (hassigned.symm.trans ht)))
  | some t =>
    obtain ⟨m, hm, rfl⟩ := hwanted t ht
    have hkept : ∀ r ∈ rows, r.assignedTravelerId = some m.travelerId → ∃ x, (x ∈ applyMembershipPlan rows
        (planPerPerson foldName travelers rowsWithContent rows template members) ∧
          x.assignedTravelerId = some m.travelerId) ∧ x.id = r.id := by
      intro r hr hassigned
      have hstays : ¬ Leaves travelers rowsWithContent rows members r := by
        rintro (⟨t, ht, hnot⟩ | ⟨-, hshared⟩)
        · rw [Option.mem_unique ht hassigned] at hnot
          exact hnot (List.mem_map.2 ⟨m, hm, rfl⟩)
        · rw [(mem_of_sharedRow hshared).2] at hassigned
          cases hassigned
      by_cases hchange : ∃ next, Changes (byTraveler rows) (sharedRow travelers rowsWithContent rows) members r next
      · obtain ⟨next, hnext⟩ := hchange
        refine ⟨r.paint next, ⟨(hafter _).2 (.inr ⟨r, hr, hstays, .inl ⟨next, hnext, rfl⟩⟩), ?_⟩, rfl⟩
        obtain ⟨m', -, -, rfl⟩ | ⟨hshared, -⟩ := hnext
        · exact hassigned
        · rw [(mem_of_sharedRow hshared).2] at hassigned
          cases hassigned
      · exact ⟨r, ⟨(hafter r).2 (.inr ⟨r, hr, hstays, .inr ⟨not_exists.1 hchange, rfl⟩⟩), hassigned⟩, rfl⟩
    obtain ⟨x, hx, hid⟩ := hkept row hrow ht
    obtain ⟨x', hx', hid'⟩ := hkept row' hrow' (hassigned.symm.trans ht)
    refine Keyed.eq_of_key hrows hrow hrow' ?_
    rw [← hid, ← hid', (hunique m hm).unique hx hx']

/-- What a plan for each member does, whatever was asked. -/
theorem rows_iff (foldName : String → String) (travelers : List TravelerId) (rowsWithContent elsewhere : List String)
    (template : MemberRow) (hrows : (rows.map (·.id)).Nodup) (hmembers : (members.map (·.travelerId)).Nodup)
    (hpos : ∀ m ∈ members, 0 < m.quantity) :
    let plan := planPerPerson foldName travelers rowsWithContent rows template members
    let after := applyMembershipPlan rows plan
    (((∀ m ∈ members, ∃! row, row ∈ after ∧ row.assignedTravelerId = some m.travelerId) ∧
        ∀ row ∈ after, ∃ m ∈ members, row.assignedTravelerId = some m.travelerId ∧ row.quantity = m.quantity) ∧
      (∀ row ∈ after, Sound row) ∧ (plan.insert.map (·.id)).Nodup ∧
      ∀ insert ∈ plan.insert, insert.id ∉ rows.map (·.id) ∧ insert.id ∉ elsewhere) ↔
    OneEach rows members ∧
      (∀ row ∈ rows, ∀ m ∈ members, row.assignedTravelerId = some m.travelerId → Keeps row m) ∧
      ((newcomers rows members).map (derivedId foldName template)).Nodup ∧
      ∀ m ∈ newcomers rows members,
        derivedId foldName template m ∉ rows.map (·.id) ∧ derivedId foldName template m ∉ elsewhere := by
  intro plan after
  have hids : plan.insert.map (·.id) = (newcomers rows members).map (derivedId foldName template) := by
    rw [planPerPerson_insert, List.map_map]
    rfl
  have hfree : (∀ insert ∈ plan.insert, insert.id ∉ rows.map (·.id) ∧ insert.id ∉ elsewhere) ↔
      ∀ m ∈ newcomers rows members,
        derivedId foldName template m ∉ rows.map (·.id) ∧ derivedId foldName template m ∉ elsewhere := by
    rw [planPerPerson_insert, List.forall_mem_map]
    rfl
  rw [hids, hfree]
  constructor
  · rintro ⟨⟨hunique, hall⟩, hsound, hinserted, hfresh⟩
    have hone := oneEach_of_asked hrows hmembers hinserted (fun m hm => (hfresh m hm).1) hunique hall
    refine ⟨hone, fun row hrow m hm hassigned => ?_, hinserted, hfresh⟩
    refine (sound_amount_iff (hpos m hm)).1 (hsound _ ?_)
    exact (mem_planPerPerson_iff hrows hmembers hinserted (fun m hm => (hfresh m hm).1) hone).2
      ⟨m, hm, .inl ⟨row, hone.byTraveler hrow hm hassigned, rfl⟩⟩
  · rintro ⟨hone, hkeeps, hinserted, hfresh⟩
    have hafter : ∀ x, x ∈ after ↔
        ∃ m ∈ members, RowFor foldName travelers rowsWithContent rows template members m x := fun _ =>
      mem_planPerPerson_iff hrows hmembers hinserted (fun m hm => (hfresh m hm).1) hone
    refine ⟨⟨fun m hm => ?_, fun row hrow => ?_⟩, fun row hrow => ?_, hinserted, hfresh⟩
    · obtain ⟨x, hx⟩ := exists_rowFor hm
      refine ⟨x, ⟨(hafter x).2 ⟨m, hm, hx⟩, hx.assigned.1⟩, ?_⟩
      rintro x' ⟨hx', hassigned⟩
      obtain ⟨m', hm', hx'⟩ := (hafter x').1 hx'
      have htraveler : m'.travelerId = m.travelerId := Option.some.inj (hx'.assigned.1.symm.trans hassigned)
      obtain rfl : m' = m := Keyed.eq_of_key hmembers hm' hm htraveler
      exact hx'.unique hmembers hx
    · obtain ⟨m, hm, hx⟩ := (hafter row).1 hrow
      exact ⟨m, hm, hx.assigned⟩
    · obtain ⟨m, hm, ⟨r, hby, rfl⟩ | ⟨r, -, -, rfl⟩ | ⟨-, rfl⟩⟩ := (hafter row).1 hrow
      · obtain ⟨hr, hassigned⟩ := mem_of_byTraveler hby
        exact (sound_amount_iff (hpos m hm)).2 (hkeeps r hr m hm hassigned)
      · exact sound_repointed m
      · exact sound_insertOf (hpos m hm)

end members

theorem planned_perPerson_iff (s : ItemRows) (distinct : (members.map (·.travelerId)).Nodup) :
    Planned foldName s ⟨travelers, rowsWithContent, elsewhere, .perPerson members distinct⟩ ↔
      Fits foldName s ⟨travelers, rowsWithContent, elsewhere, .perPerson members distinct⟩ := by
  obtain ⟨rows, hrows⟩ := s
  have hmembers : ((membersOf travelers members).map (·.travelerId)).Nodup := distinct_membersOf distinct
  cases rows with
  | nil =>
    constructor
    · intro h
      refine ⟨iff_of_true rfl (List.eq_nil_iff_forall_not_mem.2 fun m hm => ?_), ?_, ?_, ?_, ?_⟩
      · obtain ⟨row, ⟨hrow, -⟩, -⟩ := h.asked.1 m hm
        cases hrow
      · intro row hrow
        cases hrow
      · intro row hrow
        cases hrow
      · intro row hrow
        cases hrow
      · intro row hrow
        cases hrow
    · intro h
      have hnil : membersOf travelers members = [] := h.asked.1 rfl
      refine ⟨⟨fun m hm => ?_, ?_⟩, ?_, List.nodup_nil, ?_⟩
      · change m ∈ membersOf travelers members at hm
        rw [hnil] at hm
        cases hm
      · intro row hrow
        cases hrow
      · intro row hrow
        cases hrow
      · intro row hrow
        cases hrow
  | cons template rest =>
    by_cases hnil : membersOf travelers members = []
    · refine iff_of_false (fun h => ?_) fun h => List.cons_ne_nil _ _ (h.asked.2 hnil)
      obtain ⟨m, hm, -⟩ := h.asked.2 template (by
        show template ∈ applyMembershipPlan _ (if membersOf travelers members = [] then _ else _)
        rw [if_pos hnil]
        exact List.mem_cons_self)
      change m ∈ membersOf travelers members at hm
      rw [hnil] at hm
      cases hm
    · have hplan : planOf foldName ⟨template :: rest, hrows⟩
          ⟨travelers, rowsWithContent, elsewhere, .perPerson members distinct⟩ =
            planPerPerson foldName travelers rowsWithContent (template :: rest) template
              (membersOf travelers members) := if_neg hnil
      have hrest := rows_iff foldName travelers rowsWithContent elsewhere template hrows hmembers
        fun m hm => membersOf_pos hm
      rw [← hplan] at hrest
      constructor
      · rintro ⟨hasked, hsound, hinserted, hfresh⟩
        obtain ⟨hone, hkeeps, hinserted, hfresh⟩ := hrest.1 ⟨hasked, hsound, hinserted, hfresh⟩
        refine ⟨iff_of_false (List.cons_ne_nil _ _) hnil, hone, hkeeps, ?_, ?_⟩
        · rintro _ ⟨⟩
          exact hinserted
        · rintro _ ⟨⟩
          exact hfresh
      · rintro ⟨-, hone, hkeeps, hinserted, hfresh⟩
        obtain ⟨hasked, hsound, hinserted, hfresh⟩ := hrest.2 ⟨hone, hkeeps, hinserted _ rfl, hfresh _ rfl⟩
        exact ⟨hasked, hsound, hinserted, hfresh⟩

/-- **A step does what is asked exactly if it finds rows it is made for.** -/
theorem planned_iff (s : ItemRows) (i : MembershipInput) : Planned foldName s i ↔ Fits foldName s i := by
  obtain ⟨travelers, rowsWithContent, elsewhere, target⟩ := i
  cases target with
  | shared => exact planned_shared_iff s
  | perPerson members distinct => exact planned_perPerson_iff s distinct

/-- **Changing who packs an item.** Every step of a run does what is asked of it, exactly if every step finds rows that
fit: no more packed than there is when they are made one, and otherwise one row of each member at most and one shared
row, with no more packed than the new amounts and with free ids for the new rows. -/
theorem planned_run_iff (s : ItemRows) (is : List MembershipInput) :
    (setMembership foldName).Legal (Planned foldName) s is ↔ (setMembership foldName).Legal (Fits foldName) s is := by
  constructor
  · intro h pre i post his
    exact (planned_iff _ i).1 (h pre i post his)
  · intro h pre i post his
    exact (planned_iff _ i).2 (h pre i post his)

end main

/-- Two of two are packed for a traveler, and the amount is lowered to one: two of one are packed then. -/
theorem packed_past_amount : ¬ ∀ (foldName : String → String) (s : ItemRows) (is : List MembershipInput),
    s.rows ≠ [] → (∀ row ∈ s.rows, Sound row) → (setMembership foldName).Legal (Planned foldName) s is := by
  intro h
  let row : MemberRow := ⟨"r", "trip", none, "Socks", some ⟨"ann", by decide⟩, 2, 2, .packed⟩
  have hsound : ∀ x ∈ [row], Sound x := by
    intro x hx
    obtain rfl := List.mem_singleton.1 hx
    exact ⟨le_rfl, fun _ => rfl, fun h => nomatch h⟩
  have hrun := h id ⟨[row], by decide⟩
    [⟨[⟨"ann", by decide⟩], [], [], .perPerson [⟨⟨"ann", by decide⟩, 1⟩] (by decide)⟩] (List.cons_ne_nil _ _) hsound
  have hkeeps := ((planned_iff _ _).1 (hrun [] _ [] rfl)).keeps row List.mem_cons_self ⟨⟨"ann", by decide⟩, 1⟩
    (by decide) rfl
  exact absurd hkeeps.1 (by decide)

end Membership

end JitPack
