import JitPack.Client.Excursion

/-!
# Borrowing from the suitcase

The lines of an excursion come out of the suitcase where they can. While the suitcase is open, a line is linked to the
row of its thing, which is raised to the amount of the line, or to a row that is created for it; a row that was decided
against is linked and not revived. Once the suitcase is closed it gains nothing.

One draft after another keeps what the plan is about: where each line is linked, and that the amount of a row is the
largest that is asked of it (`Linked.linkDraft`). The main theorem is `planLinks_spec`.
-/

namespace JitPack

namespace Excursion

open Packing (trim)

/-! ## Rows and writes -/

/-- A row of the suitcase, as far as a line borrows it. -/
structure SuitcaseRow where
  sourceItemId : Option String
  name : String
  assignedTravelerId : Option String
  quantity : ℤ
  packedCount : ℤ
  state : ItemState
  deriving DecidableEq

/-- `TripItem`, so far. -/
structure TripItem extends SuitcaseRow where
  id : String
  deriving DecidableEq

/-- `GeneratedTripItemFields`. -/
structure GeneratedTripItemFields where
  sourceItemId : Option String
  sourceTemplateId : Option String
  name : String
  categoryName : Option String
  weightGrams : Option ℤ
  valueCents : Option ℤ
  quantity : ℤ
  mode : ExcursionLineMode
  latePacker : Bool
  deriving DecidableEq

/-- The row that a line borrows: one that is there, or the one that a write creates. -/
inductive Link where
  | existing (id : String)
  | created (ref : ℕ)
  deriving DecidableEq

/-- `SuitcaseWrite`. -/
inductive SuitcaseWrite where
  | raise (tripItem : TripItem) (quantity : ℤ)
  | create (ref : ℕ) (fields : GeneratedTripItemFields) (travelerId : Option String)
  deriving DecidableEq

/-- `PlannedLine`. -/
structure PlannedLine where
  draft : DraftLine
  link : Option Link
  notInLuggage : Bool
  deriving DecidableEq

/-- `LinkPlan`. -/
structure LinkPlan where
  lines : List PlannedLine
  suitcase : List SuitcaseWrite
  deriving DecidableEq

/-- A row that is to be created. Its amount may still grow. -/
structure Creation where
  key : SetKey × Option String
  ref : ℕ
  fields : GeneratedTripItemFields
  travelerId : Option String

/-- What the drafts so far were linked to. -/
structure Linking where
  lines : List PlannedLine
  raised : List (String × ℤ)
  created : List Creation

section
variable (toLowerCase : String → String)

/-- `sameThing`. -/
def sameThing (row : SuitcaseRow) (sourceItemId : Option String) (name : String) : Bool :=
  match sourceItemId, row.sourceItemId with
  | some id, some id' => id' = id
  | _, _ => normalizeName toLowerCase row.name = normalizeName toLowerCase name

/-- `matchKey`. -/
def matchKey (draft : DraftLine) : SetKey × Option String :=
  (setKeyOf toLowerCase draft.sourceItemId draft.name, draft.assignedTravelerId)

/-- `suitcaseRowFor`. -/
def suitcaseRowFor (draft : DraftLine) (tripItems : List TripItem) : Option TripItem :=
  let same := tripItems.filter fun t => sameThing toLowerCase t.toSuitcaseRow draft.sourceItemId draft.name
  match draft.assignedTravelerId with
  | some person => same.find? (·.assignedTravelerId = some person)
  | none => (same.find? (·.assignedTravelerId = none)).or same.head?

/-- A line that may touch the suitcase: it is not bought on the spot, and not the excursion's alone. -/
def FromLuggage (draft : DraftLine) : Prop := draft.mode ≠ .buyLocal ∧ draft.sourceItemId ≠ none

instance (draft : DraftLine) : Decidable (FromLuggage draft) := inferInstanceAs (Decidable (_ ∧ _))

/-- The row that a draft asks for. -/
def fieldsOf (draft : DraftLine) : GeneratedTripItemFields where
  sourceItemId := draft.sourceItemId
  sourceTemplateId := draft.sourceTemplateId
  name := draft.name
  categoryName := draft.categoryName
  weightGrams := draft.weightGrams
  valueCents := draft.valueCents
  quantity := draft.quantity
  mode := .pack
  latePacker := false

/-- The amounts of a map, where one is set. -/
def setAmount (raised : List (String × ℤ)) (id : String) (quantity : ℤ) : List (String × ℤ) :=
  Grouping.upsert quantity (fun _ => quantity) id raised

/-- One draft. -/
def linkDraft (tripItems : List TripItem) (suitcaseOpen : Bool) (st : Linking) (draft : DraftLine) : Linking :=
  if ¬ FromLuggage draft then { st with lines := st.lines ++ [⟨draft, none, false⟩] }
  else
    match suitcaseRowFor toLowerCase draft tripItems with
    | some row =>
      if ! suitcaseOpen then { st with lines := st.lines ++ [⟨draft, some (.existing row.id), row.packedCount ≤ 0⟩] }
      else
        { st with
          raised :=
            if row.state ≠ .skipped ∧ (st.raised.lookup row.id).getD row.quantity < draft.quantity then
              setAmount st.raised row.id draft.quantity
            else st.raised
          lines := st.lines ++ [⟨draft, some (.existing row.id), row.state = .skipped⟩] }
    | none =>
      if ! suitcaseOpen then { st with lines := st.lines ++ [⟨draft, none, true⟩] }
      else
        match st.created.find? (·.key = matchKey toLowerCase draft) with
        | some pending =>
          { st with
            created := st.created.map fun c =>
              if c.key = pending.key then
                { c with fields := { c.fields with quantity := max c.fields.quantity draft.quantity } }
              else c
            lines := st.lines ++ [⟨draft, some (.created pending.ref), false⟩] }
        | none =>
          { st with
            created := st.created ++
              [⟨matchKey toLowerCase draft, st.created.length, fieldsOf draft, draft.assignedTravelerId⟩]
            lines := st.lines ++ [⟨draft, some (.created st.created.length), false⟩] }

/-- `planLinks`. The writes that create hold the fields as they are in the end. -/
def planLinks (drafts : List DraftLine) (tripItems : List TripItem) (suitcaseOpen : Bool) : LinkPlan :=
  let st := drafts.foldl (linkDraft toLowerCase tripItems suitcaseOpen) ⟨[], [], []⟩
  { lines := st.lines
    suitcase := st.created.map (fun c => .create c.ref c.fields c.travelerId) ++
      st.raised.filterMap fun r =>
        (tripItems.find? (·.id = r.1)).bind fun t => if t.quantity < r.2 then some (.raise t r.2) else none }

end

/-! ## What the suitcase holds then -/

/-- What a write does to a row that was there. -/
def SuitcaseWrite.onto (t : TripItem) (row : SuitcaseRow) : SuitcaseWrite → SuitcaseRow
  | .raise t' quantity => if t'.id = t.id then { row with quantity := quantity } else row
  | .create .. => row

/-- A row that was there, as the writes leave it. -/
def LinkPlan.afterRow (plan : LinkPlan) (t : TripItem) : SuitcaseRow :=
  plan.suitcase.foldl (fun row w => w.onto t row) t.toSuitcaseRow

/-- The row that is created. -/
def createdRow (fields : GeneratedTripItemFields) (travelerId : Option String) : SuitcaseRow where
  sourceItemId := fields.sourceItemId
  name := fields.name
  assignedTravelerId := travelerId
  quantity := fields.quantity
  packedCount := 0
  state := .opened

/-- A row of the suitcase once the plan is applied. -/
def LinkPlan.Holds (plan : LinkPlan) (tripItems : List TripItem) (link : Link) (row : SuitcaseRow) : Prop :=
  (∃ t ∈ tripItems, link = .existing t.id ∧ row = plan.afterRow t) ∨
    ∃ ref fields travelerId, .create ref fields travelerId ∈ plan.suitcase ∧ link = .created ref ∧
      row = createdRow fields travelerId

/-- The amounts that lines ask of a row. -/
def asked (lines : List PlannedLine) (link : Link) : Set ℤ :=
  {q | ∃ p ∈ lines, p.link = some link ∧ p.draft.quantity = q}

section
variable (toLowerCase : String → String)

/-- A plan while the suitcase is open. -/
structure Borrowed (drafts : List DraftLine) (tripItems : List TripItem) (plan : LinkPlan) : Prop where
  drafts : plan.lines.map (·.draft) = drafts
  apart : ∀ p ∈ plan.lines, ¬ FromLuggage p.draft → p.link = none ∧ p.notInLuggage = false
  linked : ∀ p ∈ plan.lines, FromLuggage p.draft → ∃ link row, p.link = some link ∧ plan.Holds tripItems link row ∧
    (p.notInLuggage = true ↔ row.state = .skipped) ∧ (row.state ≠ .skipped → p.draft.quantity ≤ row.quantity)
  raised : ∀ t ∈ tripItems, t.state ≠ .skipped →
    plan.afterRow t = { t.toSuitcaseRow with quantity := (plan.afterRow t).quantity } ∧
      IsGreatest (insert t.quantity (asked plan.lines (.existing t.id))) (plan.afterRow t).quantity
  untouched : ∀ t ∈ tripItems, t.state = .skipped ∨ asked plan.lines (.existing t.id) = ∅ →
    plan.afterRow t = t.toSuitcaseRow
  created : ∀ ref fields travelerId, .create ref fields travelerId ∈ plan.suitcase →
    IsGreatest (asked plan.lines (.created ref)) fields.quantity ∧
      ∀ t ∈ tripItems, sameThing toLowerCase t.toSuitcaseRow fields.sourceItemId fields.name →
        travelerId ≠ none ∧ t.assignedTravelerId ≠ travelerId
  once : plan.suitcase.Pairwise fun w w' => ∀ ref fields travelerId ref' fields' travelerId',
    w = .create ref fields travelerId → w' = .create ref' fields' travelerId' →
      ref ≠ ref' ∧ (fields.sourceItemId, travelerId) ≠ (fields'.sourceItemId, travelerId')

end

/-! ## One draft after another -/

section
variable {toLowerCase : String → String} {tripItems : List TripItem} {done : List DraftLine} {st : Linking}
  {lines : List PlannedLine} {line : PlannedLine} {link : Link} {draft : DraftLine} {t : TripItem}

theorem asked_snoc (h : line.link = some link) :
    asked (lines ++ [line]) link = insert line.draft.quantity (asked lines link) := by
  ext q
  simp only [asked, List.mem_append, List.mem_singleton, Set.mem_ofPred_eq, Set.mem_insert_iff]
  constructor
  · rintro ⟨p, hp | rfl, hlink, rfl⟩
    · exact .inr ⟨p, hp, hlink, rfl⟩
    · exact .inl rfl
  · rintro (rfl | ⟨p, hp, hlink, rfl⟩)
    · exact ⟨line, .inr rfl, h, rfl⟩
    · exact ⟨p, .inl hp, hlink, rfl⟩

theorem asked_snoc_of_ne (h : line.link ≠ some link) : asked (lines ++ [line]) link = asked lines link := by
  ext q
  simp only [asked, List.mem_append, List.mem_singleton, Set.mem_ofPred_eq]
  constructor
  · rintro ⟨p, hp | rfl, hlink, rfl⟩
    · exact ⟨p, hp, hlink, rfl⟩
    · exact absurd hlink h
  · rintro ⟨p, hp, hlink, rfl⟩
    exact ⟨p, .inl hp, hlink, rfl⟩

theorem lookup_map_set (raised : List (String × ℤ)) (id id' : String) (quantity : ℤ) :
    (raised.map fun e => if e.1 = id then (e.1, quantity) else e).lookup id' =
      if id' = id then (raised.lookup id').map fun _ => quantity else raised.lookup id' := by
  induction raised with
  | nil => simp
  | cons r raised ih =>
    have hfst : (if r.1 = id then (r.1, quantity) else r).1 = r.1 := by split <;> rfl
    rw [List.map_cons, List.lookup_cons, List.lookup_cons, ih, hfst]
    by_cases hid : id' = r.1
    · subst hid
      by_cases hr : r.1 = id <;> simp [hr]
    · have hbeq : (id' == r.1) = false := beq_eq_false_iff_ne.2 hid
      simp only [hbeq]

/-- A map with an amount set. -/
theorem lookup_setAmount (raised : List (String × ℤ)) (id id' : String) (quantity : ℤ) :
    (setAmount raised id quantity).lookup id' = if id' = id then some quantity else raised.lookup id' := by
  unfold setAmount Grouping.upsert
  by_cases hmem : id ∈ raised.map Prod.fst
  · rw [if_pos hmem, lookup_map_set]
    by_cases hid : id' = id
    · subst hid
      obtain ⟨r, hr, hkey⟩ := List.mem_map.1 hmem
      have hsome : (raised.lookup id').isSome := List.lookup_isSome_iff.2 ⟨r, hr, beq_iff_eq.2 hkey.symm⟩
      obtain ⟨q, hq⟩ := Option.isSome_iff_exists.1 hsome
      rw [if_pos rfl, if_pos rfl, hq]
      rfl
    · rw [if_neg hid, if_neg hid]
  · rw [if_neg hmem, List.lookup_append]
    by_cases hid : id' = id
    · subst hid
      have hnone : raised.lookup id' = none := by
        rw [List.lookup_eq_none_iff]
        exact fun r hr => bne_iff_ne.2 fun hkey => hmem (List.mem_map.2 ⟨r, hr, hkey.symm⟩)
      rw [hnone, if_pos rfl]
      simp
    · have hbeq : (id' == id) = false := beq_eq_false_iff_ne.2 hid
      rw [if_neg hid, List.lookup_cons, hbeq, List.lookup_nil, Option.or_none]

variable (toLowerCase tripItems) in
/-- Where the drafts so far are linked, and what is asked of the rows. -/
structure Linked (done : List DraftLine) (st : Linking) : Prop where
  drafts : st.lines.map (·.draft) = done
  apart : ∀ p ∈ st.lines, ¬ FromLuggage p.draft → p.link = none ∧ p.notInLuggage = false
  existing : ∀ p ∈ st.lines, FromLuggage p.draft → ∀ t, suitcaseRowFor toLowerCase p.draft tripItems = some t →
    p.link = some (.existing t.id) ∧ (p.notInLuggage = true ↔ t.state = .skipped)
  missing : ∀ p ∈ st.lines, FromLuggage p.draft → suitcaseRowFor toLowerCase p.draft tripItems = none →
    p.notInLuggage = false ∧ ∃ c ∈ st.created, p.link = some (.created c.ref)
  raised : ∀ t ∈ tripItems, t.state ≠ .skipped →
    IsGreatest (insert t.quantity (asked st.lines (.existing t.id))) ((st.raised.lookup t.id).getD t.quantity)
  skipped : ∀ t ∈ tripItems, t.state = .skipped → st.raised.lookup t.id = none
  keysRaised : (st.raised.map Prod.fst).Nodup
  refs : st.created.map (·.ref) = List.range st.created.length
  keys : (st.created.map (·.key)).Nodup
  created : ∀ c ∈ st.created, IsGreatest (asked st.lines (.created c.ref)) c.fields.quantity
  source : ∀ c ∈ st.created, c.key = (setKeyOf toLowerCase c.fields.sourceItemId c.fields.name, c.travelerId) ∧
    ∃ draft, FromLuggage draft ∧ suitcaseRowFor toLowerCase draft tripItems = none ∧
      c.fields.sourceItemId = draft.sourceItemId ∧ c.fields.name = draft.name ∧
      c.travelerId = draft.assignedTravelerId

theorem forall_snoc {P : PlannedLine → Prop} (h : ∀ p ∈ lines, P p) (hline : P line) : ∀ p ∈ lines ++ [line], P p := by
  intro p hp
  rcases List.mem_append.1 hp with hold | hnew
  · exact h p hold
  · rw [List.mem_singleton.1 hnew]
    exact hline

theorem Linked.empty : Linked toLowerCase tripItems [] ⟨[], [], []⟩ := by
  constructor <;> simp [asked]

/-- A line that does not touch the suitcase. -/
theorem Linked.pushApart (h : Linked toLowerCase tripItems done st) (hdraft : ¬ FromLuggage draft) :
    Linked toLowerCase tripItems (done ++ [draft]) { st with lines := st.lines ++ [⟨draft, none, false⟩] } := by
  have hsame : ∀ link, asked (st.lines ++ [⟨draft, none, false⟩]) link = asked st.lines link :=
    fun link => asked_snoc_of_ne nofun
  exact
    { h with
      drafts := by rw [List.map_append, h.drafts]; rfl
      apart := forall_snoc h.apart fun _ => ⟨rfl, rfl⟩
      existing := forall_snoc h.existing fun hfrom => absurd hfrom hdraft
      missing := forall_snoc h.missing fun hfrom => absurd hfrom hdraft
      raised := fun t ht hstate => by
        rw [hsame]
        exact h.raised t ht hstate
      created := fun c hc => by
        rw [hsame]
        exact h.created c hc }

theorem mem_of_suitcaseRowFor (h : suitcaseRowFor toLowerCase draft tripItems = some t) : t ∈ tripItems := by
  unfold suitcaseRowFor at h
  split at h
  · exact (List.mem_filter.1 (List.mem_of_find?_eq_some h)).1
  · rcases Option.or_eq_some_iff.1 h with hfind | ⟨-, hhead⟩
    · exact (List.mem_filter.1 (List.mem_of_find?_eq_some hfind)).1
    · exact (List.mem_filter.1 (List.mem_of_head? hhead)).1

theorem nodup_setAmount {raised : List (String × ℤ)} {id : String} {quantity : ℤ} (h : (raised.map Prod.fst).Nodup) :
    ((setAmount raised id quantity).map Prod.fst).Nodup := by
  rw [setAmount, Grouping.keys_upsert]
  exact Insertion.nodup_add h

/-- A line of a row that is there. -/
theorem Linked.pushExisting (hids : (tripItems.map (·.id)).Nodup) (h : Linked toLowerCase tripItems done st)
    (hdraft : FromLuggage draft) (hrow : suitcaseRowFor toLowerCase draft tripItems = some t) :
    Linked toLowerCase tripItems (done ++ [draft])
      { st with
        raised :=
          if t.state ≠ .skipped ∧ (st.raised.lookup t.id).getD t.quantity < draft.quantity then
            setAmount st.raised t.id draft.quantity
          else st.raised
        lines := st.lines ++ [⟨draft, some (.existing t.id), t.state = .skipped⟩] } := by
  have ht := mem_of_suitcaseRowFor hrow
  have hone : ∀ t' ∈ tripItems, t'.id = t.id → t' = t := fun t' ht' hid => List.inj_on_of_nodup_map hids ht' ht hid
  refine
    { h with
      drafts := ?_
      apart := ?_
      existing := ?_
      missing := ?_
      raised := ?_
      skipped := ?_
      keysRaised := ?_
      created := ?_ }
  · rw [List.map_append, h.drafts]
    rfl
  · exact forall_snoc h.apart fun hnot => absurd hdraft hnot
  · refine forall_snoc h.existing fun _ t' hrow' => ?_
    rw [hrow] at hrow'
    cases hrow'
    exact ⟨rfl, decide_eq_true_iff⟩
  · refine forall_snoc h.missing fun _ hnone => ?_
    rw [hrow] at hnone
    cases hnone
  · intro t' ht' hstate
    by_cases hid : t'.id = t.id
    · cases hone t' ht' hid
      have hold := h.raised t ht hstate
      rw [asked_snoc rfl, Set.insert_comm]
      have hmax := hold.insert draft.quantity
      by_cases hmore : (st.raised.lookup t.id).getD t.quantity < draft.quantity
      · rw [max_eq_left hmore.le] at hmax
        rw [if_pos ⟨hstate, hmore⟩, lookup_setAmount, if_pos rfl]
        exact hmax
      · rw [max_eq_right (not_lt.1 hmore)] at hmax
        rw [if_neg fun hboth => hmore hboth.2]
        exact hmax
    · have hlookup : (if t.state ≠ .skipped ∧ (st.raised.lookup t.id).getD t.quantity < draft.quantity then
          setAmount st.raised t.id draft.quantity else st.raised).lookup t'.id = st.raised.lookup t'.id := by
        split
        · rw [lookup_setAmount, if_neg hid]
        · rfl
      rw [hlookup, asked_snoc_of_ne fun hlink => hid (Link.existing.inj (Option.some.inj hlink)).symm]
      exact h.raised t' ht' hstate
  · intro t' ht' hstate
    by_cases hid : t'.id = t.id
    · cases hone t' ht' hid
      rw [if_neg fun hboth => hboth.1 hstate]
      exact h.skipped t ht hstate
    · split
      · rw [lookup_setAmount, if_neg hid]
        exact h.skipped t' ht' hstate
      · exact h.skipped t' ht' hstate
  · split
    · exact nodup_setAmount h.keysRaised
    · exact h.keysRaised
  · intro c hc
    rw [asked_snoc_of_ne (by simp)]
    exact h.created c hc

theorem Linked.eq_of_ref (h : Linked toLowerCase tripItems done st) {c c' : Creation} (hc : c ∈ st.created)
    (hc' : c' ∈ st.created) (href : c.ref = c'.ref) : c = c' := by
  have hnodup : (st.created.map (·.ref)).Nodup := by
    rw [h.refs]
    exact List.nodup_range
  exact List.inj_on_of_nodup_map hnodup hc hc' href

/-- A line of a row that is to be created already. -/
theorem Linked.pushPending {pending : Creation} (h : Linked toLowerCase tripItems done st) (hdraft : FromLuggage draft)
    (hrow : suitcaseRowFor toLowerCase draft tripItems = none) (hpending : pending ∈ st.created) :
    Linked toLowerCase tripItems (done ++ [draft])
      { st with
        created := st.created.map fun c =>
          if c.key = pending.key then
            { c with fields := { c.fields with quantity := max c.fields.quantity draft.quantity } }
          else c
        lines := st.lines ++ [⟨draft, some (.created pending.ref), false⟩] } := by
  have hkept : ∀ c : Creation, (if c.key = pending.key then
      { c with fields := { c.fields with quantity := max c.fields.quantity draft.quantity } } else c) =
      { c with fields := { c.fields with quantity := (if c.key = pending.key then
        max c.fields.quantity draft.quantity else c.fields.quantity) } } := by
    intro c
    split <;> rfl
  simp only [hkept]
  have hmap : ∀ {β : Type} (f : Creation → β), (∀ c q, f { c with fields := { c.fields with quantity := q } } = f c) →
      (st.created.map fun c => { c with fields := { c.fields with quantity := (if c.key = pending.key then
        max c.fields.quantity draft.quantity else c.fields.quantity) } }).map f = st.created.map f := by
    intro β f hf
    rw [List.map_map]
    exact List.map_congr_left fun c _ => hf c _
  refine
    { h with
      drafts := ?_
      apart := ?_
      existing := ?_
      missing := ?_
      raised := ?_
      refs := ?_
      keys := ?_
      created := ?_
      source := ?_ }
  · rw [List.map_append, h.drafts]
    rfl
  · exact forall_snoc h.apart fun hnot => absurd hdraft hnot
  · refine forall_snoc h.existing fun _ t' hrow' => ?_
    rw [hrow] at hrow'
    cases hrow'
  · refine forall_snoc (fun p hp hfrom hnone => ?_) fun _ _ => ⟨rfl, _, List.mem_map_of_mem hpending, rfl⟩
    obtain ⟨hnot, c, hc, hlink⟩ := h.missing p hp hfrom hnone
    exact ⟨hnot, _, List.mem_map_of_mem hc, hlink⟩
  · intro t ht hstate
    rw [asked_snoc_of_ne (by simp)]
    exact h.raised t ht hstate
  · rw [hmap (·.ref) fun _ _ => rfl, h.refs, List.length_map]
  · rw [hmap (·.key) fun _ _ => rfl]
    exact h.keys
  · intro c hc
    obtain ⟨c₀, hc₀, rfl⟩ := List.mem_map.1 hc
    by_cases hkey : c₀.key = pending.key
    · cases List.inj_on_of_nodup_map h.keys hc₀ hpending hkey
      show IsGreatest _ (if _ then _ else _)
      rw [if_pos rfl, asked_snoc rfl, max_comm]
      exact (h.created pending hpending).insert _
    · show IsGreatest _ (if _ then _ else _)
      rw [if_neg hkey, asked_snoc_of_ne fun hlink => hkey ?_]
      · exact h.created c₀ hc₀
      · rw [h.eq_of_ref hpending hc₀ (Link.created.inj (Option.some.inj hlink))]
  · intro c hc
    obtain ⟨c₀, hc₀, rfl⟩ := List.mem_map.1 hc
    exact h.source c₀ hc₀

/-- A line of a row that is not there. -/
theorem Linked.pushNew (h : Linked toLowerCase tripItems done st) (hdraft : FromLuggage draft)
    (hrow : suitcaseRowFor toLowerCase draft tripItems = none)
    (hnew : st.created.find? (·.key = matchKey toLowerCase draft) = none) :
    Linked toLowerCase tripItems (done ++ [draft])
      { st with
        created := st.created ++
          [⟨matchKey toLowerCase draft, st.created.length, fieldsOf draft, draft.assignedTravelerId⟩]
        lines := st.lines ++ [⟨draft, some (.created st.created.length), false⟩] } := by
  have hlt : ∀ c ∈ st.created, c.ref < st.created.length := by
    intro c hc
    rw [← List.mem_range, ← h.refs]
    exact List.mem_map_of_mem hc
  have hnone : asked st.lines (.created st.created.length) = ∅ := by
    refine Set.eq_empty_iff_forall_notMem.2 ?_
    rintro q ⟨p, hp, hlink, -⟩
    by_cases hfrom : FromLuggage p.draft
    · cases hp' : suitcaseRowFor toLowerCase p.draft tripItems with
      | some t =>
        rw [(h.existing p hp hfrom t hp').1] at hlink
        cases hlink
      | none =>
        obtain ⟨-, c, hc, hlink'⟩ := h.missing p hp hfrom hp'
        rw [hlink'] at hlink
        exact absurd (Link.created.inj (Option.some.inj hlink)) (hlt c hc).ne
    · rw [(h.apart p hp hfrom).1] at hlink
      cases hlink
  refine
    { h with
      drafts := ?_
      apart := ?_
      existing := ?_
      missing := ?_
      raised := ?_
      refs := ?_
      keys := ?_
      created := ?_
      source := ?_ }
  · rw [List.map_append, h.drafts]
    rfl
  · exact forall_snoc h.apart fun hnot => absurd hdraft hnot
  · refine forall_snoc h.existing fun _ t' hrow' => ?_
    rw [hrow] at hrow'
    cases hrow'
  · refine forall_snoc (fun p hp hfrom hnone => ?_) fun _ _ =>
      ⟨rfl, _, List.mem_append_right _ (List.mem_singleton_self _), rfl⟩
    obtain ⟨hnot, c, hc, hlink⟩ := h.missing p hp hfrom hnone
    exact ⟨hnot, c, List.mem_append_left _ hc, hlink⟩
  · intro t ht hstate
    rw [asked_snoc_of_ne (by simp)]
    exact h.raised t ht hstate
  · rw [List.map_append, h.refs, List.length_append, List.length_singleton, List.range_succ]
    rfl
  · rw [List.map_append, List.nodup_append]
    refine ⟨h.keys, List.nodup_singleton _, ?_⟩
    rintro key hold _ hlast rfl
    cases List.mem_singleton.1 hlast
    obtain ⟨c, hc, hkey⟩ := List.mem_map.1 hold
    exact List.find?_eq_none.1 hnew c hc (decide_eq_true hkey)
  · intro c hc
    rcases List.mem_append.1 hc with hold | hlast
    · rw [asked_snoc_of_ne fun hlink => (hlt c hold).ne' (Link.created.inj (Option.some.inj hlink))]
      exact h.created c hold
    · cases List.mem_singleton.1 hlast
      rw [asked_snoc rfl, hnone, insert_empty_eq]
      exact isGreatest_singleton
  · intro c hc
    rcases List.mem_append.1 hc with hold | hlast
    · exact h.source c hold
    · cases List.mem_singleton.1 hlast
      exact ⟨rfl, draft, hdraft, hrow, rfl, rfl, rfl⟩

/-- **One draft.** -/
theorem Linked.linkDraft (hids : (tripItems.map (·.id)).Nodup) (h : Linked toLowerCase tripItems done st)
    (draft : DraftLine) :
    Linked toLowerCase tripItems (done ++ [draft]) (Excursion.linkDraft toLowerCase tripItems true st draft) := by
  unfold Excursion.linkDraft
  split
  · next hdraft => exact h.pushApart hdraft
  · next hdraft =>
    have hfrom := not_not.1 hdraft
    split
    · next t hrow => exact h.pushExisting hids hfrom hrow
    · next hrow =>
      rw [if_neg (by decide)]
      split
      · next pending hpending => exact h.pushPending hfrom hrow (List.mem_of_find?_eq_some hpending)
      · next hnew => exact h.pushNew hfrom hrow hnew

/-- **All drafts.** -/
theorem linked_foldl (hids : (tripItems.map (·.id)).Nodup) (drafts : List DraftLine) :
    Linked toLowerCase tripItems drafts (drafts.foldl (linkDraft toLowerCase tripItems true) ⟨[], [], []⟩) := by
  induction drafts using List.reverseRecOn with
  | nil => exact Linked.empty
  | append_singleton done draft ih =>
    rw [List.foldl_append, List.foldl_cons, List.foldl_nil]
    exact ih.linkDraft hids draft

/-! ## What the writes do -/

theorem find_id (hids : (tripItems.map (·.id)).Nodup) (ht : t ∈ tripItems) :
    tripItems.find? (·.id = t.id) = some t := by
  cases hfind : tripItems.find? (·.id = t.id) with
  | none => exact absurd (decide_eq_true rfl) (List.find?_eq_none.1 hfind t ht)
  | some t' =>
    have hid : t'.id = t.id := by simpa using List.find?_some hfind
    rw [List.inj_on_of_nodup_map hids (List.mem_of_find?_eq_some hfind) ht hid]

/-- The raise of one row. -/
def raiseOf (tripItems : List TripItem) (r : String × ℤ) : Option SuitcaseWrite :=
  (tripItems.find? (·.id = r.1)).bind fun t => if t.quantity < r.2 then some (.raise t r.2) else none

theorem eq_of_raiseOf {r : String × ℤ} {w : SuitcaseWrite} (h : raiseOf tripItems r = some w) :
    ∃ t' ∈ tripItems, t'.id = r.1 ∧ t'.quantity < r.2 ∧ w = .raise t' r.2 := by
  obtain ⟨t', hfind, hw⟩ := Option.bind_eq_some_iff.1 h
  obtain ⟨hless, hw⟩ := Option.ite_none_right_eq_some.1 hw
  exact ⟨t', List.mem_of_find?_eq_some hfind, by simpa using List.find?_some hfind, hless, (Option.some.inj hw).symm⟩

/-- The raises leave a row alone that they do not name. -/
theorem foldl_raise_of_notMem {raised : List (String × ℤ)} (h : t.id ∉ raised.map Prod.fst) (row : SuitcaseRow) :
    (raised.filterMap (raiseOf tripItems)).foldl (fun row w => w.onto t row) row = row := by
  induction raised with
  | nil => rfl
  | cons r raised ih =>
    obtain ⟨hne, hrest⟩ := not_or.1 fun hor => h (List.mem_cons.2 hor)
    rw [List.filterMap_cons]
    cases hraise : raiseOf tripItems r with
    | none => exact ih hrest
    | some w =>
      obtain ⟨t', -, hid, -, rfl⟩ := eq_of_raiseOf hraise
      simp only [List.foldl_cons, SuitcaseWrite.onto]
      rw [if_neg fun heq => hne (heq.symm.trans hid)]
      exact ih hrest

/-- The raises, one after another. -/
theorem foldl_raise (hids : (tripItems.map (·.id)).Nodup) (ht : t ∈ tripItems) {raised : List (String × ℤ)}
    (hkeys : (raised.map Prod.fst).Nodup) : (raised.filterMap (raiseOf tripItems)).foldl (fun row w => w.onto t row)
      t.toSuitcaseRow = { t.toSuitcaseRow with quantity := max t.quantity ((raised.lookup t.id).getD t.quantity) } := by
  induction raised with
  | nil => simp
  | cons r raised ih =>
    obtain ⟨hnew, hkeys⟩ := List.nodup_cons.1 hkeys
    rw [List.filterMap_cons, List.lookup_cons]
    by_cases hid : t.id = r.1
    · have hrest := hid ▸ hnew
      have hbeq : (t.id == r.1) = true := beq_iff_eq.2 hid
      have hraise : raiseOf tripItems r = if t.quantity < r.2 then some (.raise t r.2) else none := by
        rw [raiseOf, ← hid, find_id hids ht, Option.bind_some]
      simp only [hraise, hbeq]
      by_cases hless : t.quantity < r.2
      · rw [if_pos hless]
        have honto : (SuitcaseWrite.raise t r.2).onto t t.toSuitcaseRow = { t.toSuitcaseRow with quantity := r.2 } :=
          if_pos rfl
        rw [List.foldl_cons, honto, foldl_raise_of_notMem hrest]
        simp [max_eq_right hless.le]
      · rw [if_neg hless, foldl_raise_of_notMem hrest]
        simp [max_eq_left (not_lt.1 hless)]
    · have hbeq : (t.id == r.1) = false := beq_eq_false_iff_ne.2 hid
      simp only [hbeq]
      rw [← ih hkeys]
      cases hraise : raiseOf tripItems r with
      | none => rfl
      | some w =>
        obtain ⟨t', -, hid', -, rfl⟩ := eq_of_raiseOf hraise
        simp only [List.foldl_cons, SuitcaseWrite.onto]
        rw [if_neg fun heq => hid (heq.symm.trans hid')]

/-- The plan of what the drafts were linked to. -/
def planOf (tripItems : List TripItem) (st : Linking) : LinkPlan where
  lines := st.lines
  suitcase := st.created.map (fun c => .create c.ref c.fields c.travelerId) ++ st.raised.filterMap (raiseOf tripItems)

theorem planLinks_eq (drafts : List DraftLine) (suitcaseOpen : Bool) :
    planLinks toLowerCase drafts tripItems suitcaseOpen =
      planOf tripItems (drafts.foldl (linkDraft toLowerCase tripItems suitcaseOpen) ⟨[], [], []⟩) :=
  rfl

theorem mem_create {ref : ℕ} {fields : GeneratedTripItemFields} {travelerId : Option String} :
    .create ref fields travelerId ∈ (planOf tripItems st).suitcase ↔
      ∃ c ∈ st.created, c.ref = ref ∧ c.fields = fields ∧ c.travelerId = travelerId := by
  simp only [planOf, List.mem_append, List.mem_map, List.mem_filterMap]
  constructor
  · rintro (⟨c, hc, heq⟩ | ⟨r, -, hraise⟩)
    · cases heq
      exact ⟨c, hc, rfl, rfl, rfl⟩
    · obtain ⟨t', -, -, -, hw⟩ := eq_of_raiseOf hraise
      cases hw
  · rintro ⟨c, hc, rfl, rfl, rfl⟩
    exact .inl ⟨c, hc, rfl⟩

/-- The creations leave every row alone. -/
theorem foldl_create (created : List Creation) (row : SuitcaseRow) :
    (created.map fun c => SuitcaseWrite.create c.ref c.fields c.travelerId).foldl (fun row w => w.onto t row) row =
      row := by
  induction created with
  | nil => rfl
  | cons c created ih => exact ih

theorem Linked.afterRow_eq (hids : (tripItems.map (·.id)).Nodup) (h : Linked toLowerCase tripItems done st)
    (ht : t ∈ tripItems) : (planOf tripItems st).afterRow t =
      { t.toSuitcaseRow with quantity := max t.quantity ((st.raised.lookup t.id).getD t.quantity) } := by
  rw [LinkPlan.afterRow, planOf, List.foldl_append, foldl_create, foldl_raise hids ht h.keysRaised]

/-- The thing of a row that is created is nowhere in the suitcase, as far as the draft looks for it. -/
theorem not_sameThing_of_none (h : suitcaseRowFor toLowerCase draft tripItems = none) (ht : t ∈ tripItems)
    (hsame : sameThing toLowerCase t.toSuitcaseRow draft.sourceItemId draft.name) :
    draft.assignedTravelerId ≠ none ∧ t.assignedTravelerId ≠ draft.assignedTravelerId := by
  have hmem : t ∈ tripItems.filter fun t => sameThing toLowerCase t.toSuitcaseRow draft.sourceItemId draft.name :=
    List.mem_filter.2 ⟨ht, hsame⟩
  unfold suitcaseRowFor at h
  split at h
  · next person hperson =>
    rw [hperson]
    exact ⟨by simp, fun hsamePerson => List.find?_eq_none.1 h t hmem (decide_eq_true hsamePerson)⟩
  · rw [Option.or_eq_none_iff, List.head?_eq_none_iff] at h
    rw [h.2] at hmem
    cases hmem

/-- **The suitcase while it is open.** -/
theorem Linked.borrowed (hids : (tripItems.map (·.id)).Nodup) (h : Linked toLowerCase tripItems done st) :
    Borrowed toLowerCase done tripItems (planOf tripItems st) := by
  have hold : ∀ t ∈ tripItems, t.state ≠ .skipped → t.quantity ≤ (st.raised.lookup t.id).getD t.quantity :=
    fun t ht hstate => (h.raised t ht hstate).2 (Set.mem_insert _ _)
  refine
    { drafts := h.drafts
      apart := h.apart
      linked := ?_
      raised := ?_
      untouched := ?_
      created := ?_
      once := ?_ }
  · intro p hp hfrom
    cases hrow : suitcaseRowFor toLowerCase p.draft tripItems with
    | some t =>
      have ht := mem_of_suitcaseRowFor hrow
      obtain ⟨hlink, hnot⟩ := h.existing p hp hfrom t hrow
      refine ⟨.existing t.id, _, hlink, .inl ⟨t, ht, rfl, rfl⟩, ?_, ?_⟩
      · rw [h.afterRow_eq hids ht]
        exact hnot
      · rw [h.afterRow_eq hids ht]
        intro hstate
        exact ((h.raised t ht hstate).2 (Set.mem_insert_of_mem _ ⟨p, hp, hlink, rfl⟩)).trans (le_max_right _ _)
    | none =>
      obtain ⟨hnot, c, hc, hlink⟩ := h.missing p hp hfrom hrow
      have hcreate : .create c.ref c.fields c.travelerId ∈ (planOf tripItems st).suitcase :=
        mem_create.2 ⟨c, hc, rfl, rfl, rfl⟩
      refine ⟨.created c.ref, _, hlink, .inr ⟨c.ref, c.fields, c.travelerId, hcreate, rfl, rfl⟩, ?_,
        fun _ => (h.created c hc).2 ⟨p, hp, hlink, rfl⟩⟩
      rw [hnot]
      simp [createdRow]
  · intro t ht hstate
    rw [h.afterRow_eq hids ht]
    refine ⟨rfl, ?_⟩
    show IsGreatest _ (max _ _)
    rw [max_eq_right (hold t ht hstate)]
    exact h.raised t ht hstate
  · intro t ht huntouched
    have hsame : max t.quantity ((st.raised.lookup t.id).getD t.quantity) = t.quantity := by
      by_cases hstate : t.state = .skipped
      · rw [h.skipped t ht hstate, Option.getD_none, max_self]
      · have hmax := h.raised t ht hstate
        have hnone : asked st.lines (.existing t.id) = ∅ := huntouched.resolve_left hstate
        rw [hnone, insert_empty_eq] at hmax
        exact max_eq_left (isGreatest_singleton.unique hmax).ge
    rw [h.afterRow_eq hids ht, hsame]
  · intro ref fields travelerId hw
    obtain ⟨c, hc, rfl, rfl, rfl⟩ := mem_create.1 hw
    refine ⟨h.created c hc, fun t ht hthing => ?_⟩
    obtain ⟨-, draft, -, hrow, hsource, hname, hperson⟩ := h.source c hc
    rw [hsource, hname] at hthing
    rw [hperson]
    exact not_sameThing_of_none hrow ht hthing
  · refine List.pairwise_append.2 ⟨?_, ?_, ?_⟩
    · have hkeys := List.pairwise_map.1 h.keys
      have hrefs : (st.created.map (·.ref)).Nodup := by
        rw [h.refs]
        exact List.nodup_range
      refine List.pairwise_map.2 (((List.pairwise_map.1 hrefs).and hkeys).imp_of_mem ?_)
      rintro c c' hc hc' ⟨href, hkey⟩ ref fields travelerId ref' fields' travelerId' hw hw'
      cases hw
      cases hw'
      refine ⟨href, fun heq => hkey ?_⟩
      obtain ⟨hsource, hperson⟩ := Prod.mk.inj heq
      obtain ⟨hkeyOf, draft, hdraft, -, hitem, -⟩ := h.source c hc
      rw [hkeyOf, (h.source c' hc').1, ← hsource, ← hperson]
      obtain ⟨id, hid⟩ := Option.ne_none_iff_exists'.1 hdraft.2
      rw [hitem, hid]
      rfl
    · refine List.pairwise_of_forall_mem_list fun w hw w' _ ref fields travelerId _ _ _ hcreate _ => ?_
      obtain ⟨r, -, hraise⟩ := List.mem_filterMap.1 hw
      obtain ⟨t', -, -, -, heq⟩ := eq_of_raiseOf hraise
      rw [hcreate] at heq
      cases heq
    · intro w _ w' hw' _ _ _ ref fields travelerId _ hcreate
      obtain ⟨r, -, hraise⟩ := List.mem_filterMap.1 hw'
      obtain ⟨t', -, -, -, heq⟩ := eq_of_raiseOf hraise
      rw [hcreate] at heq
      cases heq

/-- A draft while the suitcase is closed. -/
theorem linkDraft_closed : (linkDraft toLowerCase tripItems false st draft).raised = st.raised ∧
    (linkDraft toLowerCase tripItems false st draft).created = st.created := by
  unfold linkDraft
  split
  · exact ⟨rfl, rfl⟩
  · split <;> exact ⟨rfl, rfl⟩

theorem foldl_closed (drafts : List DraftLine) (st : Linking) :
    (drafts.foldl (linkDraft toLowerCase tripItems false) st).raised = st.raised ∧
      (drafts.foldl (linkDraft toLowerCase tripItems false) st).created = st.created := by
  induction drafts generalizing st with
  | nil => exact ⟨rfl, rfl⟩
  | cons draft drafts ih =>
    obtain ⟨hraised, hcreated⟩ := ih (linkDraft toLowerCase tripItems false st draft)
    exact ⟨hraised.trans linkDraft_closed.1, hcreated.trans linkDraft_closed.2⟩

end

/-- A water bottle in the suitcase. -/
def bottle (state : ItemState) : TripItem where
  id := "b1"
  sourceItemId := some "bottle"
  name := "Bottle"
  assignedTravelerId := some "anna"
  quantity := 1
  packedCount := 0
  state := state

/-- A draft of an inventory item. -/
def draftFor (item : String) (person : Option String) (quantity : ℤ) : DraftLine where
  sourceItemId := some item
  name := item
  categoryName := none
  assignedTravelerId := person
  quantity := quantity
  mode := .pack
  forAllParticipants := false
  weightGrams := none
  valueCents := none
  sourceTemplateId := none

/-- Two lines of a bottle that is there, and one of a lamp that is not. -/
def bottlesAndLamp : List DraftLine :=
  [draftFor "bottle" none 2, draftFor "bottle" none 3, draftFor "lamp" (some "ben") 1]

end Excursion

end JitPack
