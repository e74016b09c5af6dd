import JitPack.Lib.Grouping

/-!
# The review after a trip

The verdicts on the rows of a finished trip make proposals for the groups that the trip was packed from: a position that
was not used is set to zero, one of which too much went along is lowered, and an item that was missing is added. The
proposals are computed again from what the groups now hold, so that one which is applied is not made again.

That is so for a position that is zeroed and for an item that is added, but a position that is lowered is proposed to be
lowered again until it is one. The proposals are resumable exactly where every verdict that lowers a position lowers it
to one at once, no position is to be zeroed and lowered, and no row of an item that is to be added is unused in that
group (`Settled`, `resumable_iff`).
-/

namespace JitPack

namespace Review

/-! ## Rows, groups and proposals -/

/-- `ReviewProposalKind`. -/
inductive ReviewProposalKind where
  | unused
  | fewer
  | missing
  deriving DecidableEq

/-- `itemRef`: an item, or the lowered name of a row that has none. No id begins as the reference of a name does. -/
inductive ItemRef where
  | item (id : String)
  | name (lowered : String)
  deriving DecidableEq

/-- `dismissalKey`. A proposal to lower a position has a key of its own. -/
structure DismissalKey where
  itemRef : ItemRef
  groupId : String
  fewer : Bool
  deriving DecidableEq

def dismissalKey (itemRef : ItemRef) (groupId : String) (kind : ReviewProposalKind) : DismissalKey :=
  ⟨itemRef, groupId, kind = .fewer⟩

/-- `TripItem`, as far as the review reads it. -/
structure TripItem where
  id : String
  sourceItemId : Option String
  sourceTemplateId : Option String
  name : String
  packedCount : ℤ
  neededQuantity : Option ℤ
  flagUnused : Bool
  flagMissing : Bool

/-- `Template`. -/
structure Template where
  id : String
  name : String
  isGroup : Bool
  deriving DecidableEq

/-- `TemplateItem`. -/
structure TemplateItem where
  id : String
  templateId : String
  itemId : String
  quantity : ℤ
  deriving DecidableEq

/-- `MasterItem`. -/
structure MasterItem where
  id : String
  name : String

/-- `ReviewProposal`. -/
structure ReviewProposal where
  itemRef : ItemRef
  kind : ReviewProposalKind
  itemName : String
  itemId : Option String
  groupId : String
  groupName : String
  flagCount : ℕ
  rowIds : List String
  surplus : Option ℤ
  fromQuantity : Option ℤ
  toQuantity : Option ℤ
  deriving DecidableEq

def ReviewProposal.key (p : ReviewProposal) : DismissalKey := dismissalKey p.itemRef p.groupId p.kind

/-- `ReviewArgs`. The ids of the positions are distinct. -/
structure ReviewArgs where
  items : List TripItem
  templates : List Template
  templateItems : List TemplateItem
  masterItems : List MasterItem
  isDismissed : DismissalKey → Bool
  distinct : (templateItems.map (·.id)).Nodup

/-- `MIN_NEEDED_QUANTITY`. -/
def minNeededQuantity : ℤ := 1

/-- `lowered`. -/
def lowered (lineQuantity surplus : ℤ) : Option ℤ :=
  let result := max minNeededQuantity (lineQuantity - surplus)
  if result < lineQuantity then some result else none

section
variable (toLowerCase : String → String) (localeCompare : String → String → ℤ)
  (flaggedTripCount : String → ReviewProposalKind → ℕ)

/-- What a row says of an item in a group, as it is pushed. -/
structure Verdict where
  kind : ReviewProposalKind
  rowId : String
  itemName : String
  itemId : Option String
  group : Template
  /-- Of a position that is to be lowered: what it holds, and how much of it was too much. -/
  line : ℤ
  surplus : ℤ
  deriving DecidableEq

def Verdict.itemRef (v : Verdict) : ItemRef :=
  match v.itemId with
  | some id => .item id
  | none => .name (toLowerCase v.itemName)

def Verdict.key (v : Verdict) : DismissalKey := dismissalKey (v.itemRef toLowerCase) v.group.id v.kind

/-- The proposal that a verdict starts. -/
def Verdict.start (v : Verdict) : ReviewProposal where
  itemRef := v.itemRef toLowerCase
  kind := v.kind
  itemName := v.itemName
  itemId := v.itemId
  groupId := v.group.id
  groupName := v.group.name
  flagCount := if v.kind = .fewer then 1 else max 1 (flaggedTripCount v.itemName v.kind)
  rowIds := [v.rowId]
  surplus := if v.kind = .fewer then some v.surplus else none
  fromQuantity := if v.kind = .fewer then some v.line else none
  toQuantity := if v.kind = .fewer then lowered v.line v.surplus else none

/-- A proposal with one verdict more. -/
def Verdict.more (p : ReviewProposal) (v : Verdict) : ReviewProposal :=
  if v.kind = .fewer then
    let surplus := min (p.surplus.getD v.surplus) v.surplus
    { p with
      rowIds := p.rowIds ++ [v.rowId]
      surplus := some surplus
      fromQuantity := some v.line
      toQuantity := lowered v.line surplus }
  else { p with rowIds := p.rowIds ++ [v.rowId] }

/-- `push`, into the proposals by their keys. -/
def push (isDismissed : DismissalKey → Bool) (proposals : List (DismissalKey × ReviewProposal)) (v : Verdict) :
    List (DismissalKey × ReviewProposal) :=
  if isDismissed (v.key toLowerCase) then proposals
  else Grouping.upsert (v.start toLowerCase flaggedTripCount) (Verdict.more · v) (v.key toLowerCase) proposals

/-- `groupsByID`. -/
def groupOf (templates : List Template) (id : String) : Option Template :=
  templates.find? fun t => t.isGroup ∧ t.id = id

/-- `dominantGroup`. -/
def dominantGroup (items : List TripItem) (templates : List Template) : Option Template :=
  let counts := Grouping.group id (fun _ => 1) (fun n _ => n + 1)
    (items.filterMap fun item => item.sourceTemplateId.bind (groupOf templates))
  (counts.foldl (fun (best : Option Template × ℕ) candidate =>
    if candidate.2 > best.2 ∨ candidate.2 = best.2 ∧ ∃ b ∈ best.1, localeCompare candidate.1.name b.name < 0 then
      (some candidate.1, candidate.2)
    else best) (none, 0)).1

/-- The position of an item in a group. -/
def ReviewArgs.position (args : ReviewArgs) (groupId itemId : String) : Option TemplateItem :=
  (args.templateItems.filter (·.templateId = groupId)).find? (·.itemId = itemId)

/-- `sourcePosition`. -/
def sourcePosition (args : ReviewArgs) (item : TripItem) : Option (Template × TemplateItem) :=
  item.sourceTemplateId.bind fun templateId => (groupOf args.templates templateId).bind fun group =>
    item.sourceItemId.bind fun itemId => (args.position group.id itemId).map (group, ·)

/-- A row that was not used, if its position is not zero. -/
def unusedOf (args : ReviewArgs) (item : TripItem) : Option Verdict :=
  if ! item.flagUnused then none
  else
    match sourcePosition args item with
    | none => none
    | some (group, position) =>
      if position.quantity = 0 then none
      else some ⟨.unused, item.id, item.name, item.sourceItemId, group, 0, 0⟩

/-- A row of which too much went along, if that lowers its position. -/
def fewerOf (args : ReviewArgs) (item : TripItem) : Option Verdict :=
  match item.neededQuantity with
  | none => none
  | some needed =>
    if item.packedCount ≤ needed then none
    else
      match sourcePosition args item with
      | none => none
      | some (group, position) =>
        let surplus := item.packedCount - needed
        if lowered position.quantity surplus = none then none
        else some ⟨.fewer, item.id, item.name, item.sourceItemId, group, position.quantity, surplus⟩

/-- The inventory item of a row, by its name if need be. -/
def itemIdOf (args : ReviewArgs) (item : TripItem) : Option String :=
  item.sourceItemId.or
    ((args.masterItems.find? fun m => toLowerCase m.name = toLowerCase item.name).map (·.id))

/-- A row that was missing, if the group does not hold it. -/
def missingOf (args : ReviewArgs) (dominant : Template) (item : TripItem) : Option Verdict :=
  if ! item.flagMissing then none
  else if (sourcePosition args item).isSome then none
  else
    let itemId := itemIdOf toLowerCase args item
    if ∃ id ∈ itemId, (args.position dominant.id id).isSome then none
    else some ⟨.missing, item.id, item.name, itemId, dominant, 0, 0⟩

/-- One of the loops. -/
def judge (args : ReviewArgs) (verdictOf : TripItem → Option Verdict)
    (proposals : List (DismissalKey × ReviewProposal)) : List (DismissalKey × ReviewProposal) :=
  args.items.foldl (fun proposals item =>
    match verdictOf item with
    | none => proposals
    | some v => push toLowerCase flaggedTripCount args.isDismissed proposals v) proposals

/-- `buildReviewProposals`. -/
def buildReviewProposals (args : ReviewArgs) : List ReviewProposal :=
  let proposals := judge toLowerCase flaggedTripCount args (unusedOf args) []
  let proposals := judge toLowerCase flaggedTripCount args (fewerOf args) proposals
  let proposals :=
    match dominantGroup localeCompare args.items args.templates with
    | none => proposals
    | some dominant => judge toLowerCase flaggedTripCount args (missingOf toLowerCase args dominant) proposals
  proposals.map (·.2)

/-! ## Applying and dismissing -/

/-- `updateTemplateItem`, of the quantity. -/
def ReviewArgs.setQuantity (args : ReviewArgs) (target : TemplateItem) (quantity : ℤ) : ReviewArgs where
  items := args.items
  templates := args.templates
  templateItems := args.templateItems.map fun ti => if ti.id = target.id then { ti with quantity := quantity } else ti
  masterItems := args.masterItems
  isDismissed := args.isDismissed
  distinct := by
    rw [List.map_map]
    refine (List.map_congr_left fun ti _ => ?_) ▸ args.distinct
    simp only [Function.comp]
    split <;> rfl

/-- The ids of what an application creates. -/
structure Fresh (args : ReviewArgs) where
  positionId : String
  itemId : String
  position_new : positionId ∉ args.templateItems.map (·.id)
  item_new : ∀ ti ∈ args.templateItems, ti.itemId ≠ itemId
  item_unnamed : ∀ item ∈ args.items, item.sourceItemId ≠ some itemId
  item_unlisted : ∀ m ∈ args.masterItems, m.id ≠ itemId

/-- `createMasterItem` where the item is new, and `addTemplateItem`. -/
def ReviewArgs.add (args : ReviewArgs) (p : ReviewProposal) (new : Fresh args) : ReviewArgs where
  items := args.items
  templates := args.templates
  templateItems := args.templateItems ++ [⟨new.positionId, p.groupId, p.itemId.getD new.itemId, 1⟩]
  masterItems := if p.itemId.isSome then args.masterItems else args.masterItems ++ [⟨new.itemId, p.itemName⟩]
  isDismissed := args.isDismissed
  distinct := by
    rw [List.map_append, List.nodup_append]
    refine ⟨args.distinct, List.nodup_singleton _, ?_⟩
    intro id hid last hlast heq
    have hid' : id = new.positionId := heq.trans (List.mem_singleton.1 hlast)
    exact new.position_new (hid' ▸ hid)

/-- `fewerQuantities`: what the line becomes. -/
def fewerQuantities (args : ReviewArgs) (p : ReviewProposal) (groupId : String) : Option (ℤ × ℤ) :=
  p.surplus.bind fun surplus => p.itemId.bind fun itemId => (args.position groupId itemId).bind fun line =>
    (lowered line.quantity surplus).map (line.quantity, ·)

/-- `applyReviewProposal`, to the group of the proposal. -/
def ReviewArgs.apply (args : ReviewArgs) (p : ReviewProposal) (new : Fresh args) : ReviewArgs :=
  match p.kind with
  | .unused =>
    match p.itemId.bind (args.position p.groupId) with
    | some target => args.setQuantity target 0
    | none => args
  | .fewer =>
    match fewerQuantities args p p.groupId, p.itemId.bind (args.position p.groupId) with
    | some (_, toQuantity), some target => args.setQuantity target toQuantity
    | _, _ => args
  | .missing => args.add p new

/-- A proposal that is never to be made again. -/
def ReviewArgs.dismiss (args : ReviewArgs) (p : ReviewProposal) : ReviewArgs :=
  { args with isDismissed := fun key => key = p.key || args.isDismissed key }

end

/-! ## The proposals as a map -/

section
variable {toLowerCase : String → String} {localeCompare : String → String → ℤ}
  {flaggedTripCount : String → ReviewProposalKind → ℕ} {args args' : ReviewArgs} {p : ReviewProposal} {v : Verdict}
  {vs : List Verdict} {item : TripItem} {group : Template} {ti target : TemplateItem} {key : DismissalKey}

variable (toLowerCase localeCompare) in
/-- The verdicts that are pushed, in their order. -/
def verdicts (args : ReviewArgs) : List Verdict :=
  args.items.filterMap (unusedOf args) ++ args.items.filterMap (fewerOf args) ++
    match dominantGroup localeCompare args.items args.templates with
    | none => []
    | some dominant => args.items.filterMap (missingOf toLowerCase args dominant)

variable (toLowerCase localeCompare) in
/-- Those of them that are not dismissed. -/
def asked (args : ReviewArgs) : List Verdict :=
  (verdicts toLowerCase localeCompare args).filter fun v => ! args.isDismissed (v.key toLowerCase)

variable (toLowerCase localeCompare flaggedTripCount) in
/-- The proposals by their keys. -/
def proposalsByKey (args : ReviewArgs) : List (DismissalKey × ReviewProposal) :=
  Grouping.group (Verdict.key toLowerCase) (Verdict.start toLowerCase flaggedTripCount) Verdict.more
    (asked toLowerCase localeCompare args)

theorem judge_eq (verdictOf : TripItem → Option Verdict) (proposals : List (DismissalKey × ReviewProposal)) :
    judge toLowerCase flaggedTripCount args verdictOf proposals =
      ((args.items.filterMap verdictOf).filter fun v => ! args.isDismissed (v.key toLowerCase)).foldl (fun m v =>
        Grouping.upsert (v.start toLowerCase flaggedTripCount) (Verdict.more · v) (v.key toLowerCase) m) proposals := by
  unfold judge
  induction args.items generalizing proposals with
  | nil => rfl
  | cons item items ih =>
    rw [List.foldl_cons, ih, List.filterMap_cons]
    cases verdictOf item with
    | none => rfl
    | some v =>
      simp only [push]
      cases hdismissed : args.isDismissed (v.key toLowerCase) <;> simp [hdismissed]

/-- **The proposals are the verdicts by their keys.** -/
theorem buildReviewProposals_eq (args : ReviewArgs) :
    buildReviewProposals toLowerCase localeCompare flaggedTripCount args =
      (proposalsByKey toLowerCase localeCompare flaggedTripCount args).map (·.2) := by
  unfold buildReviewProposals proposalsByKey asked verdicts Grouping.group
  cases dominantGroup localeCompare args.items args.templates <;>
    simp only [judge_eq, List.append_nil, List.filter_append, List.foldl_append]

/-- What a proposal takes from the verdicts of its key. -/
structure Made (toLowerCase : String → String) (p : ReviewProposal) (vs : List Verdict) : Prop where
  source : ∃ v ∈ vs, p.itemRef = v.itemRef toLowerCase ∧ p.kind = v.kind ∧ p.itemName = v.itemName ∧
    p.itemId = v.itemId ∧ p.groupId = v.group.id
  surplus : p.kind = .fewer → ∃ v ∈ vs, p.surplus = some v.surplus ∧ ∀ v' ∈ vs, v.surplus ≤ v'.surplus

theorem Made.key_eq (h : Made toLowerCase p vs) (hvs : ∀ v ∈ vs, v.key toLowerCase = key) : p.key = key := by
  obtain ⟨v, hv, href, hkind, -, -, hgroup⟩ := h.source
  rw [← hvs v hv, ReviewProposal.key, Verdict.key, href, hkind, hgroup]

theorem Made.more (h : Made toLowerCase p vs) (hkey : p.key = v.key toLowerCase) :
    Made toLowerCase (Verdict.more p v) (vs ++ [v]) := by
  have hfewer : p.kind = .fewer ↔ v.kind = .fewer := by
    have hflag := congrArg DismissalKey.fewer hkey
    simpa [ReviewProposal.key, Verdict.key, dismissalKey] using hflag
  obtain ⟨v₀, hv₀, hsource⟩ := h.source
  unfold Verdict.more
  split
  · next hv =>
    refine ⟨⟨v₀, List.mem_append_left _ hv₀, hsource⟩, fun _ => ?_⟩
    obtain ⟨v₁, hv₁, hsurplus, hle⟩ := h.surplus (hfewer.2 hv)
    simp only [hsurplus, Option.getD_some]
    rcases le_total v₁.surplus v.surplus with hless | hless
    · refine ⟨v₁, List.mem_append_left _ hv₁, by rw [min_eq_left hless], fun v' hv' => ?_⟩
      rcases List.mem_append.1 hv' with hold | hnew
      · exact hle v' hold
      · exact (List.mem_singleton.1 hnew) ▸ hless
    · refine ⟨v, List.mem_append_right _ (List.mem_singleton_self v), by rw [min_eq_right hless], fun v' hv' => ?_⟩
      rcases List.mem_append.1 hv' with hold | hnew
      · exact hless.trans (hle v' hold)
      · exact (List.mem_singleton.1 hnew) ▸ le_rfl
  · next hv =>
    exact ⟨⟨v₀, List.mem_append_left _ hv₀, hsource⟩, fun hkind => absurd (hfewer.1 hkind) hv⟩

theorem made_start (v : Verdict) : Made toLowerCase (v.start toLowerCase flaggedTripCount) [v] := by
  refine ⟨⟨v, List.mem_singleton_self v, rfl, rfl, rfl, rfl, rfl⟩, fun hkind => ?_⟩
  refine ⟨v, List.mem_singleton_self v, if_pos hkind, fun v' hv' => ?_⟩
  rw [List.mem_singleton.1 hv']

theorem made_of_gather (hvs : ∀ v ∈ vs, v.key toLowerCase = key)
    (h : Grouping.gather (Verdict.start toLowerCase flaggedTripCount) Verdict.more vs = some p) :
    Made toLowerCase p vs := by
  induction vs using List.reverseRecOn generalizing p with
  | nil => cases h
  | append_singleton vs v ih =>
    have hold : ∀ v ∈ vs, v.key toLowerCase = key := fun v hv => hvs v (List.mem_append_left _ hv)
    rw [Grouping.gather_append_singleton] at h
    cases hgather : Grouping.gather (Verdict.start toLowerCase flaggedTripCount) Verdict.more vs with
    | none =>
      rw [hgather] at h
      rw [Grouping.gather_eq_none.1 hgather, ← Option.some.inj h]
      exact made_start v
    | some p₀ =>
      rw [hgather] at h
      rw [← Option.some.inj h]
      have hmade := ih hold hgather
      refine hmade.more ((hmade.key_eq hold).trans (hvs v ?_).symm)
      exact List.mem_append_right _ (List.mem_singleton_self v)

/-- A proposal is made of the verdicts of its key. -/
theorem made_of_mem (h : (key, p) ∈ proposalsByKey toLowerCase localeCompare flaggedTripCount args) : p.key = key ∧
    Made toLowerCase p ((asked toLowerCase localeCompare args).filter (·.key toLowerCase = key)) := by
  have hkey : ∀ v ∈ (asked toLowerCase localeCompare args).filter (·.key toLowerCase = key), v.key toLowerCase = key :=
    fun v hv => of_decide_eq_true (List.mem_filter.1 hv).2
  have hmade := made_of_gather hkey (Grouping.mem_group.1 h)
  exact ⟨hmade.key_eq hkey, hmade⟩

theorem mem_buildReviewProposals : p ∈ buildReviewProposals toLowerCase localeCompare flaggedTripCount args ↔
    (p.key, p) ∈ proposalsByKey toLowerCase localeCompare flaggedTripCount args := by
  rw [buildReviewProposals_eq, List.mem_map]
  constructor
  · rintro ⟨⟨key, p⟩, hmem, rfl⟩
    rwa [(made_of_mem hmem).1]
  · exact fun h => ⟨_, h, rfl⟩

/-- The keys of the proposals are those of the verdicts. -/
theorem exists_proposal_iff :
    (∃ p ∈ buildReviewProposals toLowerCase localeCompare flaggedTripCount args, p.key = key) ↔
      ∃ v ∈ asked toLowerCase localeCompare args, v.key toLowerCase = key := by
  have hkeys : key ∈ (proposalsByKey toLowerCase localeCompare flaggedTripCount args).map Prod.fst ↔
      ∃ v ∈ asked toLowerCase localeCompare args, v.key toLowerCase = key := by
    rw [proposalsByKey, Grouping.keys_group, Insertion.mem_ofList, List.mem_map]
  rw [← hkeys, List.mem_map]
  constructor
  · rintro ⟨p, hp, rfl⟩
    exact ⟨_, mem_buildReviewProposals.1 hp, rfl⟩
  · rintro ⟨⟨key, p⟩, hmem, rfl⟩
    have hkey := (made_of_mem hmem).1
    exact ⟨p, mem_buildReviewProposals.2 (hkey ▸ hmem), hkey⟩

/-- The proposals without those of a key. -/
theorem filter_buildReviewProposals (hp : p ∈ buildReviewProposals toLowerCase localeCompare flaggedTripCount args) :
    (buildReviewProposals toLowerCase localeCompare flaggedTripCount args).filter (· ≠ p) =
      ((proposalsByKey toLowerCase localeCompare flaggedTripCount args).filter (·.1 ≠ p.key)).map (·.2) := by
  rw [buildReviewProposals_eq, List.filter_map]
  refine congrArg (List.map _) (List.filter_congr fun e he => ?_)
  have hnodup : ((proposalsByKey toLowerCase localeCompare flaggedTripCount args).map Prod.fst).Nodup :=
    Grouping.nodup_keys_group _
  have hiff : e.2 = p ↔ e.1 = p.key := by
    constructor
    · rintro rfl
      exact (made_of_mem he).1.symm
    · intro hkey
      exact congrArg Prod.snd (List.inj_on_of_nodup_map hnodup he (mem_buildReviewProposals.1 hp) hkey)
  simp [hiff]

/-- The verdicts of one key less are the proposal of that key less. -/
theorem build_of_asked (hp : p ∈ buildReviewProposals toLowerCase localeCompare flaggedTripCount args)
    (h : asked toLowerCase localeCompare args' =
      (asked toLowerCase localeCompare args).filter (·.key toLowerCase ≠ p.key)) :
    buildReviewProposals toLowerCase localeCompare flaggedTripCount args' =
      (buildReviewProposals toLowerCase localeCompare flaggedTripCount args).filter (· ≠ p) := by
  rw [filter_buildReviewProposals hp, buildReviewProposals_eq, proposalsByKey, h, Grouping.group_filter_ne]
  rfl

/-! ## One verdict less -/

variable (toLowerCase) in
/-- What a row says, but for the verdicts of a key and those that are dismissed. -/
def Keeps (isDismissed : DismissalKey → Bool) (key : DismissalKey) (said' said : Option Verdict) : Prop :=
  said'.filter (fun v => ! isDismissed (v.key toLowerCase)) =
    said.filter fun v => (! isDismissed (v.key toLowerCase)) ∧ v.key toLowerCase ≠ key

section
variable {isDismissed : DismissalKey → Bool} {said said' : Option Verdict}

theorem keeps_same (h : said' = said) (hne : ∀ v, said = some v → v.key toLowerCase ≠ key) :
    Keeps toLowerCase isDismissed key said' said := by
  rw [h]
  cases said with
  | none => rfl
  | some v => simp [Keeps, Option.filter, hne v rfl]

theorem keeps_gone (h : said' = none)
    (hgone : ∀ v, said = some v → isDismissed (v.key toLowerCase) = true ∨ v.key toLowerCase = key) :
    Keeps toLowerCase isDismissed key said' said := by
  rw [h]
  cases said with
  | none => rfl
  | some v =>
    rcases hgone v rfl with hdismissed | hkey
    · simp [Keeps, Option.filter, hdismissed]
    · simp [Keeps, Option.filter, hkey]

end

theorem asked_of_keeps (hitems : args'.items = args.items) (htemplates : args'.templates = args.templates)
    (hdismissed : args'.isDismissed = args.isDismissed)
    (hunused : ∀ item ∈ args.items, Keeps toLowerCase args.isDismissed key (unusedOf args' item) (unusedOf args item))
    (hfewer : ∀ item ∈ args.items, Keeps toLowerCase args.isDismissed key (fewerOf args' item) (fewerOf args item))
    (hmissing : ∀ dominant, dominantGroup localeCompare args.items args.templates = some dominant →
      ∀ item ∈ args.items, Keeps toLowerCase args.isDismissed key (missingOf toLowerCase args' dominant item)
        (missingOf toLowerCase args dominant item)) :
    asked toLowerCase localeCompare args' =
      (asked toLowerCase localeCompare args).filter (·.key toLowerCase ≠ key) := by
  have hpart : ∀ f f' : TripItem → Option Verdict,
      (∀ item ∈ args.items, Keeps toLowerCase args.isDismissed key (f' item) (f item)) →
      (args.items.filterMap f').filter (fun v => ! args.isDismissed (v.key toLowerCase)) =
        (args.items.filterMap f).filter fun v =>
          (! args.isDismissed (v.key toLowerCase)) ∧ v.key toLowerCase ≠ key := by
    intro f f' h
    rw [List.filter_filterMap, List.filter_filterMap]
    exact List.filterMap_congr h
  unfold asked verdicts
  rw [hitems, htemplates, hdismissed, List.filter_filter]
  have hboth : ∀ v : Verdict, ((decide (v.key toLowerCase ≠ key) && ! args.isDismissed (v.key toLowerCase)) =
      decide ((! args.isDismissed (v.key toLowerCase)) = true ∧ v.key toLowerCase ≠ key)) := by
    intro v
    cases args.isDismissed (v.key toLowerCase) <;> simp
  simp only [hboth, List.filter_append]
  rw [hpart _ _ hunused, hpart _ _ hfewer]
  cases hdominant : dominantGroup localeCompare args.items args.templates with
  | none => rfl
  | some dominant => exact congrArg _ (hpart _ _ (hmissing dominant hdominant))

/-- **A proposal that is dismissed is not made again.** -/
theorem build_dismiss (hp : p ∈ buildReviewProposals toLowerCase localeCompare flaggedTripCount args) :
    buildReviewProposals toLowerCase localeCompare flaggedTripCount (args.dismiss p) =
      (buildReviewProposals toLowerCase localeCompare flaggedTripCount args).filter (· ≠ p) := by
  refine build_of_asked hp ?_
  show (verdicts toLowerCase localeCompare args).filter _ =
    ((verdicts toLowerCase localeCompare args).filter _).filter _
  rw [List.filter_filter]
  refine List.filter_congr fun v _ => ?_
  simp [ReviewArgs.dismiss]

/-! ## What an application does to the positions -/

theorem of_position {groupId itemId : String} (h : args.position groupId itemId = some ti) :
    ti ∈ args.templateItems ∧ ti.templateId = groupId ∧ ti.itemId = itemId := by
  have hitem := List.find?_some h
  obtain ⟨hmem, hgroup⟩ := List.mem_filter.1 (List.mem_of_find?_eq_some h)
  exact ⟨hmem, of_decide_eq_true hgroup, of_decide_eq_true hitem⟩

theorem of_sourcePosition (h : sourcePosition args item = some (group, ti)) :
    item.sourceTemplateId.bind (groupOf args.templates) = some group ∧ item.sourceItemId = some ti.itemId ∧
      args.position group.id ti.itemId = some ti ∧ ti ∈ args.templateItems ∧ ti.templateId = group.id := by
  obtain ⟨templateId, htemplate, h⟩ := Option.bind_eq_some_iff.1 h
  obtain ⟨group', hgroup, h⟩ := Option.bind_eq_some_iff.1 h
  obtain ⟨itemId, hitem, h⟩ := Option.bind_eq_some_iff.1 h
  obtain ⟨ti', hti, heq⟩ := Option.map_eq_some_iff.1 h
  cases heq
  obtain ⟨hmem, hid, rfl⟩ := of_position hti
  exact ⟨by rw [htemplate, Option.bind_some, hgroup], hitem, hti, hmem, hid⟩

/-- A position with the quantity of the target set. -/
def TemplateItem.updated (target : TemplateItem) (quantity : ℤ) (ti : TemplateItem) : TemplateItem :=
  if ti.id = target.id then { ti with quantity := quantity } else ti

theorem position_setQuantity (target : TemplateItem) (quantity : ℤ) (groupId itemId : String) :
    (args.setQuantity target quantity).position groupId itemId =
      (args.position groupId itemId).map (target.updated quantity) := by
  have hsame : ∀ ti : TemplateItem, (target.updated quantity ti).templateId = ti.templateId ∧
      (target.updated quantity ti).itemId = ti.itemId := by
    intro ti
    unfold TemplateItem.updated
    split <;> exact ⟨rfl, rfl⟩
  show (((args.templateItems.map (target.updated quantity)).filter _).find? _) = _
  rw [List.filter_map, List.find?_map]
  simp only [Function.comp_def, (hsame _).1, (hsame _).2]
  rfl

theorem sourcePosition_setQuantity (target : TemplateItem) (quantity : ℤ) (item : TripItem) :
    sourcePosition (args.setQuantity target quantity) item =
      (sourcePosition args item).map fun source => (source.1, target.updated quantity source.2) := by
  unfold sourcePosition
  cases item.sourceTemplateId with
  | none => rfl
  | some templateId =>
    cases item.sourceItemId with
    | none => cases groupOf args.templates templateId <;> simp [ReviewArgs.setQuantity]
    | some itemId =>
      cases hgroup : groupOf args.templates templateId with
      | none => simp [ReviewArgs.setQuantity, hgroup]
      | some group =>
        have hgroup' : groupOf (args.setQuantity target quantity).templates templateId = some group := hgroup
        simp [hgroup, hgroup', position_setQuantity, Function.comp_def]

theorem updated_of_ne {quantity : ℤ} (hti : ti ∈ args.templateItems) (htarget : target ∈ args.templateItems)
    (hne : ti ≠ target) : target.updated quantity ti = ti :=
  if_neg fun hid => hne (List.inj_on_of_nodup_map args.distinct hti htarget hid)

/-! ## The verdicts of a row -/

theorem of_unusedOf (h : unusedOf args item = some v) : ∃ group ti, sourcePosition args item = some (group, ti) ∧
    item.flagUnused = true ∧ ti.quantity ≠ 0 ∧ v.kind = .unused ∧ v.itemId = some ti.itemId ∧ v.group = group := by
  unfold unusedOf at h
  split at h
  · cases h
  · next hflag =>
    split at h
    · cases h
    · next group ti hsource =>
      obtain ⟨-, hitem, -⟩ := of_sourcePosition hsource
      split at h
      · cases h
      · next hquantity =>
        cases h
        exact ⟨group, ti, hsource, by simpa using hflag, hquantity, rfl, hitem, rfl⟩

theorem of_fewerOf (h : fewerOf args item = some v) : ∃ group ti, sourcePosition args item = some (group, ti) ∧
    v.line = ti.quantity ∧ 0 < v.surplus ∧ lowered ti.quantity v.surplus ≠ none ∧ v.kind = .fewer ∧
    v.itemId = some ti.itemId ∧ v.group = group := by
  unfold fewerOf at h
  split at h
  · cases h
  · split at h
    · cases h
    · next hless =>
      split at h
      · cases h
      · next group ti hsource =>
        obtain ⟨-, hitem, -⟩ := of_sourcePosition hsource
        dsimp only at h
        split at h
        · cases h
        · next hlowered =>
          cases h
          exact ⟨group, ti, hsource, rfl, by dsimp only; omega, hlowered, rfl, hitem, rfl⟩

theorem of_missingOf {dominant : Template} (h : missingOf toLowerCase args dominant item = some v) :
    item.flagMissing = true ∧ sourcePosition args item = none ∧ v.kind = .missing ∧ v.itemName = item.name ∧
      v.itemId = itemIdOf toLowerCase args item ∧ v.group = dominant ∧
      ∀ id, v.itemId = some id → args.position dominant.id id = none := by
  unfold missingOf at h
  split at h
  · cases h
  · next hflag =>
    split at h
    · cases h
    · next hsource =>
      dsimp only at h
      split at h
      · cases h
      · next hcontained =>
        cases h
        refine ⟨by simpa using hflag, by simpa using hsource, rfl, rfl, rfl, rfl, fun id hid => ?_⟩
        by_contra hposition
        exact hcontained ⟨id, hid, Option.isSome_iff_ne_none.2 hposition⟩

/-- The key of a verdict on a position. -/
theorem key_of_item {x : String} (hitem : v.itemId = some x) :
    v.key toLowerCase = ⟨.item x, v.group.id, v.kind = .fewer⟩ := by
  simp [Verdict.key, Verdict.itemRef, hitem, dismissalKey]

theorem of_asked (h : v ∈ asked toLowerCase localeCompare args) : args.isDismissed (v.key toLowerCase) = false ∧
    ((∃ item ∈ args.items, unusedOf args item = some v) ∨ (∃ item ∈ args.items, fewerOf args item = some v) ∨
      ∃ dominant, dominantGroup localeCompare args.items args.templates = some dominant ∧
        ∃ item ∈ args.items, missingOf toLowerCase args dominant item = some v) := by
  obtain ⟨hmem, hopen⟩ := List.mem_filter.1 h
  refine ⟨by simpa using hopen, ?_⟩
  rcases List.mem_append.1 hmem with hmem | hmissing
  · rcases List.mem_append.1 hmem with hunused | hfewer
    · exact .inl (List.mem_filterMap.1 hunused)
    · exact .inr (.inl (List.mem_filterMap.1 hfewer))
  · cases hdominant : dominantGroup localeCompare args.items args.templates with
    | none =>
      rw [hdominant] at hmissing
      cases hmissing
    | some dominant =>
      rw [hdominant] at hmissing
      exact .inr (.inr ⟨dominant, rfl, List.mem_filterMap.1 hmissing⟩)

theorem asked_of_unusedOf (hitem : item ∈ args.items) (hv : unusedOf args item = some v)
    (hopen : args.isDismissed (v.key toLowerCase) = false) : v ∈ asked toLowerCase localeCompare args :=
  List.mem_filter.2 ⟨List.mem_append_left _ (List.mem_append_left _ (List.mem_filterMap.2 ⟨item, hitem, hv⟩)),
    by simpa using hopen⟩

theorem asked_of_fewerOf (hitem : item ∈ args.items) (hv : fewerOf args item = some v)
    (hopen : args.isDismissed (v.key toLowerCase) = false) : v ∈ asked toLowerCase localeCompare args :=
  List.mem_filter.2 ⟨List.mem_append_left _ (List.mem_append_right _ (List.mem_filterMap.2 ⟨item, hitem, hv⟩)),
    by simpa using hopen⟩

theorem asked_of_missingOf {dominant : Template}
    (hdominant : dominantGroup localeCompare args.items args.templates = some dominant) (hitem : item ∈ args.items)
    (hv : missingOf toLowerCase args dominant item = some v) (hopen : args.isDismissed (v.key toLowerCase) = false) :
    v ∈ asked toLowerCase localeCompare args := by
  refine List.mem_filter.2 ⟨List.mem_append_right _ ?_, by simpa using hopen⟩
  rw [hdominant]
  exact List.mem_filterMap.2 ⟨item, hitem, hv⟩

/-- The verdict that a proposal is from. -/
theorem exists_asked (hp : p ∈ buildReviewProposals toLowerCase localeCompare flaggedTripCount args) :
    ∃ v ∈ asked toLowerCase localeCompare args, p.key = v.key toLowerCase ∧ p.kind = v.kind ∧
      p.itemName = v.itemName ∧ p.itemId = v.itemId ∧ p.groupId = v.group.id := by
  obtain ⟨hkey, hmade⟩ := made_of_mem (mem_buildReviewProposals.1 hp)
  obtain ⟨v, hv, -, hkind, hname, hitem, hgroup⟩ := hmade.source
  obtain ⟨hv, hvkey⟩ := List.mem_filter.1 hv
  exact ⟨v, hv, (of_decide_eq_true hvkey).symm, hkind, hname, hitem, hgroup⟩

theorem missingOf_setQuantity (target : TemplateItem) (quantity : ℤ) (dominant : Template) (item : TripItem) :
    missingOf toLowerCase (args.setQuantity target quantity) dominant item =
      missingOf toLowerCase args dominant item := by
  have hitem : itemIdOf toLowerCase (args.setQuantity target quantity) item = itemIdOf toLowerCase args item := rfl
  simp only [missingOf, sourcePosition_setQuantity, position_setQuantity, Option.isSome_map, hitem]

/-- A row whose position is not the target says what it said. -/
theorem unusedOf_setQuantity_of_ne {quantity : ℤ} (htarget : target ∈ args.templateItems)
    (hne : ∀ group ti, sourcePosition args item = some (group, ti) → ti ≠ target) :
    unusedOf (args.setQuantity target quantity) item = unusedOf args item := by
  unfold unusedOf
  rw [sourcePosition_setQuantity]
  cases hsource : sourcePosition args item with
  | none => rfl
  | some source =>
    obtain ⟨group, ti⟩ := source
    rw [Option.map_some, updated_of_ne (of_sourcePosition hsource).2.2.2.1 htarget (hne group ti hsource)]

theorem fewerOf_setQuantity_of_ne {quantity : ℤ} (htarget : target ∈ args.templateItems)
    (hne : ∀ group ti, sourcePosition args item = some (group, ti) → ti ≠ target) :
    fewerOf (args.setQuantity target quantity) item = fewerOf args item := by
  unfold fewerOf
  rw [sourcePosition_setQuantity]
  cases hsource : sourcePosition args item with
  | none => rfl
  | some source =>
    obtain ⟨group, ti⟩ := source
    rw [Option.map_some, updated_of_ne (of_sourcePosition hsource).2.2.2.1 htarget (hne group ti hsource)]

theorem updated_self (target : TemplateItem) (quantity : ℤ) :
    target.updated quantity target = { target with quantity := quantity } :=
  if_pos rfl

theorem lowered_of_le {quantity surplus : ℤ} (h : quantity ≤ 1) : lowered quantity surplus = none :=
  if_neg fun hless => absurd (lt_of_le_of_lt (le_max_left _ _) hless) (not_lt.2 h)

/-- A row whose position holds one at most does not lower it. -/
theorem fewerOf_of_le (h : ∀ group ti, sourcePosition args item = some (group, ti) → ti.quantity ≤ 1) :
    fewerOf args item = none := by
  cases hv : fewerOf args item with
  | none => rfl
  | some v =>
    obtain ⟨group, ti, hsource, -, -, hlowered, -⟩ := of_fewerOf hv
    exact absurd (lowered_of_le (h group ti hsource)) hlowered

/-! ## Applying a proposal -/

variable (toLowerCase localeCompare) in
/-- The verdicts on the rows do not disturb one another. -/
structure Settled (args : ReviewArgs) : Prop where
  lowered : ∀ item ∈ args.items, ∀ v, fewerOf args item = some v → args.isDismissed (v.key toLowerCase) = false →
    v.line ≤ v.surplus + 1
  apart : ∀ item ∈ args.items, ∀ item' ∈ args.items, ∀ v v', unusedOf args item = some v →
    fewerOf args item' = some v' → args.isDismissed (v.key toLowerCase) = false →
    args.isDismissed (v'.key toLowerCase) = false → v.itemId = v'.itemId → v.group.id ≠ v'.group.id
  returned : ∀ dominant, dominantGroup localeCompare args.items args.templates = some dominant →
    ∀ item ∈ args.items, ∀ v, missingOf toLowerCase args dominant item = some v →
    args.isDismissed (v.key toLowerCase) = false → ∀ item' ∈ args.items, item'.flagUnused = true →
    ∀ x group, v.itemId = some x → item'.sourceItemId = some x →
      item'.sourceTemplateId.bind (groupOf args.templates) = some group → group.id ≠ dominant.id

/-- The key of a verdict on the position of a row. -/
theorem key_of_source (hsource : sourcePosition args item = some (group, ti)) (hitem : v.itemId = some ti.itemId)
    (hgroup : v.group = group) : v.key toLowerCase = ⟨.item ti.itemId, ti.templateId, v.kind = .fewer⟩ := by
  rw [key_of_item hitem, hgroup, (of_sourcePosition hsource).2.2.2.2]

theorem of_key_item {x groupId : String} {fewer : Bool} (h : v.key toLowerCase = ⟨.item x, groupId, fewer⟩) :
    v.itemId = some x ∧ v.group.id = groupId := by
  obtain ⟨href, hgroup, -⟩ := DismissalKey.mk.inj h
  unfold Verdict.itemRef at href
  split at href
  · next id hid => exact ⟨hid.trans (congrArg some (ItemRef.item.inj href)), hgroup⟩
  · cases href

/-- The position of an item in a group is one. -/
theorem source_unique {group' : Template} {item' : TripItem} (h : sourcePosition args item = some (group, ti))
    (h' : sourcePosition args item' = some (group', target)) (hitem : ti.itemId = target.itemId)
    (hgroup : ti.templateId = target.templateId) : ti = target := by
  obtain ⟨-, -, hti, -, hid⟩ := of_sourcePosition h
  obtain ⟨-, -, hti', -, hid'⟩ := of_sourcePosition h'
  rw [← hid, hgroup, hitem, hid', hti'] at hti
  exact (Option.some.inj hti).symm

/-- A position is set that a proposal is on. -/
theorem apply_of_position (new : Fresh args) {x : String} (hitem : p.itemId = some x)
    (htarget : args.position p.groupId x = some target) :
    (p.kind = .unused → args.apply p new = args.setQuantity target 0) ∧
      ∀ s q, p.kind = .fewer → p.surplus = some s → Review.lowered target.quantity s = some q →
        args.apply p new = args.setQuantity target q := by
  constructor
  · intro hkind
    simp [ReviewArgs.apply, hkind, hitem, htarget]
  · intro s q hkind hsurplus hlowered
    simp [ReviewArgs.apply, hkind, hitem, htarget, fewerQuantities, hsurplus, hlowered]

/-- **A position that is set to zero.** -/
theorem asked_apply_unused (h : Settled toLowerCase localeCompare args) (new : Fresh args)
    (hp : p ∈ buildReviewProposals toLowerCase localeCompare flaggedTripCount args) (hkind : p.kind = .unused) :
    asked toLowerCase localeCompare (args.apply p new) =
      (asked toLowerCase localeCompare args).filter (·.key toLowerCase ≠ p.key) := by
  obtain ⟨v, hv, hkey, hvkind, -, hitem, hgroup⟩ := exists_asked hp
  rw [hkind] at hvkind
  obtain ⟨hopen, ⟨row, hrow, hsaid⟩ | ⟨row, hrow, hsaid⟩ | ⟨dominant, -, row, hrow, hsaid⟩⟩ := of_asked hv
  · obtain ⟨group, target, hsource, -, -, -, hvitem, rfl⟩ := of_unusedOf hsaid
    obtain ⟨-, -, hposition, htarget, -⟩ := of_sourcePosition hsource
    have hpkey : p.key = ⟨.item target.itemId, target.templateId, false⟩ := by
      rw [hkey, key_of_source hsource hvitem rfl, ← hvkind]
      rfl
    rw [(apply_of_position new (hitem.trans hvitem) (hgroup ▸ hposition)).1 hkind]
    have hne : ∀ row', (¬ ∃ group, sourcePosition args row' = some (group, target)) →
        ∀ group ti, sourcePosition args row' = some (group, ti) → ti ≠ target := by
      rintro row' hnot group ti hti rfl
      exact hnot ⟨group, hti⟩
    refine asked_of_keeps rfl rfl rfl (fun row' hrow' => ?_) (fun row' hrow' => ?_) fun dominant _ row' _ => ?_
    · by_cases hat : ∃ group, sourcePosition args row' = some (group, target)
      · obtain ⟨group', hsource'⟩ := hat
        refine keeps_gone ?_ fun v' hv' => .inr ?_
        · simp [unusedOf, sourcePosition_setQuantity, hsource', updated_self]
        · obtain ⟨_, _, hsource'', -, -, hkind', hitem', rfl⟩ := of_unusedOf hv'
          obtain ⟨rfl, rfl⟩ := Prod.mk.inj (Option.some.inj (hsource'.symm.trans hsource''))
          rw [key_of_source hsource'' hitem' rfl, hkind', hpkey]
          rfl
      · refine keeps_same (unusedOf_setQuantity_of_ne htarget (hne row' hat)) fun v' hv' hkey' => ?_
        obtain ⟨group', ti, hsource', -, -, -, hitem', rfl⟩ := of_unusedOf hv'
        rw [key_of_source hsource' hitem' rfl, hpkey] at hkey'
        simp only [DismissalKey.mk.injEq, ItemRef.item.injEq] at hkey'
        exact hne row' hat _ _ hsource' (source_unique hsource' hsource hkey'.1 hkey'.2.1)
    · by_cases hat : ∃ group, sourcePosition args row' = some (group, target)
      · obtain ⟨group', hsource'⟩ := hat
        refine keeps_gone (fewerOf_of_le ?_) fun v' hv' => .inl ?_
        · rintro group'' ti' hsource''
          rw [sourcePosition_setQuantity, hsource'] at hsource''
          obtain ⟨-, rfl⟩ := Prod.mk.inj (Option.some.inj hsource'')
          rw [updated_self]
          exact zero_le_one
        · obtain ⟨_, _, hsource'', -, -, -, hkind', hitem', rfl⟩ := of_fewerOf hv'
          obtain ⟨rfl, rfl⟩ := Prod.mk.inj (Option.some.inj (hsource'.symm.trans hsource''))
          by_contra hnot
          refine h.apart row hrow row' hrow' v v' hsaid hv' hopen (by simpa using hnot) (hvitem.trans hitem'.symm) ?_
          rw [← (of_sourcePosition hsource).2.2.2.2, (of_sourcePosition hsource').2.2.2.2]
      · refine keeps_same (fewerOf_setQuantity_of_ne htarget (hne row' hat)) fun v' hv' hkey' => ?_
        obtain ⟨_, _, hsource', -, -, -, hkind', hitem', rfl⟩ := of_fewerOf hv'
        rw [key_of_source hsource' hitem' rfl, hpkey, hkind'] at hkey'
        simp at hkey'
    · refine keeps_same (missingOf_setQuantity _ _ _ _) fun v' hv' hkey' => ?_
      obtain ⟨-, -, -, -, -, rfl, hnone⟩ := of_missingOf hv'
      rw [hpkey] at hkey'
      obtain ⟨hitem', hgroup'⟩ := of_key_item hkey'
      have hposition' := hnone _ hitem'
      rw [hgroup', (of_sourcePosition hsource).2.2.2.2, hposition] at hposition'
      cases hposition'
  · obtain ⟨_, _, -, -, -, -, hkind', -⟩ := of_fewerOf hsaid
    rw [hkind'] at hvkind
    cases hvkind
  · obtain ⟨-, -, hkind', -⟩ := of_missingOf hsaid
    rw [hkind'] at hvkind
    cases hvkind

theorem one_lt_of_lowered {quantity surplus : ℤ} (h : lowered quantity surplus ≠ none) : 1 < quantity := by
  by_contra hle
  exact h (lowered_of_le (not_lt.1 hle))

theorem lowered_eq_one {quantity surplus : ℤ} (h : 1 < quantity) (hle : quantity ≤ surplus + 1) :
    lowered quantity surplus = some 1 := by
  have hmax : max minNeededQuantity (quantity - surplus) = 1 := max_eq_left (show quantity - surplus ≤ 1 by omega)
  simp [lowered, hmax, h]

/-- The line and the surplus of a proposal that lowers a position. -/
theorem exists_fewer (hp : p ∈ buildReviewProposals toLowerCase localeCompare flaggedTripCount args)
    (hkind : p.kind = .fewer) : ∃ row ∈ args.items, ∃ v group target, fewerOf args row = some v ∧
      sourcePosition args row = some (group, target) ∧ args.isDismissed (v.key toLowerCase) = false ∧
      p.key = ⟨.item target.itemId, target.templateId, true⟩ ∧ p.itemId = some target.itemId ∧
      p.groupId = target.templateId ∧ p.surplus = some v.surplus ∧
      ∀ v' ∈ asked toLowerCase localeCompare args, v'.key toLowerCase = p.key → v.surplus ≤ v'.surplus := by
  obtain ⟨hpkey, hmade⟩ := made_of_mem (mem_buildReviewProposals.1 hp)
  obtain ⟨v, hv, hsurplus, hleast⟩ := hmade.surplus hkind
  obtain ⟨hv, hvkey⟩ := List.mem_filter.1 hv
  have hvkey : v.key toLowerCase = p.key := of_decide_eq_true hvkey
  have hvkind : v.kind = .fewer := by
    have hflag := congrArg DismissalKey.fewer hvkey
    simpa [Verdict.key, ReviewProposal.key, dismissalKey, hkind] using hflag
  obtain ⟨v₀, hv₀, hkey₀, -, -, hitem₀, hgroup₀⟩ := exists_asked hp
  obtain ⟨hopen, ⟨row, hrow, hsaid⟩ | ⟨row, hrow, hsaid⟩ | ⟨dominant, -, row, hrow, hsaid⟩⟩ := of_asked hv
  · obtain ⟨_, _, -, -, -, hkind', -⟩ := of_unusedOf hsaid
    rw [hkind'] at hvkind
    cases hvkind
  · obtain ⟨group, target, hsource, -, -, -, -, hvitem, rfl⟩ := of_fewerOf hsaid
    have hkey : p.key = ⟨.item target.itemId, target.templateId, true⟩ := by
      rw [← hvkey, key_of_source hsource hvitem rfl, hvkind]
      rfl
    obtain ⟨hitem, hgroup⟩ := of_key_item (hkey₀.symm.trans hkey)
    exact ⟨row, hrow, v, v.group, target, hsaid, hsource, hopen, hkey, hitem₀.trans hitem, hgroup₀.trans hgroup,
      hsurplus, fun v' hv' hkey' => hleast v' (List.mem_filter.2 ⟨hv', decide_eq_true hkey'⟩)⟩
  · obtain ⟨-, -, hkind', -⟩ := of_missingOf hsaid
    rw [hkind'] at hvkind
    cases hvkind

/-- **A position that is lowered to one.** -/
theorem asked_apply_fewer (h : Settled toLowerCase localeCompare args) (new : Fresh args)
    (hp : p ∈ buildReviewProposals toLowerCase localeCompare flaggedTripCount args) (hkind : p.kind = .fewer) :
    asked toLowerCase localeCompare (args.apply p new) =
      (asked toLowerCase localeCompare args).filter (·.key toLowerCase ≠ p.key) := by
  obtain ⟨row, hrow, v, group, target, hsaid, hsource, hopen, hpkey, hitem, hgroup, hsurplus, -⟩ :=
    exists_fewer hp hkind
  obtain ⟨_, _, hsource', hline, -, hlowered, hvkind, hvitem, rfl⟩ := of_fewerOf hsaid
  obtain ⟨rfl, rfl⟩ := Prod.mk.inj (Option.some.inj (hsource.symm.trans hsource'))
  obtain ⟨-, -, hposition, htarget, hid⟩ := of_sourcePosition hsource
  have hmore : 1 < target.quantity := one_lt_of_lowered hlowered
  have hone : lowered target.quantity v.surplus = some 1 :=
    lowered_eq_one hmore (hline ▸ h.lowered row hrow v hsaid hopen)
  rw [(apply_of_position new hitem (hgroup ▸ hid ▸ hposition)).2 _ _ hkind hsurplus hone]
  have hne : ∀ row', (¬ ∃ group, sourcePosition args row' = some (group, target)) →
      ∀ group ti, sourcePosition args row' = some (group, ti) → ti ≠ target := by
    rintro row' hnot group ti hti rfl
    exact hnot ⟨group, hti⟩
  refine asked_of_keeps rfl rfl rfl (fun row' _ => ?_) (fun row' _ => ?_) fun dominant _ row' _ => ?_
  · refine keeps_same ?_ fun v' hv' hkey' => ?_
    · by_cases hat : ∃ group, sourcePosition args row' = some (group, target)
      · obtain ⟨group', hat⟩ := hat
        have hnonzero : target.quantity ≠ 0 := by omega
        simp [unusedOf, sourcePosition_setQuantity, hat, updated_self, hnonzero]
      · exact unusedOf_setQuantity_of_ne htarget (hne row' hat)
    · obtain ⟨_, _, hsource'', -, -, hkind', hitem', rfl⟩ := of_unusedOf hv'
      rw [key_of_source hsource'' hitem' rfl, hpkey, hkind'] at hkey'
      simp at hkey'
  · by_cases hat : ∃ group, sourcePosition args row' = some (group, target)
    · obtain ⟨group', hat⟩ := hat
      refine keeps_gone (fewerOf_of_le ?_) fun v' hv' => .inr ?_
      · rintro group'' ti' hsource''
        rw [sourcePosition_setQuantity, hat] at hsource''
        obtain ⟨-, rfl⟩ := Prod.mk.inj (Option.some.inj hsource'')
        rw [updated_self]
      · obtain ⟨_, _, hsource'', -, -, -, hkind', hitem', rfl⟩ := of_fewerOf hv'
        obtain ⟨rfl, rfl⟩ := Prod.mk.inj (Option.some.inj (hat.symm.trans hsource''))
        rw [key_of_source hsource'' hitem' rfl, hkind', hpkey]
        rfl
    · refine keeps_same (fewerOf_setQuantity_of_ne htarget (hne row' hat)) fun v' hv' hkey' => ?_
      obtain ⟨_, ti, hsource'', -, -, -, -, hitem', rfl⟩ := of_fewerOf hv'
      rw [key_of_source hsource'' hitem' rfl, hpkey] at hkey'
      simp only [DismissalKey.mk.injEq, ItemRef.item.injEq] at hkey'
      exact hne row' hat _ _ hsource'' (source_unique hsource'' hsource hkey'.1 hkey'.2.1)
  · refine keeps_same (missingOf_setQuantity _ _ _ _) fun v' hv' hkey' => ?_
    obtain ⟨-, -, hkind', -⟩ := of_missingOf hv'
    rw [hpkey] at hkey'
    have hflag := congrArg DismissalKey.fewer hkey'
    simp [Verdict.key, dismissalKey, hkind'] at hflag

theorem position_add (p : ReviewProposal) (new : Fresh args) (groupId itemId : String) :
    (args.add p new).position groupId itemId = (args.position groupId itemId).or
      (if p.groupId = groupId ∧ p.itemId.getD new.itemId = itemId then
        some ⟨new.positionId, p.groupId, p.itemId.getD new.itemId, 1⟩ else none) := by
  unfold ReviewArgs.position ReviewArgs.add
  rw [List.filter_append, List.find?_append]
  congr 1
  by_cases hgroup : p.groupId = groupId
  · by_cases hitem : p.itemId.getD new.itemId = itemId <;> simp [hgroup, hitem]
  · simp [hgroup]

theorem sourcePosition_add_of_some {new : Fresh args} (h : sourcePosition args item = some (group, ti)) :
    sourcePosition (args.add p new) item = some (group, ti) := by
  obtain ⟨hgroup, hitem, hti, -, -⟩ := of_sourcePosition h
  obtain ⟨templateId, htemplate, hgroup⟩ := Option.bind_eq_some_iff.1 hgroup
  have hgroup' : groupOf (args.add p new).templates templateId = some group := hgroup
  simp [sourcePosition, htemplate, hgroup', hitem, position_add, hti]

/-- A row whose item is new in its group. -/
theorem of_sourcePosition_add {new : Fresh args} (h : sourcePosition args item = none)
    (h' : sourcePosition (args.add p new) item = some (group, ti)) : ti.quantity = 1 ∧
      item.sourceItemId = some (p.itemId.getD new.itemId) ∧
      item.sourceTemplateId.bind (groupOf args.templates) = some group ∧ group.id = p.groupId := by
  obtain ⟨hgroup, hitem, hti, -, -⟩ := of_sourcePosition h'
  have hgroup : item.sourceTemplateId.bind (groupOf args.templates) = some group := hgroup
  obtain ⟨templateId, htemplate, hgroup'⟩ := Option.bind_eq_some_iff.1 hgroup
  have hold : args.position group.id ti.itemId = none := by
    simpa [sourcePosition, htemplate, hgroup', hitem] using h
  rw [position_add, hold, Option.none_or] at hti
  obtain ⟨⟨hid, hitem'⟩, hti⟩ := Option.ite_none_right_eq_some.1 hti
  refine ⟨by rw [← Option.some.inj hti], by rw [hitem, hitem'], hgroup, hid.symm⟩

theorem itemIdOf_add (p : ReviewProposal) (new : Fresh args) (item : TripItem) :
    itemIdOf toLowerCase (args.add p new) item = (itemIdOf toLowerCase args item).or
      (if p.itemId = none ∧ toLowerCase p.itemName = toLowerCase item.name then some new.itemId else none) := by
  have hmaster : (args.add p new).masterItems =
      if p.itemId.isSome then args.masterItems else args.masterItems ++ [⟨new.itemId, p.itemName⟩] := rfl
  rw [itemIdOf, itemIdOf, hmaster]
  cases p.itemId with
  | some id => simp
  | none =>
    by_cases hname : toLowerCase p.itemName = toLowerCase item.name
    · simp only [Option.isSome_none, Bool.false_eq_true, if_false, List.find?_append]
      rw [Option.or_assoc]
      cases args.masterItems.find? fun m => toLowerCase m.name = toLowerCase item.name <;> simp [hname]
    · simp only [Option.isSome_none, Bool.false_eq_true, if_false, List.find?_append]
      cases args.masterItems.find? fun m => toLowerCase m.name = toLowerCase item.name <;> simp [hname]

theorem itemIdOf_ne_new (new : Fresh args) (hitem : item ∈ args.items) :
    itemIdOf toLowerCase args item ≠ some new.itemId := by
  intro h
  rcases Option.or_eq_some_iff.1 h with hsource | ⟨-, hmaster⟩
  · exact new.item_unnamed item hitem hsource
  · obtain ⟨m, hm, hid⟩ := Option.map_eq_some_iff.1 hmaster
    exact new.item_unlisted m (List.mem_of_find?_eq_some hm) hid

/-- The rows that are missing once an item is added. -/
theorem keeps_missingOf_add {new : Fresh args} {dominant : Template} {row row' : TripItem}
    {isDismissed : DismissalKey → Bool} (hsaid : missingOf toLowerCase args dominant row = some v)
    (hrow' : row' ∈ args.items) (hitem : p.itemId = v.itemId) (hname : p.itemName = v.itemName)
    (hgroup : p.groupId = dominant.id) : Keeps toLowerCase isDismissed (v.key toLowerCase)
      (missingOf toLowerCase (args.add p new) dominant row') (missingOf toLowerCase args dominant row') := by
  obtain ⟨-, -, hkind, -, -, rfl, -⟩ := of_missingOf hsaid
  -- A row is of the item that is added, or it says what it said.
  by_cases hadded : p.itemId = itemIdOf toLowerCase args row' ∧
      (p.itemId = none → toLowerCase p.itemName = toLowerCase row'.name)
  · obtain ⟨hsame, hlower⟩ := hadded
    refine keeps_gone ?_ fun v' hv' => .inr ?_
    · cases hsaid' : missingOf toLowerCase (args.add p new) v.group row' with
      | none => rfl
      | some v' =>
        obtain ⟨-, -, -, -, hvitem', -, hnone'⟩ := of_missingOf hsaid'
        have hitem' : v'.itemId = some (p.itemId.getD new.itemId) := by
          rw [hvitem', itemIdOf_add, ← hsame]
          cases hp : p.itemId with
          | none => simp [hlower hp]
          | some x => rfl
        have hposition := hnone' _ hitem'
        rw [position_add, if_pos ⟨hgroup, rfl⟩] at hposition
        simp at hposition
    · obtain ⟨-, -, hkind', hvname', hvitem', hgroup', -⟩ := of_missingOf hv'
      have hitem' : v'.itemId = v.itemId := hvitem'.trans (hsame.symm.trans hitem)
      have href : v'.itemRef toLowerCase = v.itemRef toLowerCase := by
        unfold Verdict.itemRef
        rw [hitem']
        cases hv : v.itemId with
        | none =>
          have hlower' := hlower (hitem.trans hv)
          rw [hname] at hlower'
          exact congrArg ItemRef.name (hvname' ▸ hlower'.symm)
        | some x => rfl
      rw [Verdict.key, Verdict.key, href, hgroup', hkind', hkind]
  · have hid : itemIdOf toLowerCase (args.add p new) row' = itemIdOf toLowerCase args row' := by
      rw [itemIdOf_add]
      cases hold : itemIdOf toLowerCase args row' with
      | some x => rfl
      | none =>
        rw [if_neg fun hboth => hadded ⟨hboth.1.trans hold.symm, fun _ => hboth.2⟩]
        rfl
    have hother : ∀ x, itemIdOf toLowerCase args row' = some x → p.itemId.getD new.itemId ≠ x := by
      rintro x hx rfl
      cases hp : p.itemId with
      | none =>
        rw [hp] at hx
        exact itemIdOf_ne_new new hrow' hx
      | some y =>
        rw [hp] at hx
        exact hadded ⟨hp.trans hx.symm, fun hnone => nomatch hp.symm.trans hnone⟩
    have hsource : sourcePosition (args.add p new) row' = none ↔ sourcePosition args row' = none := by
      constructor
      · intro hnone
        cases hsource : sourcePosition args row' with
        | none => rfl
        | some source => exact nomatch hnone.symm.trans (sourcePosition_add_of_some hsource)
      · intro hnone
        cases hsource : sourcePosition (args.add p new) row' with
        | none => rfl
        | some source =>
          obtain ⟨-, hitem', -, -⟩ := of_sourcePosition_add hnone hsource
          have hx : itemIdOf toLowerCase args row' = some (p.itemId.getD new.itemId) := by
            rw [itemIdOf, hitem']
            rfl
          exact absurd rfl (hother _ hx)
    have hsame : missingOf toLowerCase (args.add p new) v.group row' = missingOf toLowerCase args v.group row' := by
      have hisSome : (sourcePosition (args.add p new) row').isSome = (sourcePosition args row').isSome := by
        rw [Bool.eq_iff_iff, Option.isSome_iff_ne_none, Option.isSome_iff_ne_none, ne_eq, ne_eq, hsource]
      have hposition : ∀ x ∈ itemIdOf toLowerCase args row',
          (args.add p new).position v.group.id x = args.position v.group.id x := by
        intro x hx
        rw [position_add, if_neg fun hboth => hother x hx hboth.2, Option.or_none]
      have hcontained : (∃ x ∈ itemIdOf toLowerCase args row', ((args.add p new).position v.group.id x).isSome) ↔
          ∃ x ∈ itemIdOf toLowerCase args row', (args.position v.group.id x).isSome :=
        exists_congr fun x => and_congr_right fun hx => by rw [hposition x hx]
      simp only [missingOf, hisSome, hid, hcontained]
    refine keeps_same hsame fun v' hv' hkey => hadded ?_
    obtain ⟨-, -, -, hvname', hvitem', -, -⟩ := of_missingOf hv'
    obtain ⟨href, -, -⟩ := DismissalKey.mk.inj hkey
    unfold Verdict.itemRef at href
    cases hv : v.itemId with
    | none =>
      rw [hv] at href
      cases hv'' : v'.itemId with
      | none =>
        rw [hv''] at href
        refine ⟨(hitem.trans hv).trans (hv''.symm.trans hvitem'), fun _ => ?_⟩
        rw [hname, ← ItemRef.name.inj href, hvname']
      | some x =>
        rw [hv''] at href
        cases href
    | some x =>
      rw [hv] at href
      cases hv'' : v'.itemId with
      | none =>
        rw [hv''] at href
        cases href
      | some y =>
        rw [hv''] at href
        cases href
        exact ⟨(hitem.trans hv).trans (hv''.symm.trans hvitem'), fun hnone => nomatch (hitem.trans hv).symm.trans hnone⟩

/-- **An item that is added.** -/
theorem asked_apply_missing (h : Settled toLowerCase localeCompare args) (new : Fresh args)
    (hp : p ∈ buildReviewProposals toLowerCase localeCompare flaggedTripCount args) (hkind : p.kind = .missing) :
    asked toLowerCase localeCompare (args.apply p new) =
      (asked toLowerCase localeCompare args).filter (·.key toLowerCase ≠ p.key) := by
  obtain ⟨v, hv, hkey, hvkind, hname, hitem, hgroup⟩ := exists_asked hp
  rw [hkind] at hvkind
  have happly : args.apply p new = args.add p new := by simp [ReviewArgs.apply, hkind]
  obtain ⟨hopen, ⟨row, hrow, hsaid⟩ | ⟨row, hrow, hsaid⟩ | ⟨dominant, hdominant, row, hrow, hsaid⟩⟩ := of_asked hv
  · obtain ⟨_, _, -, -, -, hkind', -⟩ := of_unusedOf hsaid
    rw [hkind'] at hvkind
    cases hvkind
  · obtain ⟨_, _, -, -, -, -, hkind', -⟩ := of_fewerOf hsaid
    rw [hkind'] at hvkind
    cases hvkind
  obtain ⟨-, -, -, hvname, hvitem, rfl, hnone⟩ := of_missingOf hsaid
  have hnamed : ∀ row' ∈ args.items, row'.sourceItemId = some (p.itemId.getD new.itemId) →
      p.itemId = row'.sourceItemId := by
    intro row' hrow' hsource
    cases hpitem : p.itemId with
    | none =>
      rw [hpitem] at hsource
      exact absurd hsource (new.item_unnamed row' hrow')
    | some x =>
      rw [hpitem] at hsource
      exact hsource.symm
  rw [happly]
  refine asked_of_keeps rfl rfl rfl (fun row' hrow' => keeps_same ?_ fun v' hv' hkey' => ?_)
    (fun row' _ => keeps_same ?_ fun v' hv' hkey' => ?_) fun dominant' hdominant' row' hrow' => ?_
  · cases hsource : sourcePosition args row' with
    | some source =>
      obtain ⟨group, ti⟩ := source
      simp [unusedOf, hsource, sourcePosition_add_of_some hsource]
    | none =>
      cases hsource' : sourcePosition (args.add p new) row' with
      | none => simp [unusedOf, hsource, hsource']
      | some source =>
        obtain ⟨group, ti⟩ := source
        obtain ⟨-, hitem', hgroup', hid⟩ := of_sourcePosition_add hsource hsource'
        have hflag : row'.flagUnused = false := by
          by_contra hflag
          have hpitem := hnamed row' hrow' hitem'
          exact h.returned v.group hdominant row hrow v hsaid hopen row' hrow' (by simpa using hflag) _ _
            (hitem.symm.trans (hpitem.trans hitem')) hitem' hgroup' (hid.trans hgroup)
        simp [unusedOf, hflag]
  · obtain ⟨group, ti, hsource, -, -, hkind', hitem', rfl⟩ := of_unusedOf hv'
    obtain ⟨-, -, hposition, -, hid⟩ := of_sourcePosition hsource
    rw [key_of_source hsource hitem' rfl, hkey] at hkey'
    obtain ⟨hitem'', hgroup''⟩ := of_key_item hkey'.symm
    have hposition' := hnone _ hitem''
    rw [hgroup'', hid, hposition] at hposition'
    cases hposition'
  · cases hsource : sourcePosition args row' with
    | some source =>
      obtain ⟨group, ti⟩ := source
      simp [fewerOf, hsource, sourcePosition_add_of_some hsource]
    | none =>
      rw [fewerOf_of_le fun group ti hti => (of_sourcePosition_add hsource hti).1.le,
        fewerOf_of_le fun group ti hti => nomatch hsource.symm.trans hti]
  · obtain ⟨group, ti, hsource, -, -, -, hkind', hitem', rfl⟩ := of_fewerOf hv'
    rw [hkey] at hkey'
    have hflag := congrArg DismissalKey.fewer hkey'
    simp [Verdict.key, dismissalKey, hkind', ← hvkind] at hflag
  · obtain rfl := Option.some.inj (hdominant'.symm.trans hdominant)
    rw [hkey]
    exact keeps_missingOf_add hsaid hrow' hitem hname hgroup

theorem asked_apply (h : Settled toLowerCase localeCompare args) (new : Fresh args)
    (hp : p ∈ buildReviewProposals toLowerCase localeCompare flaggedTripCount args) :
    asked toLowerCase localeCompare (args.apply p new) =
      (asked toLowerCase localeCompare args).filter (·.key toLowerCase ≠ p.key) := by
  cases hkind : p.kind with
  | unused => exact asked_apply_unused h new hp hkind
  | fewer => exact asked_apply_fewer h new hp hkind
  | missing => exact asked_apply_missing h new hp hkind

theorem items_apply (p : ReviewProposal) (new : Fresh args) : (args.apply p new).items = args.items ∧
    (args.apply p new).templates = args.templates ∧ (args.apply p new).isDismissed = args.isDismissed := by
  unfold ReviewArgs.apply
  split
  · split <;> exact ⟨rfl, rfl, rfl⟩
  · split <;> exact ⟨rfl, rfl, rfl⟩
  · exact ⟨rfl, rfl, rfl⟩

/-- Verdicts that are gone disturb nothing. -/
theorem Settled.of_subset (h : Settled toLowerCase localeCompare args) (hitems : args'.items = args.items)
    (htemplates : args'.templates = args.templates)
    (hsub : asked toLowerCase localeCompare args' ⊆ asked toLowerCase localeCompare args) :
    Settled toLowerCase localeCompare args' := by
  have hunused : ∀ v ∈ asked toLowerCase localeCompare args', v.kind = .unused →
      args.isDismissed (v.key toLowerCase) = false ∧ ∃ item ∈ args.items, unusedOf args item = some v := by
    intro v hv hkind
    obtain ⟨hopen, hunused | ⟨row, hrow, hsaid⟩ | ⟨dominant, -, row, hrow, hsaid⟩⟩ := of_asked (hsub hv)
    · exact ⟨hopen, hunused⟩
    · obtain ⟨_, _, -, -, -, -, hkind', -⟩ := of_fewerOf hsaid
      exact nomatch hkind.symm.trans hkind'
    · exact nomatch hkind.symm.trans (of_missingOf hsaid).2.2.1
  have hfewer : ∀ v ∈ asked toLowerCase localeCompare args', v.kind = .fewer →
      args.isDismissed (v.key toLowerCase) = false ∧ ∃ item ∈ args.items, fewerOf args item = some v := by
    intro v hv hkind
    obtain ⟨hopen, ⟨row, hrow, hsaid⟩ | hfewer | ⟨dominant, -, row, hrow, hsaid⟩⟩ := of_asked (hsub hv)
    · obtain ⟨_, _, -, -, -, hkind', -⟩ := of_unusedOf hsaid
      exact nomatch hkind.symm.trans hkind'
    · exact ⟨hopen, hfewer⟩
    · exact nomatch hkind.symm.trans (of_missingOf hsaid).2.2.1
  refine
    { lowered := ?_
      apart := ?_
      returned := ?_ }
  · intro item hitem v hsaid hopen
    obtain ⟨_, _, -, -, -, -, hkind, -⟩ := of_fewerOf hsaid
    obtain ⟨hopen', item', hitem', hsaid'⟩ := hfewer v (asked_of_fewerOf hitem hsaid hopen) hkind
    exact h.lowered item' hitem' v hsaid' hopen'
  · intro item hitem item' hitem' v v' hsaid hsaid' hopen hopen'
    obtain ⟨_, _, -, -, -, hkind, -⟩ := of_unusedOf hsaid
    obtain ⟨_, _, -, -, -, -, hkind', -⟩ := of_fewerOf hsaid'
    obtain ⟨hold, row, hrow, hrowSaid⟩ := hunused v (asked_of_unusedOf hitem hsaid hopen) hkind
    obtain ⟨hold', row', hrow', hrowSaid'⟩ := hfewer v' (asked_of_fewerOf hitem' hsaid' hopen') hkind'
    exact h.apart row hrow row' hrow' v v' hrowSaid hrowSaid' hold hold'
  · intro dominant hdominant item hitem v hsaid hopen item' hitem' hflag
    have hv := hsub (asked_of_missingOf hdominant hitem hsaid hopen)
    obtain ⟨-, -, hkind, -, -, hgroup, -⟩ := of_missingOf hsaid
    rw [hitems, htemplates] at hdominant
    rw [hitems] at hitem'
    rw [htemplates]
    obtain ⟨hopen', ⟨row, hrow, hsaid'⟩ | ⟨row, hrow, hsaid'⟩ | ⟨dominant', hdominant', row, hrow, hsaid'⟩⟩ :=
      of_asked hv
    · obtain ⟨_, _, -, -, -, hkind', -⟩ := of_unusedOf hsaid'
      exact nomatch hkind.symm.trans hkind'
    · obtain ⟨_, _, -, -, -, -, hkind', -⟩ := of_fewerOf hsaid'
      exact nomatch hkind.symm.trans hkind'
    · obtain rfl := Option.some.inj (hdominant'.symm.trans hdominant)
      exact h.returned dominant' hdominant' row hrow v hsaid' hopen' item' hitem' hflag

/-! ## Runs -/

variable (toLowerCase localeCompare flaggedTripCount) in
/-- Proposals that are applied one after another, each as it is then made. -/
inductive Applied : ReviewArgs → List ReviewProposal → ReviewArgs → Prop
  | nil {args : ReviewArgs} : Applied args [] args
  | cons {args args' : ReviewArgs} {p : ReviewProposal} {ps : List ReviewProposal} (new : Fresh args) :
      p ∈ buildReviewProposals toLowerCase localeCompare flaggedTripCount args → Applied (args.apply p new) ps args' →
      Applied args (p :: ps) args'

theorem eq_of_key {p' : ReviewProposal} (hp : p ∈ buildReviewProposals toLowerCase localeCompare flaggedTripCount args)
    (hp' : p' ∈ buildReviewProposals toLowerCase localeCompare flaggedTripCount args) (hkey : p.key = p'.key) :
    p = p' := by
  have hnodup : ((proposalsByKey toLowerCase localeCompare flaggedTripCount args).map Prod.fst).Nodup :=
    Grouping.nodup_keys_group _
  exact congrArg Prod.snd (List.inj_on_of_nodup_map hnodup (mem_buildReviewProposals.1 hp)
    (mem_buildReviewProposals.1 hp') hkey)

theorem nodup_buildReviewProposals :
    (buildReviewProposals toLowerCase localeCompare flaggedTripCount args).Nodup := by
  have hnodup : ((proposalsByKey toLowerCase localeCompare flaggedTripCount args).map Prod.fst).Nodup :=
    Grouping.nodup_keys_group _
  rw [buildReviewProposals_eq]
  refine List.Nodup.of_map ReviewProposal.key ?_
  rw [List.map_map]
  refine (List.map_congr_left fun e he => ?_) ▸ hnodup
  exact (made_of_mem he).1.symm

theorem length_filter_ne (hp : p ∈ buildReviewProposals toLowerCase localeCompare flaggedTripCount args) :
    1 + ((buildReviewProposals toLowerCase localeCompare flaggedTripCount args).filter (· ≠ p)).length =
      (buildReviewProposals toLowerCase localeCompare flaggedTripCount args).length := by
  have hnodup : (buildReviewProposals toLowerCase localeCompare flaggedTripCount args).Nodup :=
    nodup_buildReviewProposals
  have herase : (buildReviewProposals toLowerCase localeCompare flaggedTripCount args).filter (· ≠ p) =
      (buildReviewProposals toLowerCase localeCompare flaggedTripCount args).erase p := by
    rw [hnodup.erase_eq_filter]
    refine List.filter_congr fun q _ => ?_
    by_cases hq : q = p <;> simp [hq]
  rw [herase, List.length_erase_of_mem hp, Nat.add_sub_cancel' (List.length_pos_of_mem hp)]

variable (toLowerCase localeCompare flaggedTripCount) in
/-- A review that can be broken off and taken up again. -/
structure Resumable (args : ReviewArgs) : Prop where
  applied : ∀ p ∈ buildReviewProposals toLowerCase localeCompare flaggedTripCount args, ∀ new : Fresh args,
    buildReviewProposals toLowerCase localeCompare flaggedTripCount (args.apply p new) =
      (buildReviewProposals toLowerCase localeCompare flaggedTripCount args).filter (· ≠ p)
  dismissed : ∀ p ∈ buildReviewProposals toLowerCase localeCompare flaggedTripCount args,
    buildReviewProposals toLowerCase localeCompare flaggedTripCount (args.dismiss p) =
      (buildReviewProposals toLowerCase localeCompare flaggedTripCount args).filter (· ≠ p)
  ends : ∀ ps args', Applied toLowerCase localeCompare flaggedTripCount args ps args' →
    ps.length + (buildReviewProposals toLowerCase localeCompare flaggedTripCount args').length =
      (buildReviewProposals toLowerCase localeCompare flaggedTripCount args).length

/-- Every proposal that is applied is one less, for as long as they are applied. -/
theorem Settled.ends {ps : List ReviewProposal} (h : Settled toLowerCase localeCompare args)
    (hps : Applied toLowerCase localeCompare flaggedTripCount args ps args') :
    ps.length + (buildReviewProposals toLowerCase localeCompare flaggedTripCount args').length =
      (buildReviewProposals toLowerCase localeCompare flaggedTripCount args).length := by
  induction hps with
  | nil => exact Nat.zero_add _
  | cons new hp _ ih =>
    obtain ⟨hitems, htemplates, -⟩ := items_apply _ new
    have hasked := asked_apply h new hp
    have hrest := ih (h.of_subset hitems htemplates (hasked ▸ List.filter_subset_self _))
    rw [build_of_asked hp hasked] at hrest
    rw [List.length_cons, ← length_filter_ne hp, ← hrest]
    omega

/-- There are ids that nothing has. -/
theorem nonempty_fresh (args : ReviewArgs) : Nonempty (Fresh args) := by
  obtain ⟨positionId, hposition⟩ := Infinite.exists_notMem_finset (args.templateItems.map (·.id)).toFinset
  obtain ⟨itemId, hitem⟩ := Infinite.exists_notMem_finset
    (args.templateItems.map (·.itemId) ++ args.items.filterMap (·.sourceItemId) ++ args.masterItems.map (·.id)).toFinset
  simp only [List.mem_toFinset, List.mem_append, List.mem_map, List.mem_filterMap, not_or, not_exists, not_and] at hitem
  exact ⟨⟨positionId, itemId, by simpa using hposition, hitem.1.1, hitem.1.2, hitem.2⟩⟩

/-- A row that lowers its position lowers it wherever it is more than one. -/
theorem exists_fewerOf (toLowerCase : String → String) (h : fewerOf args item = some v)
    (hsource : sourcePosition args' item = some (v.group, ti)) (hmore : 1 < ti.quantity) :
    ∃ v', fewerOf args' item = some v' ∧ v'.key toLowerCase = v.key toLowerCase := by
  obtain ⟨_, _, -, -, hsurplus, -, hkind, hitem, -⟩ := of_fewerOf h
  unfold fewerOf at h ⊢
  split at h
  · cases h
  · next needed hneeded =>
    split at h
    · cases h
    · next hless =>
      split at h
      · cases h
      · next group _ _ =>
        dsimp only at h
        split at h
        · cases h
        · cases h
          have hlowered : lowered ti.quantity (item.packedCount - needed) ≠ none := by
            have hresult : max minNeededQuantity (ti.quantity - (item.packedCount - needed)) < ti.quantity :=
              max_lt hmore (by dsimp only at hsurplus; omega)
            simp [lowered, hresult]
          refine ⟨⟨.fewer, item.id, item.name, item.sourceItemId, group, ti.quantity, item.packedCount - needed⟩,
            ?_, rfl⟩
          simp only [hless, hsource, hlowered, if_false]

theorem exists_proposal (flaggedTripCount : String → ReviewProposalKind → ℕ)
    (hv : v ∈ asked toLowerCase localeCompare args) :
    ∃ p ∈ buildReviewProposals toLowerCase localeCompare flaggedTripCount args, p.key = v.key toLowerCase :=
  exists_proposal_iff.2 ⟨v, hv, rfl⟩

/-- A proposal that is applied as it should be is not made again. -/
theorem Resumable.notAsked (h : Resumable toLowerCase localeCompare flaggedTripCount args) {new : Fresh args}
    (hp : p ∈ buildReviewProposals toLowerCase localeCompare flaggedTripCount args) :
    ∀ v ∈ asked toLowerCase localeCompare (args.apply p new), v.key toLowerCase ≠ p.key := by
  intro v hv hkey
  obtain ⟨p', hp', hkey'⟩ := exists_proposal flaggedTripCount hv
  rw [h.applied p hp new] at hp'
  obtain ⟨hp', hne⟩ := List.mem_filter.1 hp'
  exact of_decide_eq_true hne (eq_of_key hp' hp (hkey'.trans hkey))

theorem kind_of_key (hkey : p.key = v.key toLowerCase) : p.kind = .fewer ↔ v.kind = .fewer := by
  have hflag := congrArg DismissalKey.fewer hkey
  simpa [ReviewProposal.key, Verdict.key, dismissalKey] using hflag

/-- What a proposal on an item is, by whether its group holds the item. -/
theorem of_proposal_key {x groupId : String}
    (hp : p ∈ buildReviewProposals toLowerCase localeCompare flaggedTripCount args)
    (hkey : p.key = ⟨.item x, groupId, false⟩) : p.itemId = some x ∧ p.groupId = groupId ∧
      ((∃ ti, args.position groupId x = some ti) → p.kind = .unused) ∧
      (args.position groupId x = none → p.kind = .missing) := by
  obtain ⟨v, hv, hvkey, hkind, -, hitem, hgroup⟩ := exists_asked hp
  obtain ⟨hvitem, hvgroup⟩ := of_key_item (hvkey.symm.trans hkey)
  refine ⟨hitem.trans hvitem, hgroup.trans hvgroup, ?_, ?_⟩
  · rintro ⟨ti, hti⟩
    obtain ⟨-, ⟨row, -, hsaid⟩ | ⟨row, -, hsaid⟩ | ⟨dominant, -, row, -, hsaid⟩⟩ := of_asked hv
    · obtain ⟨_, _, -, -, -, hkind', -⟩ := of_unusedOf hsaid
      exact hkind.trans hkind'
    · obtain ⟨_, _, -, -, -, -, hkind', -⟩ := of_fewerOf hsaid
      have hflag := congrArg DismissalKey.fewer (hvkey.symm.trans hkey)
      simp [Verdict.key, dismissalKey, hkind'] at hflag
    · obtain ⟨-, -, -, -, -, rfl, hnone⟩ := of_missingOf hsaid
      rw [← hvgroup, hnone x hvitem] at hti
      cases hti
  · intro hnone
    obtain ⟨-, ⟨row, -, hsaid⟩ | ⟨row, -, hsaid⟩ | ⟨dominant, -, row, -, hsaid⟩⟩ := of_asked hv
    · obtain ⟨_, ti, hsource, -, -, -, hitem', rfl⟩ := of_unusedOf hsaid
      have hposition := (of_sourcePosition hsource).2.2.1
      rw [Option.some.inj (hitem'.symm.trans hvitem), hvgroup, hnone] at hposition
      cases hposition
    · obtain ⟨_, _, -, -, -, -, hkind', -⟩ := of_fewerOf hsaid
      have hflag := congrArg DismissalKey.fewer (hvkey.symm.trans hkey)
      simp [Verdict.key, dismissalKey, hkind'] at hflag
    · exact hkind.trans (of_missingOf hsaid).2.2.1

/-- A line that is not lowered to one is proposed to be lowered again. -/
theorem Resumable.lowered (h : Resumable toLowerCase localeCompare flaggedTripCount args) (new : Fresh args)
    (hitem : item ∈ args.items) (hsaid : fewerOf args item = some v)
    (hopen : args.isDismissed (v.key toLowerCase) = false) : v.line ≤ v.surplus + 1 := by
  have hv : v ∈ asked toLowerCase localeCompare args := asked_of_fewerOf hitem hsaid hopen
  obtain ⟨group, target, hsource, hline, -, hlowered, hkind, hvitem, rfl⟩ := of_fewerOf hsaid
  obtain ⟨p, hp, hkey⟩ := exists_proposal flaggedTripCount hv
  have hpkind : p.kind = .fewer := (kind_of_key hkey).2 hkind
  obtain ⟨row, -, v₁, group₁, target₁, hsaid₁, hsource₁, -, hpkey, hpitem, hpgroup, hsurplus, hleast⟩ :=
    exists_fewer hp hpkind
  obtain ⟨_, _, -, -, hpos, -⟩ := of_fewerOf hsaid₁
  have hsame : target₁ = target := by
    rw [hkey, key_of_source hsource hvitem rfl] at hpkey
    simp only [DismissalKey.mk.injEq, ItemRef.item.injEq] at hpkey
    exact source_unique hsource₁ hsource hpkey.1.symm hpkey.2.1.symm
  subst hsame
  obtain ⟨-, -, hposition, htarget, hid⟩ := of_sourcePosition hsource
  by_contra hmore
  have hless : v₁.surplus ≤ v.surplus := hleast v hv hkey.symm
  have hquantity : 1 < target₁.quantity - v₁.surplus := by omega
  have hone : max minNeededQuantity (target₁.quantity - v₁.surplus) = target₁.quantity - v₁.surplus :=
    max_eq_right hquantity.le
  have hlow : Review.lowered target₁.quantity v₁.surplus = some (target₁.quantity - v₁.surplus) := by
    simp [Review.lowered, hone, hpos]
  have happly := (apply_of_position new hpitem (hpgroup ▸ hid ▸ hposition)).2 _ _ hpkind hsurplus hlow
  have hsource' : sourcePosition (args.apply p new) item =
      some (v.group, { target₁ with quantity := target₁.quantity - v₁.surplus }) := by
    rw [happly, sourcePosition_setQuantity, hsource, Option.map_some, updated_self]
  obtain ⟨v', hsaid', hkey'⟩ := exists_fewerOf toLowerCase hsaid hsource' hquantity
  obtain ⟨hitems, -, hdismissed⟩ := items_apply p new
  have hv' : v' ∈ asked toLowerCase localeCompare (args.apply p new) :=
    asked_of_fewerOf (hitems ▸ hitem) hsaid' (by rw [hdismissed, hkey']; exact hopen)
  exact h.notAsked hp v' hv' (hkey'.trans hkey.symm)

/-- A position that is set to zero is not lowered any more. -/
theorem Resumable.apart (h : Resumable toLowerCase localeCompare flaggedTripCount args) (new : Fresh args)
    {item' : TripItem} {v' : Verdict} (hitem : item ∈ args.items) (hitem' : item' ∈ args.items)
    (hsaid : unusedOf args item = some v) (hsaid' : fewerOf args item' = some v')
    (hopen : args.isDismissed (v.key toLowerCase) = false) (hopen' : args.isDismissed (v'.key toLowerCase) = false)
    (hsame : v.itemId = v'.itemId) : v.group.id ≠ v'.group.id := by
  intro hgroup
  obtain ⟨p, hp, hkey⟩ := exists_proposal flaggedTripCount
    (asked_of_unusedOf hitem hsaid hopen : v ∈ asked toLowerCase localeCompare args)
  obtain ⟨p', hp', hkey'⟩ := exists_proposal flaggedTripCount
    (asked_of_fewerOf hitem' hsaid' hopen' : v' ∈ asked toLowerCase localeCompare args)
  obtain ⟨_, target, hsource, -, -, hkind, hvitem, rfl⟩ := of_unusedOf hsaid
  obtain ⟨_, target', hsource', -, -, -, hkind', hvitem', rfl⟩ := of_fewerOf hsaid'
  obtain ⟨-, -, hposition, -, hid⟩ := of_sourcePosition hsource
  obtain rfl : target' = target := source_unique hsource' hsource
    (Option.some.inj (hvitem'.symm.trans (hsame.symm.trans hvitem)))
    ((of_sourcePosition hsource').2.2.2.2.trans (hgroup.symm.trans hid.symm))
  rw [key_of_source hsource hvitem rfl, hkind] at hkey
  rw [key_of_source hsource' hvitem' rfl, hkind'] at hkey'
  rw [← hid] at hposition
  obtain ⟨hpitem, hpgroup, hunused, -⟩ := of_proposal_key hp hkey
  have happly := (apply_of_position new hpitem (hpgroup ▸ hposition)).1 (hunused ⟨_, hposition⟩)
  -- The other proposal is still made, of a position that is now zero.
  have hstill : p' ∈ buildReviewProposals toLowerCase localeCompare flaggedTripCount (args.apply p new) := by
    rw [h.applied p hp new]
    refine List.mem_filter.2 ⟨hp', decide_eq_true ?_⟩
    rintro rfl
    simp [hkey] at hkey'
  obtain ⟨row, -, w, group, ti, hsaidW, hsourceW, -, hkeyW, -⟩ := exists_fewer hstill (by
    have hflag := congrArg DismissalKey.fewer hkey'
    simpa [ReviewProposal.key, dismissalKey] using hflag)
  obtain ⟨_, _, hsourceW', -, -, hloweredW, -⟩ := of_fewerOf hsaidW
  obtain ⟨rfl, rfl⟩ := Prod.mk.inj (Option.some.inj (hsourceW.symm.trans hsourceW'))
  have hmore := one_lt_of_lowered hloweredW
  obtain ⟨-, -, hpositionW, -, hidW⟩ := of_sourcePosition hsourceW
  rw [hkey'] at hkeyW
  simp only [DismissalKey.mk.injEq, ItemRef.item.injEq] at hkeyW
  rw [happly, position_setQuantity, ← hidW, ← hkeyW.1, ← hkeyW.2.1, hposition, Option.map_some,
    updated_self] at hpositionW
  rw [← Option.some.inj hpositionW] at hmore
  exact absurd hmore (show ¬ (1 : ℤ) < 0 by decide)

/-- An unused row is asked about again once its item is added. -/
theorem Resumable.returned (h : Resumable toLowerCase localeCompare flaggedTripCount args) (new : Fresh args)
    {dominant : Template} (hdominant : dominantGroup localeCompare args.items args.templates = some dominant)
    (hitem : item ∈ args.items) (hsaid : missingOf toLowerCase args dominant item = some v)
    (hopen : args.isDismissed (v.key toLowerCase) = false) {item' : TripItem} (hitem' : item' ∈ args.items)
    (hflag : item'.flagUnused = true) {x : String} (hx : v.itemId = some x) (hx' : item'.sourceItemId = some x)
    (hgroup : item'.sourceTemplateId.bind (groupOf args.templates) = some group) : group.id ≠ dominant.id := by
  intro hid
  obtain ⟨p, hp, hkey⟩ := exists_proposal flaggedTripCount
    (asked_of_missingOf hdominant hitem hsaid hopen : v ∈ asked toLowerCase localeCompare args)
  obtain ⟨-, -, hkind, -, -, rfl, hnone⟩ := of_missingOf hsaid
  have hposition := hnone x hx
  have hvkey : v.key toLowerCase = ⟨.item x, v.group.id, false⟩ := by
    rw [key_of_item hx, hkind]
    rfl
  obtain ⟨hpitem, hpgroup, -, hmissing⟩ := of_proposal_key hp (hkey.trans hvkey)
  have happly : args.apply p new = args.add p new := by simp [ReviewArgs.apply, hmissing hposition]
  obtain ⟨templateId, htemplate, hgroup'⟩ := Option.bind_eq_some_iff.1 hgroup
  have hgroup'' : groupOf (args.add p new).templates templateId = some group := hgroup'
  have hsource : sourcePosition (args.add p new) item' = some (group, ⟨new.positionId, p.groupId, x, 1⟩) := by
    simp [sourcePosition, htemplate, hgroup'', hx', position_add, hid, hposition, hpgroup, hpitem]
  have hsaid' : unusedOf (args.add p new) item' =
      some ⟨.unused, item'.id, item'.name, item'.sourceItemId, group, 0, 0⟩ := by
    simp [unusedOf, hflag, hsource]
  have hkey' : Verdict.key toLowerCase ⟨.unused, item'.id, item'.name, item'.sourceItemId, group, 0, 0⟩ = p.key := by
    rw [hkey, hvkey, key_of_item hx', ← hid]
    rfl
  have hv' : _ ∈ asked toLowerCase localeCompare (args.add p new) :=
    asked_of_unusedOf hitem' hsaid' (by rw [hkey', hkey]; exact hopen)
  exact h.notAsked hp _ (happly ▸ hv') hkey'

theorem Resumable.settled (h : Resumable toLowerCase localeCompare flaggedTripCount args) :
    Settled toLowerCase localeCompare args := by
  obtain ⟨new⟩ := nonempty_fresh args
  exact
    { lowered := fun _ hitem _ hsaid hopen => h.lowered new hitem hsaid hopen
      apart := fun _ hitem _ hitem' _ _ hsaid hsaid' hopen hopen' hsame =>
        h.apart new hitem hitem' hsaid hsaid' hopen hopen' hsame
      returned := fun _ hdominant _ hitem _ hsaid hopen _ hitem' hflag _ _ hx hx' hgroup =>
        h.returned new hdominant hitem hsaid hopen hitem' hflag hx hx' hgroup }

/-- **Review proposals are resumable** exactly where a verdict that lowers a position lowers it to one, no position is
both set to zero and lowered, and no row of an item that is added is unused in its group. -/
theorem resumable_iff (toLowerCase : String → String) (localeCompare : String → String → ℤ)
    (flaggedTripCount : String → ReviewProposalKind → ℕ) (args : ReviewArgs) :
    Resumable toLowerCase localeCompare flaggedTripCount args ↔ Settled toLowerCase localeCompare args :=
  ⟨Resumable.settled, fun h =>
    { applied := fun _ hp new => build_of_asked hp (asked_apply h new hp)
      dismissed := fun _ hp => build_dismiss hp
      ends := fun _ _ => h.ends }⟩

end

/-- Four shirts of the group went along, and one was too much. -/
def shirts : ReviewArgs where
  items := [⟨"row", some "shirt", some "basics", "Shirt", 4, some 3, false, false⟩]
  templates := [⟨"basics", "Basics", true⟩]
  templateItems := [⟨"position", "basics", "shirt", 4⟩]
  masterItems := [⟨"shirt", "Shirt"⟩]
  isDismissed := fun _ => false
  distinct := by decide

/-- The shirts are lowered to three, and then proposed to be lowered to two. -/
theorem shirts_lowered_again : ¬ ∀ (toLowerCase : String → String) (localeCompare : String → String → ℤ)
    (flaggedTripCount : String → ReviewProposalKind → ℕ) (args : ReviewArgs),
    Resumable toLowerCase localeCompare flaggedTripCount args := by
  intro h
  obtain ⟨new⟩ := nonempty_fresh shirts
  have hsaid : fewerOf shirts ⟨"row", some "shirt", some "basics", "Shirt", 4, some 3, false, false⟩ =
      some ⟨.fewer, "row", "Shirt", some "shirt", ⟨"basics", "Basics", true⟩, 4, 1⟩ := by decide
  have hless := (h id (fun _ _ => 0) (fun _ _ => 1) shirts).lowered new (List.mem_singleton_self _) hsaid rfl
  exact absurd hless (by decide)

end Review

end JitPack
