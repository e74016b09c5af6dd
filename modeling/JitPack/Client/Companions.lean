import JitPack.Client.Dependencies
import JitPack.Lib.Insertion

/-!
# Companions

`resolveDependencies` of `domain/dependencies.ts`: what the items of a list bring along. The items on the list and
the companions they require are gone through breadth first; a required companion joins the list, a suggested one is
offered.

The run is the fold of `Resolution.follow` over the edges of the visited items, and those are the items on the list
followed by the companions it finds (`resolve_run`). So what the fold says of edges is said of the run, and the order
of the companions is one of distances (`within_of_before`): an item is offered and then required after all exactly
if the edges that require it can lie behind one that suggests it (`resolved_iff`).
-/

namespace JitPack

/-! ## The resolution -/

/-- `CategorisedMasterItem`. -/
structure CategorisedMasterItem where
  id : ItemId
  name : String
  categoryName : Option String
  weightGrams : Option ℚ
  valueCents : Option ℚ
  defaultAssigneeId : Option String
  deriving DecidableEq

/-- `new Map(items.map((i) => [i.id, i]))`: an id that repeats keeps its last item. -/
def itemsByID (items : List CategorisedMasterItem) (id : ItemId) : Option CategorisedMasterItem :=
  items.reverse.find? (·.id = id)

/-- `computeQuantity`. -/
def computeQuantity (quantity : Option ℚ) : ℕ := ⌊quantity.getD 1⌋.toNat

/-- `ResolvedCompanion`. -/
structure ResolvedCompanion where
  itemId : ItemId
  name : String
  categoryName : Option String
  weightGrams : Option ℚ
  valueCents : Option ℚ
  quantity : ℕ
  viaItemName : String
  deriving DecidableEq

/-- `DedupedCompanion`. -/
structure DedupedCompanion where
  itemId : ItemId
  name : String
  viaItemName : String
  deriving DecidableEq

/-- `SuggestedCompanion`. -/
structure SuggestedCompanion extends ResolvedCompanion where
  dependencyId : String
  deriving DecidableEq

/-- `DependencyResolution`. The sets of ids that the code keeps beside the lists are the ids of the lists. -/
structure Resolution where
  required : List ResolvedCompanion
  deduped : List DedupedCompanion
  suggested : List SuggestedCompanion
  deriving DecidableEq

def Resolution.empty : Resolution := ⟨[], [], []⟩

/-- The ids of the companions that join the list, in the order in which they are found. -/
def Resolution.added (r : Resolution) : List ItemId := r.required.map (·.itemId)

/-- The ids of the companions that are offered. -/
def Resolution.offered (r : Resolution) : List ItemId := r.suggested.map (·.itemId)

section
variable (items : List CategorisedMasterItem) (listed : List ItemId)

/-- What the inner loop does for an edge, `listed` being the items on the list, and what it puts into the queue. -/
def Resolution.follow (r : Resolution) (d : ItemDependency) : Resolution × List ItemId :=
  match itemsByID items d.itemId, itemsByID items d.dependsOnItemId with
  | some companion, some main =>
    let quantity := computeQuantity d.quantity
    let resolved : ResolvedCompanion := ⟨d.itemId, companion.name, companion.categoryName, companion.weightGrams,
      companion.valueCents, quantity, main.name⟩
    match d.mode with
    | .suggested =>
      if d.itemId ∉ listed ∧ d.itemId ∉ r.added ∧ d.itemId ∉ r.offered then
        ({ r with suggested := r.suggested ++ [⟨resolved, d.id⟩] }, [])
      else (r, [])
    | .required =>
      if d.itemId ∈ listed then
        (if d.itemId ∈ r.deduped.map (·.itemId) then r
          else { r with deduped := r.deduped ++ [⟨d.itemId, companion.name, main.name⟩] }, [])
      else if d.itemId ∈ r.added then
        ({ r with required := r.required.map fun c =>
            if c.itemId = d.itemId then { c with quantity := max c.quantity quantity } else c }, [])
      else ({ r with required := r.required ++ [resolved] }, [d.itemId])
  | _, _ => (r, [])

/-- What the outer loop goes on with. -/
structure Walk where
  result : Resolution
  queue : List ItemId
  visited : List ItemId

def Walk.follow (w : Walk) (d : ItemDependency) : Walk :=
  { w with result := (w.result.follow items listed d).1, queue := w.queue ++ (w.result.follow items listed d).2 }

/-- How far the walk can still go: what is queued, and the known items that have not joined the list. -/
def Walk.ahead (w : Walk) : ℕ := w.queue.length + (items.filter (·.id ∉ w.result.added)).length

theorem itemsByID_some {id : ItemId} {item : CategorisedMasterItem} (h : itemsByID items id = some item) :
    item ∈ items ∧ item.id = id :=
  ⟨List.mem_reverse.1 (List.mem_of_find?_eq_some h), by simpa using List.find?_some h⟩

/-- The companions found are those found before and what is queued. -/
theorem added_follow (r : Resolution) (d : ItemDependency) :
    (r.follow items listed d).1.added = r.added ++ (r.follow items listed d).2 := by
  unfold Resolution.follow
  split
  · dsimp only
    split
    · split <;> simp [Resolution.added]
    · split
      · split <;> simp [Resolution.added]
      · split
        · simp only [Resolution.added, List.map_map, List.append_nil]
          refine List.map_congr_left fun c _ => ?_
          simp only [Function.comp]
          split <;> rfl
        · simp [Resolution.added]
  · simp

/-- What is queued is one known item that has not joined the list before. -/
theorem queued_follow (r : Resolution) (d : ItemDependency) :
    (r.follow items listed d).2 = [] ∨ (r.follow items listed d).2 = [d.itemId] ∧ d.itemId ∉ r.added ∧
      d.itemId ∉ listed ∧ ∃ item ∈ items, item.id = d.itemId := by
  unfold Resolution.follow
  split
  · next companion main hcompanion _ =>
    dsimp only
    split
    · split <;> exact .inl rfl
    · split
      · exact .inl rfl
      next hlisted =>
        split
        · exact .inl rfl
        next hadded => exact .inr ⟨rfl, hadded, hlisted, companion, itemsByID_some items hcompanion⟩
  · exact .inl rfl

theorem ahead_follow (w : Walk) (d : ItemDependency) :
    (w.follow items listed d).ahead items ≤ w.ahead items := by
  simp only [Walk.ahead, Walk.follow, List.length_append, added_follow]
  obtain hq | ⟨hq, hnew, -, item, hitem, hid⟩ := queued_follow items listed w.result d
  · simp [hq]
  · have hlt : (items.filter (·.id ∉ w.result.added ++ [d.itemId])).length <
        (items.filter (·.id ∉ w.result.added)).length := by
      have hsplit : items.filter (·.id ∉ w.result.added ++ [d.itemId]) =
          (items.filter (·.id ∉ w.result.added)).filter (·.id ≠ d.itemId) := by
        rw [List.filter_filter]
        refine List.filter_congr fun i _ => ?_
        simp [and_comm]
      rw [hsplit]
      refine List.length_filter_lt_length_iff_exists.2 ⟨item, List.mem_filter.2 ⟨hitem, ?_⟩, by simp [hid]⟩
      simpa [hid] using hnew
    rw [hq]
    simp only [List.length_singleton]
    omega

theorem ahead_foldl (ds : List ItemDependency) (w : Walk) :
    (ds.foldl (Walk.follow items listed) w).ahead items ≤ w.ahead items := by
  induction ds generalizing w with
  | nil => exact le_rfl
  | cons d ds ih => exact (ih _).trans (ahead_follow items listed w d)

variable (dependencies : List ItemDependency)

/-- `byMain`: the edges of a main, in their order. -/
def byMain (main : ItemId) : List ItemDependency := dependencies.filter (·.dependsOnItemId = main)

/-- The outer loop. -/
def walk (w : Walk) : Walk :=
  match _hq : w.queue with
  | [] => w
  | main :: rest =>
    if main ∈ w.visited then walk { w with queue := rest }
    else walk ((byMain dependencies main).foldl (Walk.follow items listed)
      { w with queue := rest, visited := w.visited ++ [main] })
termination_by w.ahead items
decreasing_by
  · simp only [Walk.ahead, _hq, List.length_cons]
    omega
  · refine (ahead_foldl items listed _ _).trans_lt ?_
    simp only [Walk.ahead, _hq, List.length_cons]
    omega

end

/-- The items on the list that a list row names. -/
def explicitIds (onList : List (Option ItemId)) : List ItemId :=
  Insertion.ofList ((onList.filterMap id).filter (·.text ≠ ""))

/-- `resolveDependencies`. Of a row on the list it reads the item alone. -/
def resolveDependencies (items : List CategorisedMasterItem) (dependencies : List ItemDependency)
    (onList : List (Option ItemId)) : Resolution :=
  (walk items (explicitIds onList) dependencies ⟨.empty, explicitIds onList, []⟩).result

/-! ## What the edges do -/

/-- The edge counts: both of its items are known. -/
def ItemDependency.counts (items : List CategorisedMasterItem) (d : ItemDependency) : Bool :=
  (itemsByID items d.itemId).isSome && (itemsByID items d.dependsOnItemId).isSome

/-- The edge requires its item. -/
def ItemDependency.Pulls (items : List CategorisedMasterItem) (d : ItemDependency) : Prop :=
  d.mode = .required ∧ d.counts items = true

/-- The edge suggests its item. -/
def ItemDependency.Offers (items : List CategorisedMasterItem) (d : ItemDependency) : Prop :=
  d.mode = .suggested ∧ d.counts items = true

instance (items : List CategorisedMasterItem) (d : ItemDependency) : Decidable (d.Pulls items) :=
  inferInstanceAs (Decidable (_ ∧ _))

instance (items : List CategorisedMasterItem) (d : ItemDependency) : Decidable (d.Offers items) :=
  inferInstanceAs (Decidable (_ ∧ _))

/-- The resolution after a list of edges. -/
def follows (items : List CategorisedMasterItem) (listed : List ItemId) (ds : List ItemDependency) : Resolution :=
  ds.foldl (fun r d => (r.follow items listed d).1) .empty

/-- The quantities that required edges ask of an item. -/
def asked (items : List CategorisedMasterItem) (ds : List ItemDependency) (x : ItemId) : Set ℕ :=
  {q | ∃ d ∈ ds, d.Pulls items ∧ d.itemId = x ∧ q = computeQuantity d.quantity}

section
variable {items : List CategorisedMasterItem} {listed : List ItemId} {r : Resolution} {d : ItemDependency}
variable {ds : List ItemDependency} {x : ItemId} {c : ResolvedCompanion}

theorem follow_of_not_counts (h : d.counts items = false) : r.follow items listed d = (r, []) := by
  simp only [ItemDependency.counts, Bool.and_eq_false_iff, Option.isSome_eq_false_iff, Option.isNone_iff_eq_none] at h
  unfold Resolution.follow
  obtain h | h := h
  · rw [h]
  · rw [h]
    cases itemsByID items d.itemId <;> rfl

theorem counts_iff : d.counts items = true ↔
    ∃ companion main, itemsByID items d.itemId = some companion ∧ itemsByID items d.dependsOnItemId = some main := by
  simp [ItemDependency.counts, Option.isSome_iff_exists]

theorem queue_follow : (r.follow items listed d).2 =
    if d.Pulls items ∧ d.itemId ∉ listed ∧ d.itemId ∉ r.added then [d.itemId] else [] := by
  cases hc : d.counts items with
  | false => simp [follow_of_not_counts hc, ItemDependency.Pulls, hc]
  | true =>
    obtain ⟨companion, main, hcompanion, hmain⟩ := counts_iff.1 hc
    simp only [Resolution.follow, hcompanion, hmain, ItemDependency.Pulls, hc]
    cases hm : d.mode with
    | suggested =>
      simp only [reduceCtorEq, false_and, if_false]
      split <;> rfl
    | required =>
      by_cases hl : d.itemId ∈ listed
      · simp [hl]
      · by_cases ha : d.itemId ∈ r.added <;> simp [hl, ha]

theorem offered_follow : (r.follow items listed d).1.offered =
    if d.Offers items ∧ d.itemId ∉ listed ∧ d.itemId ∉ r.added ∧ d.itemId ∉ r.offered then r.offered ++ [d.itemId]
    else r.offered := by
  cases hc : d.counts items with
  | false => simp [follow_of_not_counts hc, ItemDependency.Offers, hc]
  | true =>
    obtain ⟨companion, main, hcompanion, hmain⟩ := counts_iff.1 hc
    simp only [Resolution.follow, hcompanion, hmain, ItemDependency.Offers, hc]
    cases hm : d.mode with
    | suggested =>
      simp only [true_and]
      split
      · simp [Resolution.offered]
      · rfl
    | required =>
      simp only [reduceCtorEq, false_and, if_false]
      split
      · split <;> rfl
      · split <;> rfl

/-- A companion after an edge is one from before, asked for more at most, or the new one. -/
theorem mem_required_follow (h : c ∈ (r.follow items listed d).1.required) :
    (d.Pulls items ∧ d.itemId ∉ listed ∧ c.itemId = d.itemId ∧ d.itemId ∉ r.added ∧
        c.quantity = computeQuantity d.quantity) ∨
      ∃ c' ∈ r.required, c'.itemId = c.itemId ∧ c.quantity =
        if d.Pulls items ∧ d.itemId ∉ listed ∧ c.itemId = d.itemId then max c'.quantity (computeQuantity d.quantity)
        else c'.quantity := by
  cases hc : d.counts items with
  | false =>
    rw [follow_of_not_counts hc] at h
    exact .inr ⟨c, h, rfl, by simp [ItemDependency.Pulls, hc]⟩
  | true =>
    obtain ⟨companion, main, hcompanion, hmain⟩ := counts_iff.1 hc
    simp only [Resolution.follow, hcompanion, hmain] at h
    simp only [ItemDependency.Pulls, hc]
    cases hm : d.mode with
    | suggested =>
      refine .inr ⟨c, ?_, rfl, by simp⟩
      simp only [hm] at h
      split at h <;> exact h
    | required =>
      simp only [hm] at h
      split at h
      · next hl =>
        refine .inr ⟨c, ?_, rfl, by simp [hl]⟩
        split at h <;> exact h
      next hl =>
      split at h
      · next ha =>
        obtain ⟨c', hc', rfl⟩ := List.mem_map.1 h
        refine .inr ⟨c', hc', by split <;> rfl, ?_⟩
        by_cases he : c'.itemId = d.itemId <;> simp [he, hl]
      · next ha =>
        obtain h | h := List.mem_append.1 h
        · refine .inr ⟨c, h, rfl, ?_⟩
          have hne : c.itemId ≠ d.itemId := fun he => ha (he ▸ List.mem_map_of_mem h)
          simp [hne]
        · obtain rfl := List.mem_singleton.1 h
          exact .inl ⟨by simp, hl, rfl, ha, rfl⟩

theorem follows_append_singleton :
    follows items listed (ds ++ [d]) = ((follows items listed ds).follow items listed d).1 := by
  simp [follows]

/-- An item joins the list if it is not on it and some edge requires it. -/
theorem mem_added_follows :
    x ∈ (follows items listed ds).added ↔ x ∉ listed ∧ ∃ d ∈ ds, d.Pulls items ∧ d.itemId = x := by
  induction ds using List.reverseRecOn with
  | nil => simp [follows, Resolution.empty, Resolution.added]
  | append_singleton ds d ih =>
    rw [follows_append_singleton, added_follow, queue_follow, List.mem_append, ih]
    constructor
    · rintro (⟨hx, d', hd', h⟩ | h)
      · exact ⟨hx, d', List.mem_append_left _ hd', h⟩
      · split at h
        · next hd =>
          obtain rfl := List.mem_singleton.1 h
          exact ⟨hd.2.1, d, by simp, hd.1, rfl⟩
        · cases h
    · rintro ⟨hx, d', hd', hpulls, rfl⟩
      obtain hd' | hd' := List.mem_append.1 hd'
      · exact .inl ⟨hx, d', hd', hpulls, rfl⟩
      · obtain rfl := List.mem_singleton.1 hd'
        by_cases hadded : d'.itemId ∈ (follows items listed ds).added
        · exact .inl (ih.1 hadded)
        · rw [if_pos ⟨hpulls, hx, hadded⟩]
          exact .inr (List.mem_singleton_self _)

theorem nodup_added_follows : (follows items listed ds).added.Nodup := by
  induction ds using List.reverseRecOn with
  | nil => exact List.nodup_nil
  | append_singleton ds d ih =>
    rw [follows_append_singleton, added_follow, queue_follow]
    split
    · next h => exact ih.append (List.nodup_singleton _) (by simpa using h.2.2)
    · simpa using ih

theorem nodup_offered_follows : (follows items listed ds).offered.Nodup := by
  induction ds using List.reverseRecOn with
  | nil => exact List.nodup_nil
  | append_singleton ds d ih =>
    rw [follows_append_singleton, offered_follow]
    split
    · next h => exact ih.append (List.nodup_singleton _) (by simpa using h.2.2.2)
    · exact ih

/-- A companion is asked for as often as the edge that asks for it most often. -/
theorem quantity_follows (h : c ∈ (follows items listed ds).required) :
    IsGreatest (asked items ds c.itemId) c.quantity := by
  induction ds using List.reverseRecOn generalizing c with
  | nil => cases h
  | append_singleton ds d ih =>
    rw [follows_append_singleton] at h
    have hasked (q : ℕ) : q ∈ asked items (ds ++ [d]) c.itemId ↔
        q ∈ asked items ds c.itemId ∨ d.Pulls items ∧ d.itemId = c.itemId ∧ q = computeQuantity d.quantity := by
      simp [asked, or_and_right, exists_or]
    obtain ⟨hpulls, hlisted, hid, hnew, hq⟩ | ⟨c', hc', hid, hq⟩ := mem_required_follow h
    · have hnone (q : ℕ) : q ∉ asked items ds c.itemId := by
        rintro ⟨d', hd', hp, hx, -⟩
        exact hnew (mem_added_follows.2 ⟨hlisted, d', hd', hp, hx.trans hid⟩)
      refine ⟨(hasked _).2 (.inr ⟨hpulls, hid.symm, hq⟩), fun q hq' => ?_⟩
      obtain hq' | hq' := (hasked q).1 hq'
      · exact absurd hq' (hnone q)
      · rw [hq, hq'.2.2]
    · obtain ⟨hmem, hmax⟩ := hid ▸ ih hc'
      by_cases hd : d.Pulls items ∧ d.itemId ∉ listed ∧ c.itemId = d.itemId
      · rw [if_pos hd] at hq
        constructor
        · rw [hasked, hq]
          obtain hle | hle := max_choice c'.quantity (computeQuantity d.quantity)
          · rw [hle]
            exact .inl hmem
          · rw [hle]
            exact .inr ⟨hd.1, hd.2.2.symm, rfl⟩
        · intro q hq'
          rw [hq]
          obtain hq' | ⟨-, -, rfl⟩ := (hasked q).1 hq'
          · exact le_max_of_le_left (hmax hq')
          · exact le_max_right _ _
      · rw [if_neg hd] at hq
        rw [hq]
        refine ⟨(hasked _).2 (.inl hmem), fun q hq' => ?_⟩
        obtain hq' | ⟨hpulls, hid', -⟩ := (hasked q).1 hq'
        · exact hmax hq'
        · have hlisted : d.itemId ∉ listed := by
            have hadded : c'.itemId ∈ (follows items listed ds).added := List.mem_map_of_mem hc'
            rw [hid', ← hid]
            exact (mem_added_follows.1 hadded).1
          exact absurd ⟨hpulls, hlisted, hid'.symm⟩ hd

/-- An item is offered if it is not on the list and an edge suggests it before any requires it. -/
theorem mem_offered_follows : x ∈ (follows items listed ds).offered ↔
    x ∉ listed ∧ ∃ before d after, ds = before ++ d :: after ∧ d.Offers items ∧ d.itemId = x ∧
      ∀ d' ∈ before, ¬ (d'.Pulls items ∧ d'.itemId = x) := by
  induction ds using List.reverseRecOn with
  | nil => simp [follows, Resolution.empty, Resolution.offered]
  | append_singleton ds d ih =>
    rw [follows_append_singleton, offered_follow]
    constructor
    · intro h
      have hold (h : x ∈ (follows items listed ds).offered) : x ∉ listed ∧ ∃ before d' after,
          ds ++ [d] = before ++ d' :: after ∧ d'.Offers items ∧ d'.itemId = x ∧
            ∀ d' ∈ before, ¬ (d'.Pulls items ∧ d'.itemId = x) := by
        obtain ⟨hx, before, d', after, rfl, hrest⟩ := ih.1 h
        exact ⟨hx, before, d', after ++ [d], by simp, hrest⟩
      split at h
      · next hd =>
        obtain h | h := List.mem_append.1 h
        · exact hold h
        · obtain rfl := List.mem_singleton.1 h
          refine ⟨hd.2.1, ds, d, [], rfl, hd.1, rfl, fun d' hd' hp => hd.2.2.1 ?_⟩
          exact mem_added_follows.2 ⟨hd.2.1, d', hd', hp⟩
      · exact hold h
    · rintro ⟨hx, before, d', after, heq, hoffers, rfl, hbefore⟩
      by_cases hin : d'.itemId ∈ (follows items listed ds).offered
      · split
        · exact List.mem_append_left _ hin
        · exact hin
      obtain rfl | ⟨after, last, rfl⟩ := List.eq_nil_or_concat' after
      · obtain ⟨rfl, hd⟩ := List.append_inj' heq rfl
        cases hd
        have hadded : d.itemId ∉ (follows items listed ds).added := fun h => by
          obtain ⟨-, d', hd', hp⟩ := mem_added_follows.1 h
          exact hbefore d' hd' hp
        rw [if_pos ⟨hoffers, hx, hadded, hin⟩]
        simp
      · rw [← List.cons_append, ← List.append_assoc] at heq
        obtain ⟨rfl, -⟩ := List.append_inj' heq rfl
        exact absurd (ih.2 ⟨hx, before, d', after, rfl, hoffers, rfl, hbefore⟩) hin

/-- A companion is found by the first edge that requires it. -/
theorem added_split {before after : List ItemId} (h : (follows items listed ds).added = before ++ x :: after) :
    ∃ ds₁ d ds₂, ds = ds₁ ++ d :: ds₂ ∧ d.Pulls items ∧ d.itemId = x ∧ (follows items listed ds₁).added = before := by
  induction ds using List.reverseRecOn generalizing after with
  | nil => simp [follows, Resolution.empty, Resolution.added] at h
  | append_singleton ds d ih =>
    rw [follows_append_singleton, added_follow, queue_follow] at h
    have hold {after} (h : (follows items listed ds).added = before ++ x :: after) : ∃ ds₁ d' ds₂,
        ds ++ [d] = ds₁ ++ d' :: ds₂ ∧ d'.Pulls items ∧ d'.itemId = x ∧
          (follows items listed ds₁).added = before := by
      obtain ⟨ds₁, d', ds₂, rfl, hrest⟩ := ih h
      exact ⟨ds₁, d', ds₂ ++ [d], by simp, hrest⟩
    split at h
    · next hd =>
      obtain rfl | ⟨after, last, rfl⟩ := List.eq_nil_or_concat' after
      · obtain ⟨hadded, hx⟩ := List.append_inj' h rfl
        exact ⟨ds, d, [], rfl, hd.1, List.singleton_inj.1 hx, hadded⟩
      · rw [← List.cons_append, ← List.append_assoc] at h
        exact hold (List.append_inj' h rfl).1
    · exact hold (by simpa using h)

end

/-! ## The run -/

/-- An edge requires the item `x` of the item `m`. -/
def Requires (items : List CategorisedMasterItem) (ds : List ItemDependency) (m x : ItemId) : Prop :=
  ∃ d ∈ ds, d.Pulls items ∧ d.dependsOnItemId = m ∧ d.itemId = x

/-- The walk goes through the items on the list and the companions it finds, in this order, and its result is that of
the edges of what it has visited. -/
structure Walk.Ordered (items : List CategorisedMasterItem) (listed : List ItemId) (ds : List ItemDependency)
    (w : Walk) : Prop where
  order : w.visited ++ w.queue = listed ++ w.result.added
  result : w.result = follows items listed (w.visited.flatMap (byMain ds))
  reached : ∀ x ∈ w.result.added, ∃ n, Digraph.Within (Requires items ds) (· ∈ listed) n x

section
variable {items : List CategorisedMasterItem} {listed : List ItemId} {ds : List ItemDependency} {w : Walk}

variable (items listed) in
theorem foldl_follow (es : List ItemDependency) (w : Walk) :
    (es.foldl (Walk.follow items listed) w).visited = w.visited ∧
      (es.foldl (Walk.follow items listed) w).result = es.foldl (fun r d => (r.follow items listed d).1) w.result ∧
      ∃ new, (es.foldl (Walk.follow items listed) w).queue = w.queue ++ new ∧
        (es.foldl (Walk.follow items listed) w).result.added = w.result.added ++ new := by
  induction es generalizing w with
  | nil => exact ⟨rfl, rfl, [], by simp, by simp⟩
  | cons d es ih =>
    obtain ⟨hvisited, hresult, new, hqueue, hadded⟩ := ih (w.follow items listed d)
    refine ⟨hvisited, hresult, (w.result.follow items listed d).2 ++ new, ?_, ?_⟩
    · rw [List.foldl_cons, hqueue, Walk.follow, List.append_assoc]
    · rw [List.foldl_cons, hadded, Walk.follow, added_follow, List.append_assoc]

/-- The order of the visits repeats nothing. -/
theorem nodup_order (hlisted : listed.Nodup) (es : List ItemDependency) :
    (listed ++ (follows items listed es).added).Nodup :=
  hlisted.append nodup_added_follows fun _ hx hx' => (mem_added_follows.1 hx').1 hx

/-- A visit keeps the order. -/
theorem Walk.Ordered.visit {main : ItemId} {rest : List ItemId} (h : w.Ordered items listed ds)
    (hq : w.queue = main :: rest) :
    ((byMain ds main).foldl (Walk.follow items listed)
      { w with queue := rest, visited := w.visited ++ [main] }).Ordered items listed ds := by
  obtain ⟨hvisited, hresult, new, hqueue, hadded⟩ := foldl_follow items listed (byMain ds main)
    { w with queue := rest, visited := w.visited ++ [main] }
  have hfollows : ((byMain ds main).foldl (Walk.follow items listed)
      { w with queue := rest, visited := w.visited ++ [main] }).result =
        follows items listed ((w.visited ++ [main]).flatMap (byMain ds)) := by
    rw [hresult, h.result, List.flatMap_append]
    simp [follows]
  refine ⟨?_, ?_, fun x hx => ?_⟩
  · rw [hvisited, hqueue, hadded, ← List.append_assoc, ← List.append_assoc, ← h.order, hq]
    simp
  · rw [hvisited]
    exact hfollows
  · rw [hfollows] at hx
    obtain ⟨hlisted, d, hd, hpulls, hid⟩ := mem_added_follows.1 hx
    rw [List.flatMap_append, List.mem_append] at hd
    obtain hd | hd := hd
    · exact h.reached x (h.result ▸ mem_added_follows.2 ⟨hlisted, d, hd, hpulls, hid⟩)
    · obtain ⟨hds, hmain⟩ := List.mem_filter.1 (show d ∈ byMain ds main by simpa using hd)
      have hstep : Requires items ds main x := ⟨d, hds, hpulls, by simpa using hmain, hid⟩
      have hmem : main ∈ listed ++ w.result.added := h.order ▸ hq ▸ by simp
      obtain hmem | hmem := List.mem_append.1 hmem
      · exact ⟨1, .inr ⟨main, hmem, hstep⟩⟩
      · obtain ⟨n, hn⟩ := h.reached main hmem
        exact ⟨n + 1, .inr ⟨main, hn, hstep⟩⟩

/-- The whole walk. -/
theorem walk_ordered (hlisted : listed.Nodup) (h : w.Ordered items listed ds) :
    (walk items listed ds w).Ordered items listed ds ∧ (walk items listed ds w).queue = [] := by
  fun_induction walk items listed ds w with
  | case1 w hq => exact ⟨h, hq⟩
  | case2 w main rest hq hvisited ih =>
    -- Nothing is queued twice.
    have hnodup : (listed ++ (follows items listed (w.visited.flatMap (byMain ds))).added).Nodup :=
      nodup_order hlisted _
    rw [← h.result, ← h.order, hq] at hnodup
    exact absurd rfl ((List.nodup_append.1 hnodup).2.2 main hvisited main List.mem_cons_self)
  | case3 w main rest hq hvisited ih => exact ih (h.visit hq)

end

section
variable {items : List CategorisedMasterItem} {ds : List ItemDependency} {onList : List (Option ItemId)}

theorem nodup_explicitIds (onList : List (Option ItemId)) : (explicitIds onList).Nodup := Insertion.nodup_ofList _

/-- The items in the order in which the run visits them. -/
def visits (items : List CategorisedMasterItem) (ds : List ItemDependency) (onList : List (Option ItemId)) :
    List ItemId :=
  explicitIds onList ++ (resolveDependencies items ds onList).added

/-- The item is reached from the list over at most `n` required edges. -/
def Near (items : List CategorisedMasterItem) (ds : List ItemDependency) (onList : List (Option ItemId)) (n : ℕ)
    (x : ItemId) : Prop :=
  Digraph.Within (Requires items ds) (· ∈ explicitIds onList) n x

/-- The run is the fold over the edges of the items on the list and of the companions that it finds, which are reached
from the list. -/
theorem resolve_run : resolveDependencies items ds onList =
    follows items (explicitIds onList) ((visits items ds onList).flatMap (byMain ds)) ∧
      ∀ x ∈ (resolveDependencies items ds onList).added, ∃ n, Near items ds onList n x := by
  have hstart : Walk.Ordered items (explicitIds onList) ds ⟨.empty, explicitIds onList, []⟩ :=
    ⟨by simp [Resolution.empty, Resolution.added], rfl, by simp [Resolution.empty, Resolution.added]⟩
  obtain ⟨h, hq⟩ := walk_ordered (nodup_explicitIds onList) hstart
  have horder := h.order
  rw [hq, List.append_nil] at horder
  have hresult := h.result
  rw [horder] at hresult
  exact ⟨hresult, h.reached⟩

theorem nodup_visits : (visits items ds onList).Nodup := by
  unfold visits
  rw [resolve_run.1]
  exact nodup_order (nodup_explicitIds onList) _

/-- The edges that the run follows are those of the items it visits. -/
theorem mem_edges {d : ItemDependency} :
    d ∈ (visits items ds onList).flatMap (byMain ds) ↔ d ∈ ds ∧ d.dependsOnItemId ∈ visits items ds onList := by
  simp only [List.mem_flatMap, byMain, List.mem_filter, decide_eq_true_eq]
  constructor
  · rintro ⟨m, hm, hd, rfl⟩
    exact ⟨hd, hm⟩
  · rintro ⟨hd, hm⟩
    exact ⟨_, hm, hd, rfl⟩

theorem mains_of_visits : ∀ m ∈ visits items ds onList, ∀ d ∈ byMain ds m, d.dependsOnItemId = m :=
  fun _ _ _ hd => of_decide_eq_true (List.mem_filter.1 hd).2

theorem mem_added {x : ItemId} : x ∈ (resolveDependencies items ds onList).added ↔
    x ∉ explicitIds onList ∧ ∃ m ∈ visits items ds onList, Requires items ds m x := by
  rw [resolve_run.1, mem_added_follows]
  refine and_congr_right fun _ => ⟨?_, ?_⟩
  · rintro ⟨d, hd, hpulls, hid⟩
    exact ⟨d.dependsOnItemId, (mem_edges.1 hd).2, d, (mem_edges.1 hd).1, hpulls, rfl, hid⟩
  · rintro ⟨m, hm, d, hd, hpulls, rfl, hid⟩
    exact ⟨d, mem_edges.2 ⟨hd, hm⟩, hpulls, hid⟩

/-- The run visits what can be reached. -/
theorem mem_visits {x : ItemId} : x ∈ visits items ds onList ↔ ∃ n, Near items ds onList n x := by
  constructor
  · intro hx
    obtain hx | hx := List.mem_append.1 hx
    · exact ⟨0, hx⟩
    · exact resolve_run.2 x hx
  · rintro ⟨n, h⟩
    induction n generalizing x with
    | zero => exact List.mem_append_left _ h
    | succ n ih =>
      obtain h | ⟨m, hm, hmx⟩ := h
      · exact ih h
      · by_cases hx : x ∈ explicitIds onList
        · exact List.mem_append_left _ hx
        · exact List.mem_append_right _ (mem_added.2 ⟨hx, m, ih hm, hmx⟩)

/-! ## The order of the visits -/

/-- What the fold over the first edges finds. -/
theorem first_parent {u x : ItemId} (h : Insertion.Before (visits items ds onList) u x)
    (hu : u ∉ explicitIds onList) (hne : u ≠ x) : ∃ ds₁ d ds₂,
      (visits items ds onList).flatMap (byMain ds) = ds₁ ++ d :: ds₂ ∧
      (∃ d' ∈ ds₁, d'.Pulls items ∧ d'.itemId = u) ∧ ∀ d' ∈ ds₁, ¬ (d'.Pulls items ∧ d'.itemId = x) := by
  have hadded := h.second hu
  obtain ⟨pre, post, heq, hx⟩ := id hadded
  obtain ⟨mid, post, rfl⟩ := List.append_of_mem (List.mem_of_ne_of_mem (Ne.symm hne) hx)
  have hrun : resolveDependencies items ds onList = _ := resolve_run.1
  have heq' : (follows items (explicitIds onList) ((visits items ds onList).flatMap (byMain ds))).added =
      (pre ++ u :: mid) ++ x :: post := by
    rw [← hrun, heq]
    simp
  obtain ⟨ds₁, d, ds₂, hsplit, -, -, hbefore⟩ := added_split heq'
  refine ⟨ds₁, d, ds₂, hsplit, ?_, fun d' hd' hpulls => ?_⟩
  · exact (mem_added_follows.1 (hbefore ▸ by simp : u ∈ (follows items (explicitIds onList) ds₁).added)).2
  · have hlisted : x ∉ explicitIds onList := by
      have hx' : x ∈ (resolveDependencies items ds onList).added := hadded.right_mem
      exact (mem_added.1 hx').1
    have hx' : x ∈ pre ++ u :: mid := hbefore ▸ mem_added_follows.2 ⟨hlisted, d', hd', hpulls⟩
    have hnodup : ((pre ++ u :: mid) ++ x :: post).Nodup := heq' ▸ nodup_added_follows
    exact (List.nodup_append.1 hnodup).2.2 x hx' x List.mem_cons_self rfl

/-- **The visits go outwards**: an item that is visited before another is no farther from the list. -/
theorem near_of_before {n : ℕ} {u x : ItemId} (h : Insertion.Before (visits items ds onList) u x)
    (hx : Near items ds onList n x) : Near items ds onList n u := by
  induction n generalizing u x with
  | zero =>
    refine h.mem_first fun hadded => ?_
    exact (mem_added.1 hadded).1 hx
  | succ n ih =>
    obtain hx | ⟨p, hp, d, hd, hpulls, rfl, hid⟩ := hx
    · exact .inl (ih h hx)
    by_cases hu : u ∈ explicitIds onList
    · exact Digraph.Within.mono (n := 0) hu (Nat.zero_le _)
    by_cases hne : u = x
    · exact .inr ⟨_, hp, d, hd, hpulls, rfl, hid.trans hne.symm⟩
    obtain ⟨ds₁, d₁, ds₂, hsplit, ⟨d', hd', hpulls', hid'⟩, hnone⟩ := first_parent h hu hne
    -- The edge that finds `u` comes before any edge to `x`, so its main is visited no later than that of `d`.
    have hmem : d ∈ ds₁ ++ d₁ :: ds₂ := hsplit ▸ mem_edges.2 ⟨hd, mem_visits.2 ⟨n, hp⟩⟩
    have hlate : d ∈ d₁ :: ds₂ := (List.mem_append.1 hmem).resolve_left fun hearly => hnone d hearly ⟨hpulls, hid⟩
    have hbefore := Insertion.before_of_flatMap mains_of_visits hsplit hd' hlate
    have hds' : d' ∈ ds := (mem_edges.1 (hsplit ▸ List.mem_append_left _ hd')).1
    exact .inr ⟨_, ih hbefore hp, d', hds', hpulls', rfl, hid'⟩

/-! ## What a list brings along -/

/-- A list is resolved: what joins it is what it requires and does not have, each once and as often as it is asked for
most, and nothing is offered that is on the list or joins it. -/
structure Resolved (items : List CategorisedMasterItem) (ds : List ItemDependency) (onList : List (Option ItemId))
    (r : Resolution) : Prop where
  required : ∀ x, x ∈ r.added ↔ x ∉ explicitIds onList ∧
    ∃ e ∈ explicitIds onList, Relation.ReflTransGen (Requires items ds) e x
  once : r.added.Nodup
  quantity : ∀ c ∈ r.required, IsGreatest {q | ∃ d ∈ ds, d.Pulls items ∧ d.itemId = c.itemId ∧
    (d.dependsOnItemId ∈ explicitIds onList ∨ d.dependsOnItemId ∈ r.added) ∧ q = computeQuantity d.quantity} c.quantity
  disjoint : ∀ x ∈ r.offered, x ∉ explicitIds onList ∧ x ∉ r.added

theorem mem_added_iff_reached {x : ItemId} : x ∈ (resolveDependencies items ds onList).added ↔
    x ∉ explicitIds onList ∧ ∃ n, Near items ds onList n x := by
  rw [← mem_visits]
  constructor
  · intro h
    exact ⟨(mem_added.1 h).1, List.mem_append_right _ h⟩
  · rintro ⟨hx, h⟩
    exact (List.mem_append.1 h).resolve_left hx

theorem quantity_resolve {c : ResolvedCompanion} (h : c ∈ (resolveDependencies items ds onList).required) :
    IsGreatest {q | ∃ d ∈ ds, d.Pulls items ∧ d.itemId = c.itemId ∧ (d.dependsOnItemId ∈ explicitIds onList ∨
      d.dependsOnItemId ∈ (resolveDependencies items ds onList).added) ∧ q = computeQuantity d.quantity}
      c.quantity := by
  have hset : {q | ∃ d ∈ ds, d.Pulls items ∧ d.itemId = c.itemId ∧ (d.dependsOnItemId ∈ explicitIds onList ∨
      d.dependsOnItemId ∈ (resolveDependencies items ds onList).added) ∧ q = computeQuantity d.quantity} =
      asked items ((visits items ds onList).flatMap (byMain ds)) c.itemId := by
    ext q
    constructor
    · rintro ⟨d, hd, hpulls, hid, hmain, hq⟩
      exact ⟨d, mem_edges.2 ⟨hd, List.mem_append.2 hmain⟩, hpulls, hid, hq⟩
    · rintro ⟨d, hd, hpulls, hid, hq⟩
      exact ⟨d, (mem_edges.1 hd).1, hpulls, hid, List.mem_append.1 (mem_edges.1 hd).2, hq⟩
  rw [hset]
  rw [resolve_run.1] at h
  exact quantity_follows h

/-- What a run offers, some edge that it follows suggests, and no edge before that requires it. -/
theorem mem_offered {x : ItemId} : x ∈ (resolveDependencies items ds onList).offered ↔ x ∉ explicitIds onList ∧
    ∃ before d after, (visits items ds onList).flatMap (byMain ds) = before ++ d :: after ∧ d.Offers items ∧
      d.itemId = x ∧ ∀ d' ∈ before, ¬ (d'.Pulls items ∧ d'.itemId = x) := by
  rw [resolve_run.1]
  exact mem_offered_follows

/-- No suggestion reaches an item earlier than a requirement does: where an edge suggests an item that the list
requires, the item is no farther from the list than the main of the edge. -/
def NoEarlyOffer (items : List CategorisedMasterItem) (ds : List ItemDependency) (onList : List (Option ItemId)) :
    Prop :=
  ∀ d ∈ ds, d.Offers items → (∃ n, Near items ds onList n d.itemId) →
    ∀ n, Near items ds onList n d.dependsOnItemId → Near items ds onList n d.itemId

/-- Nothing is offered and required if no suggestion is early. -/
theorem resolved_of_noEarlyOffer (h : NoEarlyOffer items ds onList) :
    Resolved items ds onList (resolveDependencies items ds onList) where
  required x := by rw [mem_added_iff_reached, ← Digraph.exists_within_iff]; rfl
  once := by
    rw [resolve_run.1]
    exact nodup_added_follows
  quantity c hc := quantity_resolve hc
  disjoint x hx := by
    obtain ⟨hlisted, before, d, after, hsplit, hoffers, rfl, hnone⟩ := mem_offered.1 hx
    refine ⟨hlisted, fun hadded => ?_⟩
    have hreached := (mem_added_iff_reached.1 hadded).2
    have hd := mem_edges.1 (hsplit ▸ by simp : d ∈ (visits items ds onList).flatMap (byMain ds))
    -- The last item before `x` on a shortest way is visited no earlier than the main of the suggestion.
    obtain ⟨n, hn⟩ := hreached
    obtain ⟨k, -, hk⟩ := Digraph.exists_at hn
    cases k with
    | zero => exact hlisted hk.1
    | succ k =>
      obtain ⟨p, hp, d', hd', hpulls, rfl, hid⟩ := hk.pred
      have hmem : d' ∈ before ++ d :: after := hsplit ▸ mem_edges.2 ⟨hd', mem_visits.2 ⟨k, hp.1⟩⟩
      have hlate : d' ∈ d :: after := (List.mem_append.1 hmem).resolve_left fun he => hnone d' he ⟨hpulls, hid⟩
      obtain rfl | hafter := List.mem_cons.1 hlate
      · exact absurd (hpulls.1.symm.trans hoffers.1) (by simp)
      have hsplit' : (visits items ds onList).flatMap (byMain ds) = (before ++ [d]) ++ after := by simp [hsplit]
      have hbefore := Insertion.before_of_flatMap mains_of_visits hsplit'
        (List.mem_append_right before (List.mem_singleton_self d)) hafter
      exact hk.2 k (Nat.lt_succ_self k) (h d hd.1 hoffers ⟨_, hk.1⟩ k (near_of_before hbefore hp.1))

/-! ## An early suggestion -/

/-- A shortest way from the item `e` on the list to the item at its end. -/
inductive Way (items : List CategorisedMasterItem) (ds : List ItemDependency) (onList : List (Option ItemId))
    (e : ItemId) : ℕ → ItemId → List ItemDependency → Prop where
  | start (h : e ∈ explicitIds onList) : Way items ds onList e 0 e []
  | step {n path d} (way : Way items ds onList e n d.dependsOnItemId path) (hd : d ∈ ds) (hpulls : d.Pulls items)
      (hat : Digraph.At (Requires items ds) (· ∈ explicitIds onList) (n + 1) d.itemId) :
      Way items ds onList e (n + 1) d.itemId (path ++ [d])

theorem exists_way {n : ℕ} {x : ItemId} (h : Digraph.At (Requires items ds) (· ∈ explicitIds onList) n x) :
    ∃ e path, Way items ds onList e n x path := by
  induction n generalizing x with
  | zero => exact ⟨x, [], .start h.1⟩
  | succ n ih =>
    obtain ⟨m, hm, d, hd, hpulls, rfl, rfl⟩ := h.pred
    obtain ⟨e, path, way⟩ := ih hm
    exact ⟨e, path ++ [d], .step way hd hpulls h⟩

section
variable {e x : ItemId} {n : ℕ} {path rest : List ItemDependency} {d : ItemDependency}

theorem Way.at (h : Way items ds onList e n x path) :
    Digraph.At (Requires items ds) (· ∈ explicitIds onList) n x := by
  cases h with
  | start h => exact ⟨h, nofun⟩
  | step _ _ _ hat => exact hat

theorem Way.explicit (h : Way items ds onList e n x path) : e ∈ explicitIds onList := by
  induction h with
  | start h => exact h
  | step _ _ _ _ ih => exact ih

/-- The edges of a way are required ones, and each is one step farther than the last. -/
theorem Way.edges (h : Way items ds onList e n x path) : path.Nodup ∧ ∀ d ∈ path, d ∈ ds ∧ d.Pulls items ∧
    ∃ k < n, Digraph.At (Requires items ds) (· ∈ explicitIds onList) k d.dependsOnItemId ∧
      Digraph.At (Requires items ds) (· ∈ explicitIds onList) (k + 1) d.itemId := by
  induction h with
  | start => simp
  | @step n path d way hd hpulls hat ih =>
    obtain ⟨hnodup, hall⟩ := ih
    refine ⟨hnodup.append (List.nodup_singleton d) ?_, fun d' hd' => ?_⟩
    · rw [List.disjoint_singleton]
      intro hmem
      obtain ⟨-, -, k, hk, -, hk'⟩ := hall d hmem
      exact hat.2 (k + 1) (by omega) hk'.1
    · obtain hd' | hd' := List.mem_append.1 hd'
      · obtain ⟨hds, hp, k, hk, hrest⟩ := hall d' hd'
        exact ⟨hds, hp, k, hk.trans (Nat.lt_succ_self n), hrest⟩
      · obtain rfl := List.mem_singleton.1 hd'
        exact ⟨hd, hpulls, n, Nat.lt_succ_self n, way.at, hat⟩

/-- If the edges of a way come first, the first edge of the item at its end is the one after them. -/
theorem Way.byMain_end (h : Way items ds onList e n d.dependsOnItemId path) (hds : ds = path ++ d :: rest) :
    ∃ others, byMain ds d.dependsOnItemId = d :: others := by
  have hnone : path.filter (·.dependsOnItemId = d.dependsOnItemId) = [] := by
    refine List.filter_eq_nil_iff.2 fun d' hd' hmain => ?_
    obtain ⟨-, -, k, hk, hat, -⟩ := h.edges.2 d' hd'
    exact h.at.2 k hk (of_decide_eq_true hmain ▸ hat.1)
  refine ⟨rest.filter (·.dependsOnItemId = d.dependsOnItemId), ?_⟩
  subst hds
  simp [byMain, hnone]

/-- The edges that the run follows before it comes to the first one of an item. -/
theorem edges_split (hx : x ∈ visits items ds onList) {others : List ItemDependency} (hfirst : byMain ds x = d :: others) :
    ∃ pre post first last, visits items ds onList = pre ++ x :: post ∧
      (visits items ds onList).flatMap (byMain ds) = first ++ d :: last ∧
      ∀ d' ∈ first, d' ∈ ds ∧ d'.dependsOnItemId ∈ pre := by
  obtain ⟨pre, post, hsplit⟩ := List.append_of_mem hx
  refine ⟨pre, post, pre.flatMap (byMain ds), others ++ post.flatMap (byMain ds), hsplit, ?_, fun d' hd' => ?_⟩
  · simp [hsplit, hfirst]
  · obtain ⟨m, hm, hd'⟩ := List.mem_flatMap.1 hd'
    obtain ⟨hds, hmain⟩ := List.mem_filter.1 hd'
    exact ⟨hds, of_decide_eq_true hmain ▸ hm⟩

/-- If a way comes first, in the list and among the edges, the item at its end is visited before all others that are
as far from the list. -/
theorem Way.first (h : Way items ds onList e n x path) (hhead : ∃ others, explicitIds onList = e :: others)
    (hds : ds = path ++ rest) :
    ∀ u ∈ visits items ds onList, (∀ k < n, ¬ Near items ds onList k u) →
      Insertion.Before (visits items ds onList) x u := by
  induction h generalizing rest with
  | start h =>
    intro u hu _
    obtain ⟨others, hothers⟩ := hhead
    have hvisits : visits items ds onList = e :: (others ++ (resolveDependencies items ds onList).added) := by
      rw [visits, hothers, List.cons_append]
    exact hvisits ▸ Insertion.before_cons_head (hvisits ▸ hu)
  | @step n path d way hd hpulls hat ih =>
    intro u hu hfar
    have hds' : ds = path ++ d :: rest := by simp [hds]
    have hmain : d.dependsOnItemId ∈ visits items ds onList := mem_visits.2 ⟨n, way.at.1⟩
    have hitem : d.itemId ∈ visits items ds onList := mem_visits.2 ⟨n + 1, hat.1⟩
    by_cases hne : u = d.itemId
    · exact hne ▸ Insertion.before_refl hu
    refine (Insertion.before_total hitem hu).resolve_right fun hearly => ?_
    obtain ⟨others, hothers⟩ := way.byMain_end hds'
    obtain ⟨pre, post, first, last, hvisits, hedges, hfirst⟩ := edges_split hmain hothers
    have hlisted : u ∉ explicitIds onList := fun hl => hfar 0 (Nat.succ_pos n) hl
    obtain ⟨ds₁, d₁, ds₂, hsplit, ⟨d', hd', hpulls', rfl⟩, hnone⟩ := first_parent hearly hlisted hne
    -- The edge that finds `u` comes before the last one of the way, so its main is visited before the main of that.
    have hd'first : d' ∈ first := by
      obtain ⟨a, rfl, ha⟩ | ⟨a, rfl, -⟩ := List.append_eq_append_iff.1 (hedges.symm.trans hsplit)
      · cases a with
        | nil => simpa using hd'
        | cons b a =>
          obtain rfl : d = b := (List.cons.inj ha).1
          exact absurd ⟨hpulls, rfl⟩ (hnone d (by simp))
      · exact List.mem_append_left _ hd'
    obtain ⟨hd'ds, hd'pre⟩ := hfirst d' hd'first
    have hq : d'.dependsOnItemId ∈ visits items ds onList := hvisits ▸ List.mem_append_left _ hd'pre
    have hbefore := ih hds' _ hq fun k hk hnear =>
      hfar (k + 1) (by omega) (.inr ⟨_, hnear, d', hd'ds, hpulls', rfl, rfl⟩)
    have hrest := hbefore.mem_rest nodup_visits hvisits
    have hnodup : (pre ++ d.dependsOnItemId :: post).Nodup := hvisits ▸ nodup_visits
    exact (List.nodup_append.1 hnodup).2.2 _ hd'pre _ hrest rfl

/-- A suggestion that comes first after a way to its main is offered, if no requirement reaches its item as early. -/
theorem offered_of_way (h : Way items ds onList e n d.dependsOnItemId path)
    (hhead : ∃ others, explicitIds onList = e :: others) (hds : ds = path ++ d :: rest) (hoffers : d.Offers items)
    (hfar : ¬ Near items ds onList n d.itemId) : d.itemId ∈ (resolveDependencies items ds onList).offered := by
  have hmain : d.dependsOnItemId ∈ visits items ds onList := mem_visits.2 ⟨n, h.at.1⟩
  obtain ⟨others, hothers⟩ := h.byMain_end hds
  obtain ⟨pre, post, first, last, hvisits, hedges, hfirst⟩ := edges_split hmain hothers
  refine mem_offered.2 ⟨fun hl => hfar (Digraph.Within.mono (n := 0) hl (Nat.zero_le n)), first, d, last, hedges,
    hoffers, rfl, ?_⟩
  rintro d' hd' ⟨hpulls, hid⟩
  obtain ⟨hd'ds, hd'pre⟩ := hfirst d' hd'
  have hq : d'.dependsOnItemId ∈ visits items ds onList := hvisits ▸ List.mem_append_left _ hd'pre
  have hbefore := h.first hhead hds _ hq fun k hk hnear => by
    have hitem : Near items ds onList (k + 1) d.itemId := .inr ⟨_, hnear, d', hd'ds, hpulls, rfl, hid⟩
    exact hfar (hitem.mono (Nat.succ_le_of_lt hk))
  have hrest := hbefore.mem_rest nodup_visits hvisits
  have hnodup : (pre ++ d.dependsOnItemId :: post).Nodup := hvisits ▸ nodup_visits
  exact (List.nodup_append.1 hnodup).2.2 _ hd'pre _ hrest rfl

end

/-! ## Any order -/

section
variable {ds' : List ItemDependency} {onList' : List (Option ItemId)} {x : ItemId} {n : ℕ}

theorem requires_perm (h : ds'.Perm ds) : Requires items ds' = Requires items ds := by
  funext m x
  simp only [Requires, h.mem_iff]

theorem mem_explicitIds_perm (h : onList'.Perm onList) : x ∈ explicitIds onList' ↔ x ∈ explicitIds onList := by
  simp only [explicitIds, Insertion.mem_ofList, ((h.filterMap id).filter _).mem_iff]

/-- Distances do not depend on any order. -/
theorem near_perm (hds : ds'.Perm ds) (hlist : onList'.Perm onList) :
    Near items ds' onList' n x ↔ Near items ds onList n x := by
  have hexplicit : (· ∈ explicitIds onList') = (· ∈ explicitIds onList) := by
    funext y
    exact propext (mem_explicitIds_perm hlist)
  rw [Near, Near, requires_perm hds, hexplicit]

theorem noEarlyOffer_perm (hds : ds'.Perm ds) (hlist : onList'.Perm onList) (h : NoEarlyOffer items ds onList) :
    NoEarlyOffer items ds' onList' := by
  intro d hd hoffers hreached n hmain
  simp only [near_perm hds hlist] at hreached hmain ⊢
  exact h d (hds.mem_iff.1 hd) hoffers hreached n hmain

theorem Way.perm {e : ItemId} {path : List ItemDependency} (h : Way items ds onList e n x path)
    (hds : ds'.Perm ds) (hlist : onList'.Perm onList) : Way items ds' onList' e n x path := by
  induction h with
  | start h => exact .start ((mem_explicitIds_perm hlist).2 h)
  | step _ hd hpulls hat ih =>
    refine .step ih (hds.mem_iff.2 hd) hpulls ⟨(near_perm hds hlist).2 hat.1, fun k hk hnear => hat.2 k hk ?_⟩
    exact (near_perm hds hlist).1 hnear

/-- An item on the list can come first. -/
theorem exists_head {e : ItemId} (h : e ∈ explicitIds onList) : ∃ onList' : List (Option ItemId),
    onList'.Perm onList ∧ ∃ others, explicitIds onList' = e :: others := by
  obtain ⟨hmem, htext⟩ := List.mem_filter.1 (Insertion.mem_ofList.1 h)
  obtain ⟨row, hrow, rfl⟩ := List.mem_filterMap.1 hmem
  obtain ⟨pre, post, rfl⟩ := List.append_of_mem hrow
  refine ⟨some e :: (pre ++ post), List.perm_middle.symm, ?_⟩
  simp only [explicitIds, List.filterMap_cons, id, List.filter_cons, htext, if_true]
  exact Insertion.ofList_cons e _

end

/-- **A list is resolved, whatever the order of the edges and of the list, exactly if no suggestion is early**: no
edge suggests an item that the list also requires from a main that is nearer to the list than the item. -/
theorem resolved_iff (items : List CategorisedMasterItem) (ds : List ItemDependency)
    (onList : List (Option ItemId)) :
    (∀ ds' onList', ds'.Perm ds → onList'.Perm onList →
      Resolved items ds' onList' (resolveDependencies items ds' onList')) ↔ NoEarlyOffer items ds onList := by
  constructor
  · intro h d hd hoffers hreached n hmain
    by_contra hfar
    -- A shortest way to the main of the suggestion, and the suggestion, can come first.
    obtain ⟨k, hkn, hat⟩ := Digraph.exists_at hmain
    obtain ⟨e, path, way⟩ := exists_way hat
    obtain ⟨hnodup, hall⟩ := way.edges
    have hfar' : ¬ Near items ds onList k d.itemId := fun hnear => hfar (hnear.mono hkn)
    have hsub : (path ++ [d]).Subperm ds := by
      refine List.subperm_of_subset (hnodup.append (List.nodup_singleton d) ?_) fun d' hd' => ?_
      · rw [List.disjoint_singleton]
        exact fun hmem => absurd ((hall d hmem).2.1.1.symm.trans hoffers.1) (by simp)
      · obtain hd' | hd' := List.mem_append.1 hd'
        · exact (hall d' hd').1
        · exact List.mem_singleton.1 hd' ▸ hd
    obtain ⟨l, hl, hsublist⟩ := hsub
    obtain ⟨rest, hrest⟩ := hsublist.exists_perm_append
    have hds : (path ++ d :: rest).Perm ds := by
      have hperm := (hl.symm.append_right rest).trans hrest.symm
      simpa using hperm
    obtain ⟨onList', hlist, hhead⟩ := exists_head way.explicit
    have hoffered := offered_of_way (way.perm hds hlist) hhead rfl hoffers (by rwa [near_perm hds hlist])
    refine ((h _ _ hds hlist).disjoint _ hoffered).2 (mem_added_iff_reached.2 ⟨?_, ?_⟩)
    · rw [mem_explicitIds_perm hlist]
      exact fun hl => hfar (Digraph.Within.mono (n := 0) hl (Nat.zero_le n))
    · simpa only [near_perm hds hlist] using hreached
  · intro h ds' onList' hds hlist
    exact resolved_of_noEarlyOffer (noEarlyOffer_perm hds hlist h)

/-- The camera suggests the battery and requires the charger, which requires the battery. -/
def chargerEdges : List ItemDependency :=
  [⟨⟨.battery, .camera⟩, "d1", .suggested, none⟩, ⟨⟨.charger, .camera⟩, "d2", .required, none⟩,
    ⟨⟨.battery, .charger⟩, "d3", .required, none⟩]

def cameraItems : List CategorisedMasterItem :=
  [⟨.camera, "Camera", none, none, none, none⟩, ⟨.battery, "Battery", none, none, none, none⟩,
    ⟨.charger, "Charger", none, none, none, none⟩]

/-- The battery is offered when the camera is visited, and joins the list when the charger is. -/
theorem battery_offered_and_added :
    ¬ Resolved cameraItems chargerEdges [some .camera]
      (resolveDependencies cameraItems chargerEdges [some .camera]) := by
  intro h
  have hoffered : (resolveDependencies cameraItems chargerEdges [some .camera]).offered = [.battery] := by
    decide +kernel
  have hadded : (resolveDependencies cameraItems chargerEdges [some .camera]).added = [.charger, .battery] := by
    decide +kernel
  exact (h.disjoint .battery (by simp [hoffered])).2 (by simp [hadded])

end

end JitPack
