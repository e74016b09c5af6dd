import JitPack.Lib.Digraph

/-!
# The dependencies between items

`domain/dependencies.ts`: an item depends on its mains, which keeps the graph of the inventory acyclic
(`dependencyCycleError`, `planDependencyBatch`). An edge closes a cycle exactly if its main already leads to its
item, and `findPath` searches for just that.

The edges of one batch meet at the item picked for it. So an edge that a batch has accepted changes no answer of the
search for the next one (`findPath_grown`), and every item is decided as if it came first.
-/

namespace JitPack

/-! ## Items and edges -/

/-- The id of an item. No id contains the separator of `edgeKey`. -/
structure ItemId where
  text : String
  plain : '>' ∉ text.toList
  deriving DecidableEq

/-- `DependencyEdge`: the item needs the other one along. -/
structure DependencyEdge where
  itemId : ItemId
  dependsOnItemId : ItemId
  deriving DecidableEq

inductive DependencyMode where
  | required
  | suggested
  deriving DecidableEq

/-- `ItemDependency`. -/
structure ItemDependency extends DependencyEdge where
  id : String
  mode : DependencyMode
  quantity : Option ℚ

/-- The relation that the edges make. -/
def DependsOn (edges : List DependencyEdge) (x y : ItemId) : Prop := ⟨x, y⟩ ∈ edges

/-! ## The check of one edge -/

/-- `dependsOnEdges`: the mains of an item, in the order of the edges. -/
def dependsOnEdges (edges : List DependencyEdge) (x : ItemId) : List ItemId :=
  (edges.filter (·.itemId = x)).map (·.dependsOnItemId)

/-- `findPath`. The search cannot go deeper than there are nodes. -/
def findPath (source target : ItemId) (edges : List DependencyEdge) : Option (List ItemId) :=
  (Digraph.search (dependsOnEdges edges) target (edges.length + 2) source []).1

inductive CycleReason where
  | self
  | cycle
  deriving DecidableEq

/-- `DependencyCycleError`. -/
structure DependencyCycleError where
  reason : CycleReason
  names : List String
  deriving DecidableEq

/-- `dependencyCycleError`. -/
def dependencyCycleError (edges : List DependencyEdge) (candidate : DependencyEdge) (itemName : ItemId → String) :
    Option DependencyCycleError :=
  if candidate.itemId = candidate.dependsOnItemId then some ⟨.self, [itemName candidate.itemId]⟩
  else (findPath candidate.dependsOnItemId candidate.itemId edges).map fun path =>
    ⟨.cycle, (candidate.itemId :: candidate.dependsOnItemId :: path.drop 1).map itemName⟩

/-! ## A batch -/

/-- `DependencyLinkDirection`: what the picked item is to the selected ones. -/
inductive DependencyLinkDirection where
  | main
  | companion
  deriving DecidableEq

/-- `DependencySkipReason`. -/
inductive DependencySkipReason where
  | self
  | exists
  | cycle
  deriving DecidableEq

/-- `linkEdge`. -/
def linkEdge (direction : DependencyLinkDirection) (standing picked : ItemId) : DependencyEdge :=
  match direction with
  | .main => ⟨standing, picked⟩
  | .companion => ⟨picked, standing⟩

/-- `edgeKey`. -/
def edgeKey (edge : DependencyEdge) : String := edge.itemId.text ++ ">" ++ edge.dependsOnItemId.text

/-- `linkRefusal`. -/
def linkRefusal (edge : DependencyEdge) (existing : List String) (edges : List DependencyEdge) :
    Option DependencySkipReason :=
  if edge.itemId = edge.dependsOnItemId then some .self
  else if edgeKey edge ∈ existing then some .exists
  else if (findPath edge.dependsOnItemId edge.itemId edges).isSome then some .cycle
  else none

/-- `DependencyBatchPlan`. -/
structure DependencyBatchPlan where
  edges : List DependencyEdge
  skipped : List (ItemId × DependencySkipReason)

/-- What the loop of `planDependencyBatch` goes on with. -/
structure BatchState where
  existing : List String
  edges : List DependencyEdge
  plan : DependencyBatchPlan

/-- One turn of the loop. -/
def BatchState.link (direction : DependencyLinkDirection) (picked : ItemId) (s : BatchState) (selected : ItemId) :
    BatchState :=
  let edge := linkEdge direction selected picked
  match linkRefusal edge s.existing s.edges with
  | some reason => { s with plan.skipped := s.plan.skipped ++ [(selected, reason)] }
  | none => ⟨s.existing ++ [edgeKey edge], s.edges ++ [edge], { s.plan with edges := s.plan.edges ++ [edge] }⟩

/-- `planDependencyBatch`. -/
def planDependencyBatch (dependencies : List DependencyEdge) (selected : List ItemId) (picked : ItemId)
    (direction : DependencyLinkDirection) : DependencyBatchPlan :=
  (selected.foldl (BatchState.link direction picked) ⟨dependencies.map edgeKey, dependencies, ⟨[], []⟩⟩).plan

/-! ## The search -/

section
variable {edges : List DependencyEdge} {edge : DependencyEdge} {x y : ItemId}

theorem mem_dependsOnEdges : y ∈ dependsOnEdges edges x ↔ DependsOn edges x y := by
  simp only [dependsOnEdges, DependsOn, List.mem_map, List.mem_filter, decide_eq_true_eq]
  constructor
  · rintro ⟨⟨_, _⟩, ⟨hmem, rfl⟩, rfl⟩
    exact hmem
  · intro h
    exact ⟨_, ⟨h, rfl⟩, rfl⟩

theorem leads_dependsOnEdges : Digraph.Leads (dependsOnEdges edges) = DependsOn edges := by
  funext x y
  exact propext mem_dependsOnEdges

/-- A path that is found is one of the graph. -/
theorem findPath_some {path : List ItemId} (h : findPath x y edges = some path) :
    path.head? = some x ∧ path.getLast? = some y ∧ path.IsChain (DependsOn edges) := by
  unfold findPath at h
  rcases hs : Digraph.search (dependsOnEdges edges) y (edges.length + 2) x [] with ⟨found, visited⟩
  rw [hs] at h
  obtain rfl : found = some path := h
  exact leads_dependsOnEdges ▸ Digraph.search_some hs

/-- A path is found exactly if there is one. -/
theorem findPath_isSome : (findPath x y edges).isSome ↔ Relation.ReflTransGen (DependsOn edges) x y := by
  rw [← leads_dependsOnEdges]
  refine Digraph.search_isSome_iff (x :: edges.map (·.dependsOnItemId)) (fun u _ v hv => ?_)
    List.mem_cons_self (by simp)
  obtain ⟨edge, hedge, rfl⟩ := List.mem_map.1 hv
  exact List.mem_cons_of_mem _ (List.mem_map_of_mem (List.mem_filter.1 hedge).1)

theorem dependsOn_append : DependsOn (edges ++ [edge]) = Digraph.addEdge (DependsOn edges) edge.itemId
    edge.dependsOnItemId := by
  obtain ⟨a, b⟩ := edge
  funext x y
  simp [DependsOn, Digraph.addEdge]

/-- An edge closes a cycle in an acyclic graph exactly if it is one from an item to itself, or a path is found from
its main back to its item. -/
theorem closes_iff (hacyclic : Digraph.Acyclic (DependsOn edges)) :
    ¬ Digraph.Acyclic (DependsOn (edges ++ [edge])) ↔
      edge.itemId = edge.dependsOnItemId ∨ (findPath edge.dependsOnItemId edge.itemId edges).isSome := by
  rw [dependsOn_append, Digraph.acyclic_addEdge hacyclic, not_not, findPath_isSome]
  refine ⟨.inr, fun h => h.elim (fun he => ?_) id⟩
  rw [he]

/-- The items are on a cycle of the edge and the existing ones, which begins with the edge. -/
def ClosesCycle (edges : List DependencyEdge) (edge : DependencyEdge) (cycle : List ItemId) : Prop :=
  ∃ way, cycle = edge.itemId :: way ∧ way.head? = some edge.dependsOnItemId ∧
    way.getLast? = some edge.itemId ∧ way.IsChain (DependsOn edges)

/-- The items that an error names are on a cycle, or are the one item that would depend on itself. -/
theorem dependencyCycleError_names {error : DependencyCycleError} {itemName : ItemId → String}
    (h : dependencyCycleError edges edge itemName = some error) :
    ∃ cycle, error.names = cycle.map itemName ∧
      ((error.reason = .self ∧ edge.itemId = edge.dependsOnItemId ∧ cycle = [edge.itemId]) ∨
        error.reason = .cycle ∧ edge.itemId ≠ edge.dependsOnItemId ∧ ClosesCycle edges edge cycle) := by
  unfold dependencyCycleError at h
  split at h
  · next he =>
    cases h
    exact ⟨[edge.itemId], rfl, .inl ⟨rfl, he, rfl⟩⟩
  next hne =>
  obtain ⟨path, hpath, rfl⟩ := Option.map_eq_some_iff.1 h
  obtain ⟨hhead, hlast, hchain⟩ := findPath_some hpath
  cases path with
  | nil => cases hhead
  | cons first rest =>
    obtain rfl : first = edge.dependsOnItemId := Option.some.inj hhead
    exact ⟨_, rfl, .inr ⟨rfl, hne, _, rfl, rfl, hlast, hchain⟩⟩

/-- An error is reported exactly if the edge would close a cycle. -/
theorem dependencyCycleError_isSome {itemName : ItemId → String} (hacyclic : Digraph.Acyclic (DependsOn edges)) :
    (dependencyCycleError edges edge itemName).isSome ↔ ¬ Digraph.Acyclic (DependsOn (edges ++ [edge])) := by
  rw [closes_iff hacyclic]
  unfold dependencyCycleError
  split
  · next he => simp [he]
  · next hne => simp [hne]

end

/-! ## The plan of a batch -/

theorem edgeKey_injective : Function.Injective edgeKey := by
  rintro ⟨⟨a, ha⟩, ⟨b, hb⟩⟩ ⟨⟨a', ha'⟩, ⟨b', hb'⟩⟩ h
  have hlist : a.toList ++ '>' :: b.toList = a'.toList ++ '>' :: b'.toList := by
    simpa [edgeKey] using congrArg String.toList h
  obtain ⟨hfirst, -, hsecond⟩ := (List.append_cons_inj_of_notMem ha hb).1 hlist
  obtain rfl := String.toList_injective hfirst
  obtain rfl := String.toList_injective hsecond
  rfl

/-- Why an item is left out, if the edges are those that were there before the batch. -/
def refusal (dependencies : List DependencyEdge) (picked : ItemId) (direction : DependencyLinkDirection)
    (selected : ItemId) : Option DependencySkipReason :=
  linkRefusal (linkEdge direction selected picked) (dependencies.map edgeKey) dependencies

section
variable {dependencies planned : List DependencyEdge} {picked selected : ItemId} {done : List ItemId}
variable {direction : DependencyLinkDirection}

theorem linkEdge_injective : Function.Injective (linkEdge direction · picked) := by
  intro a b h
  cases direction
  · exact (DependencyEdge.mk.inj h).1
  · exact (DependencyEdge.mk.inj h).2

/-- The edges of a batch change no answer of the search for another one. -/
theorem findPath_grown (hplanned : ∀ edge ∈ planned, ∃ s, edge = linkEdge direction s picked) :
    (findPath (linkEdge direction selected picked).dependsOnItemId (linkEdge direction selected picked).itemId
      (dependencies ++ planned)).isSome ↔
    (findPath (linkEdge direction selected picked).dependsOnItemId (linkEdge direction selected picked).itemId
      dependencies).isSome := by
  simp only [findPath_isSome]
  induction planned using List.reverseRecOn with
  | nil => rw [List.append_nil]
  | append_singleton planned edge ih =>
    rw [← ih fun e he => hplanned e (List.mem_append_left _ he), ← List.append_assoc, dependsOn_append]
    obtain ⟨s, rfl⟩ := hplanned edge (by simp)
    cases direction with
    | main => exact Digraph.reflTransGen_addEdge_start
    | companion => exact Digraph.reflTransGen_addEdge_end

/-- An item that is not among those linked is decided as if it came first. -/
theorem linkRefusal_grown (hplanned : planned = done.map (linkEdge direction · picked)) (hnew : selected ∉ done) :
    linkRefusal (linkEdge direction selected picked) ((dependencies ++ planned).map edgeKey)
      (dependencies ++ planned) = refusal dependencies picked direction selected := by
  have hkey : edgeKey (linkEdge direction selected picked) ∈ (dependencies ++ planned).map edgeKey ↔
      edgeKey (linkEdge direction selected picked) ∈ dependencies.map edgeKey := by
    rw [List.map_append, List.mem_append, or_iff_left]
    rw [List.mem_map_of_injective edgeKey_injective, hplanned, List.mem_map_of_injective linkEdge_injective]
    exact hnew
  have hlinks (edge) (he : edge ∈ planned) : ∃ s, edge = linkEdge direction s picked := by
    obtain ⟨s, -, rfl⟩ := List.mem_map.1 (hplanned ▸ he)
    exact ⟨s, rfl⟩
  simp only [refusal, linkRefusal, hkey, Bool.eq_iff_iff.2 (findPath_grown hlinks)]

/-- The plan of a batch: every selected item is decided on its own. -/
theorem planDependencyBatch_eq {selected : List ItemId} (hselected : selected.Nodup) :
    planDependencyBatch dependencies selected picked direction =
      ⟨(selected.filter fun s => refusal dependencies picked direction s = none).map (linkEdge direction · picked),
        selected.filterMap fun s => (refusal dependencies picked direction s).map (s, ·)⟩ := by
  have hrun : ∀ selected : List ItemId, selected.Nodup →
      selected.foldl (BatchState.link direction picked) ⟨dependencies.map edgeKey, dependencies, ⟨[], []⟩⟩ =
        let linked := (selected.filter fun s => refusal dependencies picked direction s = none).map
          (linkEdge direction · picked)
        ⟨(dependencies ++ linked).map edgeKey, dependencies ++ linked,
          ⟨linked, selected.filterMap fun s => (refusal dependencies picked direction s).map (s, ·)⟩⟩ := by
    intro selected
    induction selected using List.reverseRecOn with
    | nil => simp
    | append_singleton rest s ih =>
      intro hnodup
      obtain ⟨hrest, -, hdisjoint⟩ := List.nodup_append.1 hnodup
      have hnew : s ∉ rest.filter fun s => refusal dependencies picked direction s = none := fun hmem =>
        hdisjoint s (List.mem_filter.1 hmem).1 s (by simp) rfl
      rw [List.foldl_append, ih hrest]
      simp only [List.foldl_cons, List.foldl_nil, BatchState.link, linkRefusal_grown rfl hnew]
      cases hs : refusal dependencies picked direction s with
      | none => simp [hs]
      | some reason => simp [hs]
  rw [planDependencyBatch, hrun selected hselected]

/-- What a reason says of an edge. -/
def DependencySkipReason.TrueOf (dependencies : List DependencyEdge) (edge : DependencyEdge) :
    DependencySkipReason → Prop
  | .self => edge.itemId = edge.dependsOnItemId
  | .exists => edge ∈ dependencies
  | .cycle => ¬ Digraph.Acyclic (DependsOn (dependencies ++ [edge]))

/-- The reason for which an item is left out is true of its edge, and none is true of an edge that is planned. -/
theorem refusal_trueOf (hacyclic : Digraph.Acyclic (DependsOn dependencies)) (reason : DependencySkipReason) :
    (refusal dependencies picked direction selected = some reason →
      reason.TrueOf dependencies (linkEdge direction selected picked)) ∧
    (refusal dependencies picked direction selected = none →
      ¬ reason.TrueOf dependencies (linkEdge direction selected picked)) := by
  unfold refusal linkRefusal
  generalize linkEdge direction selected picked = edge
  simp only [List.mem_map_of_injective edgeKey_injective]
  split
  · next hself => exact ⟨fun h => by cases h; exact hself, nofun⟩
  next hself =>
  split
  · next hexists => exact ⟨fun h => by cases h; exact hexists, nofun⟩
  next hexists =>
  split
  · next hpath => exact ⟨fun h => by cases h; exact (closes_iff hacyclic).2 (.inr hpath), nofun⟩
  next hpath =>
  refine ⟨nofun, fun _ => ?_⟩
  cases reason with
  | self => exact hself
  | «exists» => exact hexists
  | cycle => exact fun hcycle => ((closes_iff hacyclic).1 hcycle).elim hself hpath

/-- What a batch plans leaves the graph acyclic. -/
theorem acyclic_grown (hacyclic : Digraph.Acyclic (DependsOn dependencies))
    (hdone : ∀ s ∈ done, refusal dependencies picked direction s = none) :
    Digraph.Acyclic (DependsOn (dependencies ++ done.map (linkEdge direction · picked))) := by
  induction done using List.reverseRecOn with
  | nil => simpa using hacyclic
  | append_singleton done s ih =>
    have hgrown := ih fun s hs => hdone s (List.mem_append_left _ hs)
    have hs := hdone s (by simp)
    rw [List.map_append, ← List.append_assoc, List.map_singleton]
    by_contra hcycle
    have hclosed := (refusal_trueOf hacyclic .cycle).2 hs
    refine hclosed ((closes_iff hacyclic).2 (((closes_iff hgrown).1 hcycle).imp id fun hpath => ?_))
    refine (findPath_grown fun edge he => ?_).1 hpath
    obtain ⟨s, -, rfl⟩ := List.mem_map.1 he
    exact ⟨s, rfl⟩

/-- A batch is planned correctly: every selected item is linked or left out, once, and left out for a reason that is
true of its edge, none being true of an edge that is linked; and with the planned edges the graph is still one of
distinct edges, and acyclic. -/
structure PlannedCorrectly (dependencies : List DependencyEdge) (selected : List ItemId) (picked : ItemId)
    (direction : DependencyLinkDirection) (plan : DependencyBatchPlan) : Prop where
  once : ∃ linked, plan.edges = linked.map (linkEdge direction · picked) ∧
    (linked ++ plan.skipped.map (·.1)).Perm selected
  skipped : ∀ s ∈ plan.skipped, s.2.TrueOf dependencies (linkEdge direction s.1 picked)
  linked : ∀ edge ∈ plan.edges, ∀ reason : DependencySkipReason, ¬ reason.TrueOf dependencies edge
  distinct : (dependencies ++ plan.edges).Nodup
  acyclic : Digraph.Acyclic (DependsOn (dependencies ++ plan.edges))

theorem filter_append_filterMap_perm {α β : Type} (f : α → Option β) (l : List α) :
    ((l.filter fun x => (f x).isNone) ++ (l.filterMap fun x => (f x).map (x, ·)).map (·.1)).Perm l := by
  induction l with
  | nil => simp
  | cons x l ih =>
    cases hx : f x with
    | none => simpa [hx] using ih
    | some y => simpa [hx] using List.perm_middle.trans (ih.cons x)

theorem planDependencyBatch_correct {selected : List ItemId} (hdistinct : dependencies.Nodup)
    (hacyclic : Digraph.Acyclic (DependsOn dependencies)) (hselected : selected.Nodup) :
    PlannedCorrectly dependencies selected picked direction
      (planDependencyBatch dependencies selected picked direction) := by
  rw [planDependencyBatch_eq hselected]
  refine ⟨⟨_, rfl, ?_⟩, fun s hs => ?_, fun edge hedge reason => ?_, ?_, ?_⟩
  · have hnone : (fun s => decide (refusal dependencies picked direction s = none)) = fun s =>
        (refusal dependencies picked direction s).isNone := by
      funext s
      cases refusal dependencies picked direction s <;> rfl
    rw [hnone]
    exact filter_append_filterMap_perm _ selected
  · obtain ⟨x, -, hx⟩ := List.mem_filterMap.1 hs
    obtain ⟨reason, hreason, rfl⟩ := Option.map_eq_some_iff.1 hx
    exact (refusal_trueOf hacyclic reason).1 hreason
  · obtain ⟨x, hx, rfl⟩ := List.mem_map.1 hedge
    exact (refusal_trueOf hacyclic reason).2 (by simpa using (List.mem_filter.1 hx).2)
  · refine hdistinct.append ((hselected.filter _).map linkEdge_injective) fun edge hold hnew => ?_
    obtain ⟨x, hx, rfl⟩ := List.mem_map.1 hnew
    exact (refusal_trueOf hacyclic .exists).2 (by simpa using (List.mem_filter.1 hx).2) hold
  · exact acyclic_grown hacyclic fun s hs => by simpa using (List.mem_filter.1 hs).2

end

/-- **The dependency graph stays acyclic**: over every acyclic set of edges, the check reports an error for an edge
exactly if the edge would close a cycle, and names the items of such a cycle, and every batch is planned correctly. -/
theorem dependencies_acyclic (dependencies : List DependencyEdge) (hdistinct : dependencies.Nodup)
    (hacyclic : Digraph.Acyclic (DependsOn dependencies)) :
    (∀ candidate itemName,
      ((dependencyCycleError dependencies candidate itemName).isSome ↔
        ¬ Digraph.Acyclic (DependsOn (dependencies ++ [candidate]))) ∧
      ∀ error, dependencyCycleError dependencies candidate itemName = some error →
        ∃ cycle, error.names = cycle.map itemName ∧
          ((error.reason = .self ∧ candidate.itemId = candidate.dependsOnItemId ∧ cycle = [candidate.itemId]) ∨
            error.reason = .cycle ∧ candidate.itemId ≠ candidate.dependsOnItemId ∧
              ClosesCycle dependencies candidate cycle)) ∧
      ∀ (selected : List ItemId) (picked : ItemId) (direction : DependencyLinkDirection), selected.Nodup →
        PlannedCorrectly dependencies selected picked direction
          (planDependencyBatch dependencies selected picked direction) :=
  ⟨fun _ _ => ⟨dependencyCycleError_isSome hacyclic, fun _ => dependencyCycleError_names⟩,
    fun _ _ _ => planDependencyBatch_correct hdistinct hacyclic⟩

def ItemId.camera : ItemId := ⟨"camera", by decide⟩
def ItemId.battery : ItemId := ⟨"battery", by decide⟩
def ItemId.charger : ItemId := ⟨"charger", by decide⟩

/-- The battery depends on the camera, and the charger on the battery. -/
def cameraEdges : List DependencyEdge := [⟨.battery, .camera⟩, ⟨.charger, .battery⟩]

/-- The camera cannot depend on the charger, which a batch leaves out; it can take the battery and the charger along. -/
theorem dependencies_acyclic_camera :
    ((dependencyCycleError cameraEdges ⟨.camera, .charger⟩ (·.text)).isSome ↔
        ¬ Digraph.Acyclic (DependsOn (cameraEdges ++ [⟨.camera, .charger⟩]))) ∧
      PlannedCorrectly cameraEdges [.battery, .charger] .camera .main
        (planDependencyBatch cameraEdges [.battery, .charger] .camera .main) := by
  have hnone : Digraph.Acyclic (DependsOn []) := by
    intro x h
    cases h with
    | single h => cases h
    | tail _ h => cases h
  have hone : Digraph.Acyclic (DependsOn [⟨.battery, .camera⟩]) := by
    by_contra h
    exact absurd ((closes_iff hnone).1 (show ¬ Digraph.Acyclic (DependsOn ([] ++ [_])) from h)) (by decide)
  have htwo : Digraph.Acyclic (DependsOn cameraEdges) := by
    by_contra h
    exact absurd ((closes_iff hone).1 (show ¬ Digraph.Acyclic (DependsOn ([_] ++ [_])) from h)) (by decide)
  have hall := dependencies_acyclic cameraEdges (by decide) htwo
  exact ⟨(hall.1 _ _).1, hall.2 _ _ _ (by decide)⟩

end JitPack
