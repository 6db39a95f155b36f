import FabricPartition.Accounting
import FabricPartition.Partition

/-!
# Order independence

Evidence reaches the resolution in the order publishers happened to deliver it, and a topology
lists its components in the order somebody wrote them down.  Neither order is part of what the
fabric is, so neither may leave a trace in a decomposition, a digest or a partition identity.

The argument has three steps:

* a roster is the sorted list of its definition (`ComponentRoster.create_reorders`);
* the bundle loop accumulates lists that the order of the input permutes, and counts that it does
  not change (`gather_reorders`);
* each index sorts its list by a key that tells any two of its entries apart, so that the
  *context* is equal, not only equivalent (`evidenceContext_reorders`).

Everything after that, the edges, the union by rank over them, the labels and the counters, is a
function of the context and the roster.
-/

set_option autoImplicit false

namespace FabricPartition

open SortedList

/-! ## Inputs that differ in their order only -/

/-- Two definitions of one topology that list the components in different orders. -/
structure TopologyDefinition.Reorders (d d' : TopologyDefinition) : Prop where
  same : d' = { d with components := d'.components }
  components : d.components.Perm d'.components

/-- Two copies of one bundle that list the observations and the covered sources in different
orders. -/
structure ReachabilityEvidence.Reorders (b b' : ReachabilityEvidence) : Prop where
  same : b' = { b with coveredSources := b'.coveredSources, observations := b'.observations }
  coveredSources : b.coveredSources.Perm b'.coveredSources
  observations : b.observations.Perm b'.observations

/-- Two evidence sets that list the same bundles in different orders, each of them in an order of
its own. -/
def EvidenceReorders (evidence evidence' : List ReachabilityEvidence) : Prop :=
  ∃ shuffled, evidence.Perm shuffled ∧ List.Forall₂ ReachabilityEvidence.Reorders shuffled evidence'

namespace ReachabilityEvidence.Reorders

variable {b b' : ReachabilityEvidence}

theorem topologyGeneration_eq (h : b.Reorders b') :
    b'.topologyGeneration = b.topologyGeneration := by
  rw [h.same]

theorem completeness_eq (h : b.Reorders b') : b'.completeness = b.completeness := by
  rw [h.same]

theorem freshBundle_eq (h : b.Reorders b') (policyAge tickNow : UInt64) :
    freshBundle policyAge tickNow b' = freshBundle policyAge tickNow b := by
  rw [h.same]
  rfl

theorem packObservations_perm (h : b.Reorders b') (roster : ComponentRoster) :
    (packObservations roster b).Perm (packObservations roster b') :=
  h.observations.filterMap _

theorem claimedIndices_perm (h : b.Reorders b') (roster : ComponentRoster) :
    (claimedIndices roster b).Perm (claimedIndices roster b') := by
  rw [claimedIndices, claimedIndices, h.completeness_eq]
  split
  · exact h.coveredSources.filterMap _
  · exact List.Perm.refl _

theorem claimedObservations_perm (h : b.Reorders b') (roster : ComponentRoster) :
    (claimedObservations roster b).Perm (claimedObservations roster b') := by
  have hcontains : ∀ s, (claimedIndices roster b).contains s
      = (claimedIndices roster b').contains s := by
    intro s
    rw [Bool.eq_iff_iff, List.contains_iff_mem, List.contains_iff_mem]
    exact (h.claimedIndices_perm roster).mem_iff
  rw [claimedObservations, claimedObservations]
  simp only [hcontains]
  exact (h.packObservations_perm roster).filter _

end ReachabilityEvidence.Reorders

/-! ## The roster -/

theorem sortedComponents_perm {cs cs' : List ComponentId} (h : cs.Perm cs') :
    sortedComponents cs = sortedComponents cs' := by
  refine List.Perm.eq_of_pairwise (fun a b _ _ => le_antisymm) (List.pairwise_insertionSort _ cs)
    (List.pairwise_insertionSort _ cs') ?_
  exact (List.perm_insertionSort _ cs).trans (h.trans (List.perm_insertionSort _ cs').symm)

/-- The roster of a topology does not depend on the order its definition lists it in. -/
theorem ComponentRoster.create_reorders {d d' : TopologyDefinition} (h : d.Reorders d')
    (limits : Limits) : ComponentRoster.create d' limits = ComponentRoster.create d limits := by
  have hsorted := sortedComponents_perm h.components
  have hlength := h.components.length_eq
  have hid : d'.id = d.id := by rw [h.same]
  have hgeneration : d'.generation = d.generation := by rw [h.same]
  have hprovenance : d'.provenance = d.provenance := by rw [h.same]
  have hdigest : computeRosterDigest d' = computeRosterDigest d := by
    simp only [computeRosterDigest, hid, hgeneration, hprovenance, hsorted]
  rw [ComponentRoster.create, ComponentRoster.create]
  simp only [← hsorted, ← hlength, hdigest, hid, hgeneration, hprovenance]

/-! ## The bundle loop -/

section Gather

variable {roster : ComponentRoster} {policyAge tickNow : UInt64} {limits : Limits}

/-- Filtering by something a reordering keeps leaves a reordering. -/
theorem EvidenceReorders.filter {evidence evidence' : List ReachabilityEvidence}
    (h : EvidenceReorders evidence evidence') {p : ReachabilityEvidence → Bool}
    (hp : ∀ b b' : ReachabilityEvidence, b.Reorders b' → p b' = p b) :
    EvidenceReorders (evidence.filter p) (evidence'.filter p) := by
  obtain ⟨shuffled, hperm, hall⟩ := h
  refine ⟨shuffled.filter p, hperm.filter p, ?_⟩
  clear hperm
  induction hall with
  | nil => exact List.Forall₂.nil
  | cons hb _ ih =>
    rw [List.filter_cons, List.filter_cons, hp _ _ hb]
    split
    · exact List.Forall₂.cons hb ih
    · exact ih

/-- What is collected bundle by bundle is permuted when each contribution is. -/
theorem EvidenceReorders.flatMap {α : Type} {evidence evidence' : List ReachabilityEvidence}
    (h : EvidenceReorders evidence evidence') {f : ReachabilityEvidence → List α}
    (hf : ∀ b b' : ReachabilityEvidence, b.Reorders b' → (f b).Perm (f b')) :
    (evidence.flatMap f).Perm (evidence'.flatMap f) := by
  obtain ⟨shuffled, hperm, hall⟩ := h
  refine (hperm.flatMap_right f).trans ?_
  clear hperm
  induction hall with
  | nil => exact List.Perm.refl _
  | cons hb _ ih =>
    rw [List.flatMap_cons, List.flatMap_cons]
    exact (hf _ _ hb).append ih

theorem freshOf_reorders {evidence evidence' : List ReachabilityEvidence}
    (h : EvidenceReorders evidence evidence') :
    EvidenceReorders (freshOf roster policyAge tickNow evidence)
      (freshOf roster policyAge tickNow evidence') :=
  h.filter fun b b' hb => by rw [hb.topologyGeneration_eq, hb.freshBundle_eq]

theorem expiredOf_reorders {evidence evidence' : List ReachabilityEvidence}
    (h : EvidenceReorders evidence evidence') :
    EvidenceReorders (expiredOf roster policyAge tickNow evidence)
      (expiredOf roster policyAge tickNow evidence') :=
  h.filter fun b b' hb => by rw [hb.topologyGeneration_eq, hb.freshBundle_eq]

/-- The conflict flag stands exactly when some source is covered twice. -/
def Gathered.ConflictExact (g : Gathered) : Prop :=
  g.coverageConflict = true ↔ ∃ s, 2 ≤ g.coverCount.getD s 0

theorem Gathered.ConflictExact.cover {g : Gathered} (h : g.ConflictExact) (index : Nat) :
    (g.cover index).ConflictExact := by
  rw [Gathered.ConflictExact] at h ⊢
  simp only [Gathered.cover, Bool.or_eq_true, decide_eq_true_eq, h, List.getD_eq_getElem?_getD,
    List.getElem?_set]
  constructor
  · rintro (⟨s, hs⟩ | hcovered)
    · refine ⟨s, ?_⟩
      by_cases his : index = s
      · subst his
        have hlt : index < g.coverCount.length := by
          by_contra hout
          rw [List.getElem?_eq_none (by omega)] at hs
          simp at hs
        simp only [if_true, hlt, Option.getD_some]
        omega
      · simpa [his] using hs
    · -- a source outside the table reads zero, and is never covered twice
      refine ⟨index, ?_⟩
      have hlt : index < g.coverCount.length := by
        by_contra hout
        rw [List.getElem?_eq_none (by omega)] at hcovered
        simp at hcovered
      simpa [hlt] using hcovered
  · rintro ⟨s, hs⟩
    by_cases his : index = s
    · subst his
      refine .inr ?_
      rw [if_pos rfl] at hs
      split at hs
      · exact hs
      · simp at hs
    · exact .inl ⟨s, by simpa [his] using hs⟩

theorem Gathered.ConflictExact.foldl_cover (indices : List Nat) {g : Gathered}
    (h : g.ConflictExact) : (indices.foldl Gathered.cover g).ConflictExact := by
  induction indices generalizing g with
  | nil => exact h
  | cons index rest ih => exact ih (h.cover index)

theorem Gathered.ConflictExact.absorb {g : Gathered} (h : g.ConflictExact)
    (b : ReachabilityEvidence) : (g.absorb roster policyAge tickNow limits b).ConflictExact := by
  rw [Gathered.absorb]
  split
  · exact h
  · split
    · dsimp only
      split
      · exact Gathered.ConflictExact.foldl_cover (coveredIndices roster b) h
      · exact h
    · exact h

theorem gather_conflictExact (evidence : List ReachabilityEvidence) :
    (gather roster policyAge tickNow limits evidence).ConflictExact := by
  have hrun : ∀ (bundles : List ReachabilityEvidence) (g : Gathered), g.ConflictExact →
      (bundles.foldl (Gathered.absorb roster policyAge tickNow limits) g).ConflictExact := by
    intro bundles
    induction bundles with
    | nil => exact fun _ h => h
    | cons b rest ih => exact fun g h => ih _ (h.absorb b)
  refine hrun evidence _ ?_
  rw [Gathered.ConflictExact]
  simp only [Bool.false_eq_true, false_iff, not_exists, not_le]
  intro s
  rw [List.getD_eq_getElem?_getD, List.getElem?_replicate]
  split <;> simp

/-- What the loop accumulates from two orders of one evidence set. -/
structure Gathered.Reorders (g g' : Gathered) : Prop where
  fresh : g.fresh.Perm g'.fresh
  covering : g.covering.Perm g'.covering
  staleKeys : g.staleKeys.Perm g'.staleKeys
  coverCount : g.coverCount = g'.coverCount
  coverageConflict : g.coverageConflict = g'.coverageConflict

theorem gather_reorders {evidence evidence' : List ReachabilityEvidence}
    (h : EvidenceReorders evidence evidence') :
    (gather roster policyAge tickNow limits evidence).Reorders
      (gather roster policyAge tickNow limits evidence') := by
  have hg := gather_holds roster policyAge tickNow limits evidence
  have hg' := gather_holds roster policyAge tickNow limits evidence'
  have hfresh : EvidenceReorders (freshOf roster policyAge tickNow evidence)
      (freshOf roster policyAge tickNow evidence') := freshOf_reorders h
  have hexpired : EvidenceReorders (expiredOf roster policyAge tickNow evidence)
      (expiredOf roster policyAge tickNow evidence') := expiredOf_reorders h
  have hcount : (gather roster policyAge tickNow limits evidence).coverCount
      = (gather roster policyAge tickNow limits evidence').coverCount := by
    refine List.ext_getElem (hg.coverCount_length.trans hg'.coverCount_length.symm) ?_
    intro s hs hs'
    have hsize : s < roster.size := hg.coverCount_length ▸ hs
    have hperm := hfresh.flatMap fun b b' hb => hb.claimedIndices_perm roster
    have heq := (hg.coverCount_eq s hsize).trans
      ((hperm.count_eq s).trans (hg'.coverCount_eq s hsize).symm)
    simpa [List.getD_eq_getElem?_getD, hs, hs'] using heq
  refine ⟨?_, ?_, ?_, hcount, ?_⟩
  · rw [hg.fresh_eq, hg'.fresh_eq]
    exact hfresh.flatMap fun b b' hb => hb.packObservations_perm roster
  · rw [hg.covering_eq, hg'.covering_eq]
    exact hfresh.flatMap fun b b' hb => hb.claimedObservations_perm roster
  · rw [hg.staleKeys_eq, hg'.staleKeys_eq]
    exact (hexpired.flatMap fun b b' hb => hb.packObservations_perm roster).map _
  · have hexact : (gather roster policyAge tickNow limits evidence).ConflictExact :=
      gather_conflictExact evidence
    have hexact' : (gather roster policyAge tickNow limits evidence').ConflictExact :=
      gather_conflictExact evidence'
    rw [Gathered.ConflictExact] at hexact hexact'
    rw [Bool.eq_iff_iff, hexact, hexact', hcount]

end Gather

/-! ## The context -/

theorem ObservationFlags.value_injective : Function.Injective ObservationFlags.value := by
  rintro ⟨a, b⟩ ⟨a', b'⟩ h
  revert a b a' b'
  decide

/-- The sort order of observations tells any two different ones apart. -/
theorem PackedObservation.sortKey_injective : Function.Injective PackedObservation.sortKey := by
  intro o o' h
  rw [sortKey, sortKey, toLex_inj, Prod.mk.injEq] at h
  obtain ⟨hs, ht⟩ := pairKey_inj.mp h.1
  have hvalue := ObservationFlags.value_injective h.2
  cases o
  cases o'
  simp_all

/-- Sorting forgets the order the observations came in. -/
theorem sortObservations_perm {os os' : List PackedObservation} (h : os.Perm os') :
    sortObservations os = sortObservations os' := by
  refine List.Perm.eq_of_pairwise (fun a b _ _ hab hba => ?_)
    (sortedBy_insertionSort PackedObservation.sortKey os)
    (sortedBy_insertionSort PackedObservation.sortKey os') ?_
  · exact PackedObservation.sortKey_injective (le_antisymm hab hba)
  · exact (List.perm_insertionSort _ os).trans (h.trans (List.perm_insertionSort _ os').symm)

theorem PackedKeySet.assign_perm {keys keys' : List PairKey} (h : keys.Perm keys') :
    PackedKeySet.assign keys = PackedKeySet.assign keys' := by
  rw [assign, assign]
  refine congrArg (fun sorted => PackedKeySet.mk (unique sorted)) ?_
  refine List.Perm.eq_of_pairwise (fun a b _ _ => le_antisymm) (List.pairwise_insertionSort _ keys)
    (List.pairwise_insertionSort _ keys') ?_
  exact (List.perm_insertionSort _ keys).trans (h.trans (List.perm_insertionSort _ keys').symm)

/-- **The context of an evidence set does not depend on its order.** -/
theorem Gathered.Reorders.context_eq {g g' : Gathered} (h : g.Reorders g') (count : Nat) :
    g.context count = g'.context count := by
  rw [Gathered.context, Gathered.context, OrderedIndex.build, OrderedIndex.build,
    CoverCounter.build, CoverCounter.build, sortObservations_perm h.fresh,
    sortObservations_perm h.covering, PackedKeySet.assign_perm h.staleKeys, h.coverCount]

/-! ## The snapshot and its partitions -/

/-- Two snapshots of one decomposition: everything but the log of what was gathered agrees. -/
structure ReachabilitySnapshot.Agrees (s s' : ReachabilitySnapshot) : Prop where
  valid : s.valid = s'.valid
  topologyGeneration : s.topologyGeneration = s'.topologyGeneration
  components : s.components = s'.components
  weights : s.weights = s'.weights
  voters : s.voters = s'.voters
  edges : s.edges = s'.edges
  componentOf : s.componentOf = s'.componentOf
  componentSizes : s.componentSizes = s'.componentSizes
  componentRepresentatives : s.componentRepresentatives = s'.componentRepresentatives
  counters : s.counters = s'.counters
  confirmed : s.confirmed = s'.confirmed
  completeCoverageConflict : s.completeCoverageConflict = s'.completeCoverageConflict
  evidenceDigest : s.evidenceDigest = s'.evidenceDigest

theorem buildReachabilitySnapshot_reorders {evidence evidence' : List ReachabilityEvidence}
    (h : EvidenceReorders evidence evidence') (roster : ComponentRoster)
    (policy : Option PartitionPolicy) (nowTick : UInt64) (limits : Limits) :
    (buildReachabilitySnapshot roster evidence policy nowTick limits).Agrees
      (buildReachabilitySnapshot roster evidence' policy nowTick limits) := by
  have hg : (gather roster (policyAge policy) nowTick limits evidence).Reorders
      (gather roster (policyAge policy) nowTick limits evidence') := gather_reorders h
  have hctx := hg.context_eq roster.size
  rw [buildReachabilitySnapshot, buildReachabilitySnapshot]
  by_cases hset : roster.set = false
  · rw [if_pos hset, if_pos hset]
    constructor <;> rfl
  · rw [if_neg hset, if_neg hset]
    dsimp only
    by_cases hsize : roster.size = 0
    · rw [if_pos hsize, if_pos hsize]
      constructor <;> rfl
    · rw [if_neg hsize, if_neg hsize, hctx]
      constructor <;> first | rfl | exact hg.coverageConflict

/-- The partitions are a function of the decomposition, its weights and its voters. -/
theorem buildPartitions_agrees {s s' : ReachabilitySnapshot} (h : s.Agrees s')
    (generation : PartitionGeneration) (store : LineageStore) (limits : Limits) :
    buildPartitions s generation store limits = buildPartitions s' generation store limits := by
  have hgroups : s.groups = s'.groups := by
    rw [ReachabilitySnapshot.groups, ReachabilitySnapshot.groups, h.components, h.componentOf,
      h.componentRepresentatives]
    simp only [ReachabilitySnapshot.ordinal, h.componentRepresentatives]
  have hbuild : buildPartition s generation store limits
      = buildPartition s' generation store limits := by
    funext group
    rw [buildPartition, buildPartition, h.components, h.weights, h.voters, h.confirmed]
  rw [buildPartitions, buildPartitions, h.valid, h.components, h.componentRepresentatives, hgroups,
    hbuild]

/-- **The order of the inputs leaves no trace.**  Reordering the components of the topology, the
bundles, and inside each bundle the observations and the covered sources, changes neither whether
a roster is created nor the decomposition it resolves to, and the partitions built over one lineage
store are the same, one by one. -/
theorem snapshot_order_independent {definition definition' : TopologyDefinition}
    {evidence evidence' : List ReachabilityEvidence} (hdefinition : definition.Reorders definition')
    (hevidence : EvidenceReorders evidence evidence') (policy : Option PartitionPolicy)
    (nowTick : UInt64) (limits : Limits) :
    (ComponentRoster.create definition limits).isSome
        = (ComponentRoster.create definition' limits).isSome
      ∧ ∀ roster roster', ComponentRoster.create definition limits = some roster →
        ComponentRoster.create definition' limits = some roster' →
        (buildReachabilitySnapshot roster evidence policy nowTick limits).Agrees
            (buildReachabilitySnapshot roster' evidence' policy nowTick limits)
          ∧ ∀ generation store,
            buildPartitions (buildReachabilitySnapshot roster evidence policy nowTick limits)
                generation store limits
              = buildPartitions (buildReachabilitySnapshot roster' evidence' policy nowTick limits)
                generation store limits := by
  have hcreate := ComponentRoster.create_reorders hdefinition limits
  refine ⟨by rw [hcreate], ?_⟩
  intro roster roster' hroster hroster'
  have heq : roster = roster' := by
    rw [hcreate, hroster, Option.some.injEq] at hroster'
    exact hroster'
  subst heq
  have hagrees := buildReachabilitySnapshot_reorders hevidence roster policy nowTick limits
  exact ⟨hagrees, fun generation store => buildPartitions_agrees hagrees generation store limits⟩

/-! ### The fabric of two components, written down backwards -/

/-- The topology of the two components, in some order. -/
def pairTopology (components : List ComponentId) : TopologyDefinition where
  id := TextId.fromValidated (ascii "topology") isValidId_topology
  generation := .zero
  provenance := .nil
  components := components

/-- The evidence of the two components, with its observations the other way round. -/
def pairEvidenceBackwards : ReachabilityEvidence :=
  { pairEvidence with observations := pairEvidence.observations.reverse }

theorem snapshot_order_independent_pair :
    ∃ roster roster',
      ComponentRoster.create (pairTopology pairRoster.components) defaultLimits = some roster
      ∧ ComponentRoster.create (pairTopology pairRoster.components.reverse) defaultLimits
          = some roster'
      ∧ (buildReachabilitySnapshot roster [pairEvidence] none 0 defaultLimits).Agrees
          (buildReachabilitySnapshot roster' [pairEvidenceBackwards] none 0 defaultLimits) := by
  have hsome : (ComponentRoster.create (pairTopology pairRoster.components)
      defaultLimits).isSome = true := by decide +kernel
  have hdefinition : (pairTopology pairRoster.components).Reorders
      (pairTopology pairRoster.components.reverse) := ⟨rfl, (List.reverse_perm _).symm⟩
  have hevidence : EvidenceReorders [pairEvidence] [pairEvidenceBackwards] :=
    ⟨[pairEvidence], List.Perm.refl _, .cons ⟨rfl, List.Perm.refl _, (List.reverse_perm _).symm⟩ .nil⟩
  obtain ⟨hcreated, hagrees⟩ :=
    snapshot_order_independent hdefinition hevidence none 0 defaultLimits
  obtain ⟨roster, hroster⟩ := Option.isSome_iff_exists.mp hsome
  obtain ⟨roster', hroster'⟩ := Option.isSome_iff_exists.mp (hcreated.symm.trans hsome)
  exact ⟨roster, roster', hroster, hroster', (hagrees roster roster' hroster hroster').1⟩

end FabricPartition
