import FabricPartition.Authority
import FabricPartition.Evidence
import FabricPartition.Lineage

/-!
# Partitions

`partition.hpp`: one partition for each component of a reachability snapshot, with the lineage its
membership descends from.

How a component set is related to the live lineages decides its identity (`classifyLineage`): it
meets none of them (genesis), exactly one — with the same membership (inherit), a part of it
(split), or anything else (divergent) — or several, in which case a governed merge is pending.  Other
modules never unfold the construction: every partition it returns is `Built` from one of the groups
(`mem_buildPartitions`), and the facts about a built partition are stated beside it.
-/

set_option autoImplicit false

namespace FabricPartition

/-- Is the decomposition proven? -/
inductive PartitionCertainty
  | partialDecomposition | confirmed
  deriving DecidableEq

namespace PartitionCertainty

/-- The value of the enumerator. -/
def code : PartitionCertainty → UInt8
  | partialDecomposition => 0
  | confirmed => 1

/-- The enumerator with a value, if there is one. -/
def ofCode (v : UInt8) : Option PartitionCertainty :=
  [partialDecomposition, confirmed].find? fun c => c.code == v

@[simp]
theorem ofCode_code (c : PartitionCertainty) : ofCode c.code = some c := by
  cases c <;> rfl

end PartitionCertainty

/-- Where a partition is in its life. -/
inductive PartitionLifecycle
  | discovered | committed | interrupted | superseded | merged | retired
  deriving DecidableEq

namespace PartitionLifecycle

/-- The value of the enumerator. -/
def code : PartitionLifecycle → UInt8
  | discovered => 0
  | committed => 1
  | interrupted => 2
  | superseded => 3
  | merged => 4
  | retired => 5

/-- The enumerator with a value, if there is one. -/
def ofCode (v : UInt8) : Option PartitionLifecycle :=
  [discovered, committed, interrupted, superseded, merged, retired].find? fun l => l.code == v

@[simp]
theorem ofCode_code (l : PartitionLifecycle) : ofCode l.code = some l := by
  cases l <;> rfl

end PartitionLifecycle

/-- A partition. -/
structure Partition where
  id : PartitionId := .nil
  membership : MembershipDigest := default
  generation : PartitionGeneration := .zero
  lineage : LineageId := .nil
  members : List ComponentId := []
  weights : List UInt64 := []
  totalWeight : UInt64 := 0
  voterCount : UInt32 := 0
  certainty : PartitionCertainty := .partialDecomposition
  lifecycle : PartitionLifecycle := .discovered
  authority : AuthorityVector := {}
  authoritySequence : AuthoritySequence := .zero
  parentLineage : LineageId := .nil
  authoritative : Bool := false
  pendingMergeParents : List LineageId := []
  reasons : List Reason := []
  deriving DecidableEq

/-- Does the partition hold a grant? -/
def Partition.granted (p : Partition) : Bool := !p.authority.authorized.empty

/-- `compute_partition_id`. -/
def computePartitionId (lineage : LineageId) (generation : PartitionGeneration)
    (membership : MembershipDigest) : PartitionId :=
  let hasher := ({} : Sha256).updateText (ascii "fabric-partition-manager/partition-identity/v1")
  let hasher := (hasher.updateText lineage.text).updateBe64 generation.value
  TextId.fromValidated (hexIdentifier 112 (hasher.update membership.value.bytes).finish)
    (isValidId_hexIdentifier (by decide) (by decide) _)

/-- The loop of `partition_canonical_less` over the two member lists. -/
def membersLess : List ComponentId → List ComponentId → Bool
  | [], rhs => !rhs.isEmpty
  | _ :: _, [] => false
  | a :: as, b :: bs => if a < b then true else if b < a then false else membersLess as bs

/-- `partition_canonical_less`. -/
def partitionCanonicalLess (lhs rhs : Partition) : Bool := membersLess lhs.members rhs.members

/-- `std::includes` on two sorted ranges. -/
def includes {α : Type} [LT α] [DecidableLT α] : List α → List α → Bool
  | _, [] => true
  | [], _ :: _ => false
  | x :: xs, y :: ys =>
    if y < x then false else if x < y then includes xs (y :: ys) else includes xs ys

/-! ## Component groups -/

namespace ReachabilitySnapshot

/-- The `ordinal` table: the position of a representative, and zero elsewhere. -/
def ordinal (snapshot : ReachabilitySnapshot) (label : Nat) : Nat :=
  (snapshot.componentRepresentatives.idxOf? label).getD 0

/-- The indices of each component, in the order of the representatives. -/
def groups (snapshot : ReachabilitySnapshot) : List (List Nat) :=
  (List.range snapshot.componentRepresentatives.length).map fun k =>
    (List.range snapshot.components.length).filter fun index =>
      snapshot.ordinal (snapshot.componentOf.getD index 0) == k

/-- The component a representative stands for, as a list of identifiers in canonical order. -/
def componentMembers (snapshot : ReachabilitySnapshot) (representative : Nat) : List ComponentId :=
  ((List.range snapshot.components.length).filter fun index =>
    snapshot.componentOf.getD index 0 == representative).map
      fun index => snapshot.components.getD index .nil

/-- The component sets of a snapshot. -/
def componentSets (snapshot : ReachabilitySnapshot) : List (List ComponentId) :=
  snapshot.componentRepresentatives.map snapshot.componentMembers

end ReachabilitySnapshot

/-! ## Lineage classification -/

/-- How a membership is related to the live lineages. -/
inductive LineageClassification
  | genesis | inherit | split | divergent | pendingMerge
  deriving DecidableEq

/-- The live lineages whose latest members meet a member set, sorted: the `member_owners` lookups of
every member, then `std::sort` and `std::unique`. -/
def intersecting (store : LineageStore) (members : List ComponentId) : List LineageId :=
  let owners (member : ComponentId) : List LineageId :=
    store.liveLineages.filter fun l => (store.latest l).any fun r => r.members.contains member
  SortedList.unique ((members.flatMap owners).insertionSort (· ≤ ·))

/-- The provisional identity of a membership that spans several live lineages. -/
def pendingMergeLineageId (parents : List LineageId) (membership : MembershipDigest) : LineageId :=
  match parents with
  | [] => deriveLineageId "pending-merge" .nil .nil membership
  | first :: rest =>
    deriveLineageId "pending-merge" (rest.foldl mergeLineageId first) .nil membership

/-- What the classification of a membership yields. -/
structure LineageChoice where
  classification : LineageClassification
  lineage : LineageId
  parentLineage : LineageId := .nil
  pendingMergeParents : List LineageId := []

/-- The lineage classification of `build_partitions`. -/
def classifyLineage (store : LineageStore) (members : List ComponentId)
    (membership : MembershipDigest) : LineageChoice :=
  match intersecting store members with
  | [] => { classification := .genesis, lineage := genesisLineageId membership }
  | [l] =>
    match store.latest l with
    | some record =>
      if record.membership = membership then { classification := .inherit, lineage := l }
      else if includes record.members members then
        { classification := .split
          lineage := splitLineageId l membership
          parentLineage := l }
      else
        { classification := .divergent
          lineage := deriveLineageId "divergent" l .nil membership
          parentLineage := l }
    | none =>
      { classification := .divergent
        lineage := deriveLineageId "divergent" l .nil membership
        parentLineage := l }
  | parents =>
    { classification := .pendingMerge
      lineage := pendingMergeLineageId parents membership
      pendingMergeParents := parents }

/-- The reason each classification is explained by. -/
def LineageClassification.reason : LineageClassification → ReasonCode × String
  | .genesis => (.mergeNewLineageEstablished, "no prior lineage intersects this membership")
  | .inherit => (.mergeInheritedLineage, "membership is unchanged from the live lineage")
  | .split => (.partitionGenerationAdvanced, "membership is a strict subset of a live lineage")
  | .divergent =>
    (.mergeRejectedLineageConflict,
      "membership only partially overlaps a live lineage; lineage diverged")
  | .pendingMerge =>
    (.mergeRejectedLineageConflict,
      "membership spans multiple live lineages and requires a governed merge")

/-- The reasons a partition starts with. -/
def partitionReasons (id : PartitionId) (certainty : PartitionCertainty) (memberCount : Nat)
    (classification : LineageClassification) (limits : Limits) : List Reason :=
  let reasons := appendReason [] .partitionDetected id.text
    (ascii "component set detected in the current reachability decomposition") limits
  let reasons := appendReason reasons .partitionMembershipCanonical id.text
    (ascii "membership digest derived from the canonically ordered member set") limits
  let reasons := appendReason reasons
    (if certainty = .confirmed then .partitionConfirmed else .partitionPartial) id.text
    (decimal memberCount ++ ascii " members") limits
  appendReason reasons classification.reason.1 id.text (ascii classification.reason.2) limits

/-- One turn of the loop over the groups. -/
def buildPartition (snapshot : ReachabilitySnapshot) (generation : PartitionGeneration)
    (store : LineageStore) (limits : Limits) (group : List Nat) : Partition :=
  let members := group.map fun index => snapshot.components.getD index .nil
  let weights := group.map fun index => snapshot.weights.getD index 0
  let membership := computeMembershipDigest members
  let certainty : PartitionCertainty :=
    if snapshot.confirmed then .confirmed else .partialDecomposition
  let choice := classifyLineage store members membership
  let id := computePartitionId choice.lineage generation membership
  { id := id
    membership := membership
    generation := generation
    lineage := choice.lineage
    members := members
    weights := weights
    totalWeight := weights.foldl (· + ·) 0
    voterCount := group.foldl (fun n index => if snapshot.voters.getD index false then n + 1 else n) 0
    certainty := certainty
    lifecycle := .discovered
    authority := observedOnlyAuthority .none []
    parentLineage := choice.parentLineage
    pendingMergeParents := choice.pendingMergeParents
    reasons := partitionReasons id certainty members.length choice.classification limits }

/-- `build_partitions`. -/
def buildPartitions (snapshot : ReachabilitySnapshot) (generation : PartitionGeneration)
    (store : LineageStore) (limits : Limits) : List Partition :=
  if !snapshot.valid then []
  else if snapshot.components.length = 0 then []
  else if snapshot.componentRepresentatives.length > limits.maxPartitions then []
  else
    (snapshot.groups.map (buildPartition snapshot generation store limits)).insertionSort
      fun lhs rhs => partitionCanonicalLess rhs lhs = false

/-! ## What a built partition satisfies -/

/-- **A component set meets a live lineage** exactly when it holds one of the lineage's latest
members. -/
theorem mem_intersecting {store : LineageStore} {members : List ComponentId} {l : LineageId} :
    l ∈ intersecting store members ↔
      l ∈ store.liveLineages ∧ ∃ r, store.latest l = some r ∧ ∃ c ∈ members, c ∈ r.members := by
  rw [intersecting, SortedList.mem_unique (List.pairwise_insertionSort _ _),
    List.mem_insertionSort, List.mem_flatMap]
  simp only [List.mem_filter, Option.any_eq_true, List.contains_iff_mem]
  refine ⟨?_, ?_⟩
  · rintro ⟨c, hc, hlive, r, hr, hcr⟩
    exact ⟨hlive, r, hr, c, hc, hcr⟩
  · rintro ⟨hlive, r, hr, c, hc, hcr⟩
    exact ⟨c, hc, hlive, r, hr, hcr⟩

theorem intersecting_nodup (store : LineageStore) (members : List ComponentId) :
    (intersecting store members).Nodup :=
  (SortedList.unique_pairwise_lt (List.pairwise_insertionSort _ _)).imp fun h => ne_of_lt h

/-- A partition built from one of the groups of a snapshot. -/
def Built (snapshot : ReachabilitySnapshot) (generation : PartitionGeneration)
    (store : LineageStore) (limits : Limits) (p : Partition) : Prop :=
  ∃ g ∈ snapshot.groups, p = buildPartition snapshot generation store limits g

namespace Built

variable {snapshot : ReachabilitySnapshot} {generation : PartitionGeneration}
  {store : LineageStore} {limits : Limits} {p : Partition}

theorem generation_eq (h : Built snapshot generation store limits p) :
    p.generation = generation := by
  obtain ⟨g, -, rfl⟩ := h
  rfl

theorem membership_eq (h : Built snapshot generation store limits p) :
    p.membership = computeMembershipDigest p.members := by
  obtain ⟨g, -, rfl⟩ := h
  rfl

theorem lineage_eq (h : Built snapshot generation store limits p) :
    p.lineage = (classifyLineage store p.members p.membership).lineage := by
  obtain ⟨g, -, rfl⟩ := h
  rfl

theorem parent_eq (h : Built snapshot generation store limits p) :
    p.parentLineage = (classifyLineage store p.members p.membership).parentLineage := by
  obtain ⟨g, -, rfl⟩ := h
  rfl

theorem pending_eq (h : Built snapshot generation store limits p) :
    p.pendingMergeParents = (classifyLineage store p.members p.membership).pendingMergeParents := by
  obtain ⟨g, -, rfl⟩ := h
  rfl

theorem id_eq (h : Built snapshot generation store limits p) :
    p.id = computePartitionId p.lineage p.generation p.membership := by
  obtain ⟨g, -, rfl⟩ := h
  rfl

theorem lifecycle_eq (h : Built snapshot generation store limits p) :
    p.lifecycle = .discovered := by
  obtain ⟨g, -, rfl⟩ := h
  rfl

end Built

theorem mem_buildPartitions {snapshot : ReachabilitySnapshot} {generation : PartitionGeneration}
    {store : LineageStore} {limits : Limits} {p : Partition}
    (h : p ∈ buildPartitions snapshot generation store limits) :
    Built snapshot generation store limits p := by
  rw [buildPartitions] at h
  split at h
  · cases h
  · split at h
    · cases h
    · split at h
      · cases h
      · rw [List.mem_insertionSort, List.mem_map] at h
        obtain ⟨g, hg, rfl⟩ := h
        exact ⟨g, hg, rfl⟩

/-- The groups of a labelled snapshot are its component sets. -/
theorem ReachabilitySnapshot.Labelled.mem_componentSets {snapshot : ReachabilitySnapshot}
    (h : snapshot.Labelled) {g : List Nat} (hg : g ∈ snapshot.groups) :
    g.map (fun index => snapshot.components.getD index .nil) ∈ snapshot.componentSets := by
  obtain ⟨k, hk, rfl⟩ := List.mem_map.mp hg
  have hk := List.mem_range.mp hk
  refine List.mem_map.mpr ⟨snapshot.componentRepresentatives[k], List.getElem_mem hk, ?_⟩
  rw [componentMembers]
  refine congrArg (List.map _) (List.filter_congr fun index hindex => ?_)
  have hlabel := h.label_mem index (List.mem_range.mp hindex)
  rw [ordinal]
  generalize snapshot.componentOf.getD index 0 = label at hlabel
  obtain ⟨m, hm, rfl⟩ := List.getElem_of_mem hlabel
  rw [List.idxOf?_eq_some_iff.mpr ⟨hm, by simp, fun j hj => by
    simpa using fun heq => hj.ne (h.nodup.getElem_inj_iff.mp heq)⟩]
  simp [h.nodup.getElem_inj_iff]

theorem Built.members_mem {snapshot : ReachabilitySnapshot} {generation : PartitionGeneration}
    {store : LineageStore} {limits : Limits} {p : Partition}
    (h : Built snapshot generation store limits p) (hlabelled : snapshot.Labelled) :
    p.members ∈ snapshot.componentSets := by
  obtain ⟨g, hg, rfl⟩ := h
  exact hlabelled.mem_componentSets hg

theorem length_buildPartitions_le (snapshot : ReachabilitySnapshot)
    (generation : PartitionGeneration) (store : LineageStore) (limits : Limits) :
    (buildPartitions snapshot generation store limits).length ≤ limits.maxPartitions := by
  rw [buildPartitions]
  split
  · simp
  · split
    · simp
    · split
      · simp
      · rw [List.length_insertionSort, List.length_map, ReachabilitySnapshot.groups,
          List.length_map, List.length_range]
        omega

/-- The classification of a membership, case by case of the live lineages it meets. -/
theorem classifyLineage_pending (store : LineageStore) (members : List ComponentId)
    (membership : MembershipDigest) :
    (classifyLineage store members membership).pendingMergeParents =
      if 2 ≤ (intersecting store members).length then intersecting store members else [] := by
  rw [classifyLineage]
  rcases h : intersecting store members with _ | ⟨a, _ | ⟨b, rest⟩⟩
  · simp
  · dsimp only
    split
    · split
      · rfl
      · split <;> rfl
    · rfl
  · simp

end FabricPartition
