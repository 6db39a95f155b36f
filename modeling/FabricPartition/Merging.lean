import FabricPartition.Run

/-!
# Merging

When a merge is granted, and whether anything but a merge can take its place.

`request_merge` reads the snapshot the last assessment cached.  What it may rely on is the invariant
`Cached`: a partition of the current generation is a component set of that snapshot.  What it may not
rely on is that the snapshot still says what the inputs say now: ticks, evidence, policy and roster
all move without touching the cache.
-/

set_option autoImplicit false

namespace FabricPartition

namespace PartitionRuntime

/-! ## The cached snapshot -/

/-- No partition is of a later generation than the counter, and those of the current generation are
component sets of the cached snapshot. -/
def Cached (r : PartitionRuntime) : Prop :=
  ∀ p ∈ r.partitions, p.generation.value.toNat ≤ r.state.partitionGeneration.value.toNat ∧
    (p.generation = r.state.partitionGeneration → p.members ∈ r.snapshot.componentSets)

theorem Surveyed.cached {allowRestore : Bool} {generation : PartitionGeneration}
    {r r' : PartitionRuntime} {outcome : PartitionAssessment}
    (h : Surveyed allowRestore generation r r' outcome) : Cached r' := by
  have hbuilt : ∀ q ∈ outcome.partitions, q.generation = generation ∧
      q.members ∈ r.currentSnapshot.componentSets := by
    intro q hq
    obtain ⟨p, hp, _, _, _, _, _, rfl⟩ := h.built hq
    exact ⟨hp.generation_eq, hp.members_mem (buildReachabilitySnapshot_labelled _ _ _ _ _)⟩
  obtain ⟨-, -, _, _, _, _, _, _, _, _, _, -, rfl⟩ := h.cases
  intro q hq
  obtain ⟨hgen, hmem⟩ := hbuilt q hq
  exact ⟨by rw [hgen]; exact le_rfl, fun _ => hmem⟩

/-- A generation that was abandoned leaves only partitions of earlier ones. -/
theorem Cached.begun {r : PartitionRuntime} (h : Cached r) (allowRestore : Bool)
    {generation : PartitionGeneration}
    (hnext : r.state.partitionGeneration.next = some generation) :
    Cached (begun allowRestore generation r) := by
  intro p hp
  have hle := (h p hp).1
  have hsucc := Counter.next_toNat hnext
  refine ⟨?_, fun hgen => ?_⟩
  · show p.generation.value.toNat ≤ generation.value.toNat
    omega
  · have : p.generation.value.toNat = generation.value.toNat := congrArg (·.value.toNat) hgen
    omega

/-- **The cache invariant survives every move.** -/
theorem Move.cached {r r' : PartitionRuntime} (hmove : Move r r') (h : Cached r) : Cached r' := by
  cases hmove with
  | quiet hq =>
    obtain ⟨_, _, _, _, _, -, rfl⟩ := hq
    exact h
  | stored hst =>
    obtain ⟨_, -, rfl⟩ := hst
    exact h
  | superseded =>
    intro p hp
    obtain ⟨q, hq, rfl⟩ := List.mem_map.mp hp
    exact h q hq
  | interrupted _ hint =>
    obtain ⟨_, _, -, -, _, _, _, -, -, -, rfl⟩ := hint
    exact h
  | fenced _ hf =>
    obtain ⟨_, _, _, -, -, -, rfl⟩ := hf
    exact h
  | @abandoned allowRestore _ _ _ hnext hq =>
    obtain ⟨_, _, _, _, _, -, rfl⟩ := hq
    exact h.begun allowRestore hnext
  | surveyed _ _ hs => exact hs.cached
  | faults | clock | evidence | policy | roster | isolations | forgot | recorded | acknowledged
  | verified | refused | closed => exact h

/-- Every runtime a run reaches from a start is cached. -/
theorem cached_after {options : RuntimeOptions} {disk : Disk} {ids : BootIdentities}
    {faults : List (Option AppendFault)} (cs : List Call) :
    Cached ((construct options disk ids faults).2.after cs) := by
  refine after_invariant (fun _ _ hmove => hmove.cached) ?_ cs
  intro p hp
  rw [(construct_booted options disk ids faults).partitions] at hp
  cases hp

/-! ## A granted merge and its evidence -/

/-- A snapshot supports a member set: it rests on fresh evidence, its decomposition is confirmed, and
the set is one of its components. -/
def Supports (snapshot : ReachabilitySnapshot) (members : List ComponentId) : Prop :=
  snapshot.anyEvidenceFresh = true ∧ snapshot.confirmed = true ∧ members ∈ snapshot.componentSets

/-- Two snapshots agree about a member set, in everything a merge asks of a snapshot. -/
def AgreeOn (members : List ComponentId) (left right : ReachabilitySnapshot) : Prop :=
  left.anyEvidenceFresh = right.anyEvidenceFresh ∧ left.confirmed = right.confirmed ∧
    (members ∈ left.componentSets ↔ members ∈ right.componentSets)

/-- Two components are found apart, then together. -/
def reunion : List Call :=
  [⟨.adoptTopology (smallTopology 1 ["a", "b"]), []⟩,
    ⟨.ingestEvidence (smallBundle 1 0 (bothWays [("a", "b")] .unreachable)), []⟩,
    ⟨.assess, []⟩,
    ⟨.advanceTicks 20, []⟩,
    ⟨.ingestEvidence (smallBundle 2 20 (bothWays [("a", "b")] .reachable)), []⟩,
    ⟨.assess, []⟩]

/-- A request to merge the first partition, under its first two pending parents. -/
def mergeFirst (attempt : Nat) (r : PartitionRuntime) : MergeRequest :=
  let subject := r.partitions.headD {}
  { attempt := smallAttempt attempt
    expectedEpoch := r.state.epoch
    subject := subject.id
    left := subject.pendingMergeParents.getD 0 .nil
    right := subject.pendingMergeParents.getD 1 .nil }

end PartitionRuntime

end FabricPartition
