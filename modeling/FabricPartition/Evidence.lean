import FabricPartition.Policy
import FabricPartition.Topology

/-!
# Reachability evidence

The data of `evidence.hpp`: observations, bundles, the resolution of a pair, and the snapshot an
evidence set resolves to.

Indices, sizes and pair counts are natural numbers.  The source keeps indices in 32 bits and counts
in 64; a roster of fewer than `2 ^ 32` components overflows neither, and `Accounting` shows every
subtraction of the closed forms to be exact.
-/

set_option autoImplicit false

namespace FabricPartition

/-- A raw, single-direction observation. -/
inductive Reachability
  | unknown | reachable | unreachable
  deriving DecidableEq

/-- The value of the enumerator. -/
def Reachability.value : Reachability → Nat
  | .unknown => 0
  | .reachable => 1
  | .unreachable => 2

namespace Reachability

/-- The enumerator as a byte. -/
def code (r : Reachability) : UInt8 := UInt8.ofNat r.value

/-- The enumerator with a value, if there is one. -/
def ofCode (v : UInt8) : Option Reachability :=
  [unknown, reachable, unreachable].find? fun r => r.code == v

@[simp]
theorem ofCode_code (r : Reachability) : ofCode r.code = some r := by
  cases r <;> rfl

end Reachability

/-- Whether a publisher claims to have tested every roster member from the sources it covers. -/
inductive EvidenceCompleteness
  | complete | partialCoverage
  deriving DecidableEq

namespace EvidenceCompleteness

/-- The value of the enumerator. -/
def code : EvidenceCompleteness → UInt8
  | complete => 0
  | partialCoverage => 1

/-- The enumerator with a value, if there is one. -/
def ofCode (v : UInt8) : Option EvidenceCompleteness :=
  [complete, partialCoverage].find? fun c => c.code == v

@[simp]
theorem ofCode_code (c : EvidenceCompleteness) : ofCode c.code = some c := by
  cases c <;> rfl

end EvidenceCompleteness

/-- The resolved state of a pair. -/
inductive PairResolution
  | unknown | reachable | unreachable | conflicting | stale | asymmetric
  deriving DecidableEq

/-- `pair_resolution_is_proven`. -/
def PairResolution.isProven (r : PairResolution) : Bool := r == .reachable || r == .unreachable

/-- `join_directions`: the two directions of an unordered pair. -/
def joinDirections (forward reverse : PairResolution) : PairResolution :=
  if forward = .conflicting ∨ reverse = .conflicting then .conflicting
  else if forward.isProven ∧ reverse.isProven then
    if forward = reverse then forward else .conflicting
  else if forward = .stale ∧ reverse = .stale then .stale
  else if forward = .unknown ∧ reverse = .unknown then .unknown
  else if forward.isProven ∨ reverse.isProven then .asymmetric
  else .unknown

/-- One directed observation. -/
structure LinkObservation where
  source : ComponentId
  target : ComponentId
  value : Reachability := .unknown
  deriving DecidableEq

/-- A bundle of observations from one publisher. -/
structure ReachabilityEvidence where
  id : EvidenceId
  sequence : EvidenceSequence
  publisher : PublisherId
  publisherBoot : PublisherBootId
  topologyGeneration : TopologyGeneration
  generation : ReachabilityGeneration
  observedAtTick : UInt64 := 0
  validityTicks : UInt64 := 0
  completeness : EvidenceCompleteness := .partialCoverage
  provenance : Provenance
  coveredSources : List ComponentId := []
  observations : List LinkObservation := []
  deriving DecidableEq

/-- Exact ordered-pair accounting. -/
structure PairCounters where
  orderedPairs : Nat := 0
  orderedReachable : Nat := 0
  orderedUnreachable : Nat := 0
  orderedConflicting : Nat := 0
  orderedStale : Nat := 0
  orderedUnknown : Nat := 0
  orderedAsymmetric : Nat := 0
  orderedContradictory : Nat := 0
  undirectedReachable : Nat := 0
  crossComponentOrdered : Nat := 0
  crossComponentUnreachable : Nat := 0
  crossComponentIndeterminate : Nat := 0
  deriving DecidableEq

/-- What an evidence set resolves to. -/
structure ReachabilitySnapshot where
  valid : Bool := false
  topologyGeneration : TopologyGeneration := .zero
  reachabilityGeneration : ReachabilityGeneration := .zero
  evidenceDigest : EvidenceSetDigest := default
  components : List ComponentId := []
  weights : List UInt64 := []
  voters : List Bool := []
  /-- `edge_source` and `edge_target`, an edge at a time. -/
  edges : List (Nat × Nat) := []
  /-- The label of each component: the smallest index of its component set. -/
  componentOf : List Nat := []
  componentSizes : List Nat := []
  componentRepresentatives : List Nat := []
  counters : PairCounters := {}
  confirmed : Bool := false
  completeCoverageConflict : Bool := false
  anyEvidenceFresh : Bool := false
  freshBundleCount : Nat := 0
  staleBundleCount : Nat := 0
  foreignBundleCount : Nat := 0
  contributingEvidence : List EvidenceId := []
  reasons : List Reason := []
  deriving DecidableEq

/-- Every component carries the label of a representative, and the representatives are distinct. -/
structure ReachabilitySnapshot.Labelled (snapshot : ReachabilitySnapshot) : Prop where
  nodup : snapshot.componentRepresentatives.Nodup
  label_mem : ∀ index < snapshot.components.length,
    snapshot.componentOf.getD index 0 ∈ snapshot.componentRepresentatives

end FabricPartition
