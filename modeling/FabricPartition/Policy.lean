import FabricPartition.Reason
import Mathlib.Data.List.Sort

/-!
# Authority policy

The capability sets, quorums and the policy object of `policy.hpp`.  Capability bits, weights and
quorum thresholds keep their machine widths: `domain_weight()` is a sum that wraps.

A runtime only ever holds a policy that `canonicalised` returned, so the weight table it searches
is sorted; `weightOf` and `isVoter` search it the way `std::lower_bound` does.
-/

set_option autoImplicit false

namespace FabricPartition

/-! ## Capabilities -/

/-- What a partition may be authorised to do. -/
inductive AuthorityCapability
  | observe | serveReads | serveWrites | admitMutations | commitDurability | issueLeases
  | publishDecisions
  deriving DecidableEq

/-- The bit position of a capability. -/
def AuthorityCapability.index : AuthorityCapability → UInt32
  | .observe => 0
  | .serveReads => 1
  | .serveWrites => 2
  | .admitMutations => 3
  | .commitDurability => 4
  | .issueLeases => 5
  | .publishDecisions => 6

/-- A typed bit set. -/
structure CapabilitySet where
  bits : UInt32 := 0
  deriving DecidableEq, Inhabited

namespace CapabilitySet

/-- `CapabilitySet::of`. -/
def of (c : AuthorityCapability) : CapabilitySet := ⟨1 <<< c.index⟩

/-- `CapabilitySet::all`. -/
def all : CapabilitySet := ⟨((1 : UInt32) <<< 7) - 1⟩

/-- `CapabilitySet::none`. -/
def none : CapabilitySet := ⟨0⟩

/-- `CapabilitySet::contains`. -/
def contains (s : CapabilitySet) (c : AuthorityCapability) : Bool := s.bits &&& (1 <<< c.index) != 0

/-- `CapabilitySet::contains_all`. -/
def containsAll (s other : CapabilitySet) : Bool := s.bits &&& other.bits == other.bits

/-- `CapabilitySet::empty`. -/
def empty (s : CapabilitySet) : Bool := s.bits == 0

/-- `CapabilitySet::with`. -/
def withCapability (s : CapabilitySet) (c : AuthorityCapability) : CapabilitySet :=
  ⟨s.bits ||| (1 <<< c.index)⟩

/-- `CapabilitySet::without`. -/
def without (s other : CapabilitySet) : CapabilitySet := ⟨s.bits &&& ~~~other.bits⟩

/-- `CapabilitySet::intersect`. -/
def intersect (s other : CapabilitySet) : CapabilitySet := ⟨s.bits &&& other.bits⟩

/-- The rendering of a set: the names of its capabilities in bit order. -/
def render (s : CapabilitySet) : Text :=
  let names := [(AuthorityCapability.observe, "observe"), (.serveReads, "serve-reads"),
    (.serveWrites, "serve-writes"), (.admitMutations, "admit-mutations"),
    (.commitDurability, "commit-durability"), (.issueLeases, "issue-leases"),
    (.publishDecisions, "publish-decisions")]
  let held := (names.filter fun entry => s.contains entry.1).map fun entry => ascii entry.2
  if held.isEmpty then ascii "none" else (held.intersperse (ascii "|")).flatten

end CapabilitySet

/-- `valid_capability_bits`: no bit outside the seven capabilities. -/
def validCapabilityBits (bits : UInt32) : Bool := bits &&& ~~~(((1 : UInt32) <<< 7) - 1) == 0

/-! ## Quorums -/

/-- What a retained set must reach. -/
structure QuorumRequirement where
  minComponents : UInt32 := 0
  minVoters : UInt32 := 0
  minWeight : UInt64 := 0
  domainWeight : UInt64 := 0
  requireStrictMajority : Bool := false
  deriving DecidableEq

/-- `QuorumRequirement::satisfied_by`, with its overflow-free majority test. -/
def QuorumRequirement.satisfiedBy (q : QuorumRequirement) (components voters : UInt32)
    (weight : UInt64) : Bool :=
  if components < q.minComponents || voters < q.minVoters || weight < q.minWeight then false
  else if q.requireStrictMajority then
    if weight > q.domainWeight then true else weight > q.domainWeight - weight
  else true

/-! ## Policies -/

/-- The weight and the franchise of one component. -/
structure ComponentWeight where
  component : ComponentId
  weight : UInt64 := 1
  voter : Bool := false
  deriving DecidableEq

/-- `policy_schema_version`. -/
def policySchemaVersion : UInt16 := 1

/-- The policy object. -/
structure PartitionPolicy where
  id : PolicyId
  generation : PolicyGeneration
  schemaVersion : UInt16 := 1
  weights : List ComponentWeight := []
  fullAuthority : QuorumRequirement := {}
  degradedAuthority : QuorumRequirement := {}
  degradedCapabilities : CapabilitySet :=
    ((CapabilitySet.of .observe).withCapability .serveReads).withCapability .publishDecisions
  readonlyCapabilities : CapabilitySet := (CapabilitySet.of .observe).withCapability .serveReads
  maxEvidenceAgeTicks : UInt64 := 4096
  requireSymmetricReachability : Bool := true
  requireConfirmedPartitionForWrite : Bool := true
  requireConfirmedPartitionForRead : Bool := false
  allowMultipleAuthoritativePartitions : Bool := false
  unknownEvidenceDowngrades : Bool := true
  deriving DecidableEq

namespace PartitionPolicy

/-- `std::lower_bound` over the weight table, and the entry it lands on if that is the component. -/
def entryOf (p : PartitionPolicy) (component : ComponentId) : Option ComponentWeight :=
  (p.weights.dropWhile fun e => decide (e.component < component)).head?.filter
    fun e => e.component == component

/-- `PartitionPolicy::weight_of`. -/
def weightOf (p : PartitionPolicy) (component : ComponentId) : UInt64 :=
  match p.entryOf component with
  | none => 0
  | some e => e.weight

/-- `PartitionPolicy::is_voter`. -/
def isVoter (p : PartitionPolicy) (component : ComponentId) : Bool :=
  match p.entryOf component with
  | none => false
  | some e => e.voter

/-- `PartitionPolicy::domain_weight`, in wrapping arithmetic. -/
def domainWeight (p : PartitionPolicy) : UInt64 := (p.weights.map (·.weight)).foldl (· + ·) 0

/-- The weight tables `canonicalised` refuses once sorted: a nil component, or a repeated one. -/
def weightsMalformed : List ComponentWeight → Bool
  | [] => false
  | [e] => e.component.isNil
  | e :: e' :: rest =>
    e.component.isNil || e'.component == e.component || weightsMalformed (e' :: rest)

/-- A quorum that names no domain is measured against the whole weight table. -/
def defaultDomain (q : QuorumRequirement) (domain : UInt64) : QuorumRequirement :=
  if q.domainWeight = 0 then { q with domainWeight := domain } else q

/-- `PartitionPolicy::canonicalised`. -/
def canonicalised (p : PartitionPolicy) (limits : Limits) : Option PartitionPolicy :=
  if p.id.isNil then none
  else if p.schemaVersion ≠ policySchemaVersion then none
  else if p.weights.length > limits.maxComponents then none
  else
    let weights := p.weights.insertionSort fun lhs rhs => lhs.component ≤ rhs.component
    if weightsMalformed weights then none
    else
      let domain := ({ p with weights := weights } : PartitionPolicy).domainWeight
      some { p with
        weights := weights
        fullAuthority := defaultDomain p.fullAuthority domain
        degradedAuthority := defaultDomain p.degradedAuthority domain }

end PartitionPolicy

/-- `default_policy`. -/
def defaultPolicy (generation : PolicyGeneration) : PartitionPolicy where
  id := TextId.fromValidated (ascii "fabric.partition.default") (by decide)
  generation := generation
  schemaVersion := policySchemaVersion
  fullAuthority := { minComponents := 3 }
  degradedAuthority := { minComponents := 1 }
  maxEvidenceAgeTicks := 4096

end FabricPartition
