import FabricPartition.Authority
import FabricPartition.Digest

/-!
# Decisions

`decision.hpp`: scopes, the verdict vocabulary, the bindings of a decision, fence records and the
bounded audit log.

A scope's identifier is assembled by concatenation and never validated (`makeScopeId`), so its type
is `ScopeId = UncheckedId .scope`: whether it can be read back is a question, not a field.
-/

set_option autoImplicit false

namespace FabricPartition

/-- What a decision is about. -/
inductive ScopeKind
  | fabric | region | domain | partition | component
  deriving DecidableEq

namespace ScopeKind

/-- The value of the enumerator. -/
def code : ScopeKind → UInt8
  | .fabric => 0
  | .region => 1
  | .domain => 2
  | .partition => 3
  | .component => 4

/-- The enumerator with a value, if there is one. -/
def ofCode (v : UInt8) : Option ScopeKind :=
  [fabric, region, domain, partition, component].find? fun k => k.code == v

@[simp]
theorem ofCode_code (k : ScopeKind) : ofCode k.code = some k := by
  cases k <;> rfl

end ScopeKind

/-- A scope. -/
structure Scope where
  kind : ScopeKind := .fabric
  id : ScopeId := default
  deriving DecidableEq, Inhabited

/-- `make_scope_id`: a prefix, a value, no validation. -/
def makeScopeId (start value : Text) : ScopeId := UncheckedId.fromValidated (start ++ value)

/-- `named_scope`. -/
def namedScope (kind : ScopeKind) (name : Text) : Scope := ⟨kind, UncheckedId.fromValidated name⟩

/-- `fabric_scope`. -/
def fabricScope : Scope := ⟨.fabric, UncheckedId.fromValidated (ascii "fabric")⟩

/-- `partition_scope`. -/
def partitionScope (partition : PartitionId) : Scope :=
  ⟨.partition, makeScopeId (ascii "partition:") partition.text⟩

/-- The kinds of decisions. -/
inductive DecisionKind
  | adoptTopology | setPolicy | ingestEvidence | assessFabric | grantAuthority | degradeAuthority
  | isolateComponents | mergePartitions | revalidate | fence | retire | acknowledgeAuthority
  | verifyEffect
  deriving DecidableEq, Inhabited

namespace DecisionKind

/-- The value of the enumerator. -/
def code : DecisionKind → UInt8
  | .adoptTopology => 0
  | .setPolicy => 1
  | .ingestEvidence => 2
  | .assessFabric => 3
  | .grantAuthority => 4
  | .degradeAuthority => 5
  | .isolateComponents => 6
  | .mergePartitions => 7
  | .revalidate => 8
  | .fence => 9
  | .retire => 10
  | .acknowledgeAuthority => 11
  | .verifyEffect => 12

/-- The enumerator with a value, if there is one. -/
def ofCode (v : UInt8) : Option DecisionKind :=
  [adoptTopology, setPolicy, ingestEvidence, assessFabric, grantAuthority, degradeAuthority,
    isolateComponents, mergePartitions, revalidate, fence, retire, acknowledgeAuthority,
    verifyEffect].find? fun k => k.code == v

@[simp]
theorem ofCode_code (k : DecisionKind) : ofCode k.code = some k := by
  cases k <;> rfl

end DecisionKind

/-- The verdict vocabulary. -/
inductive DecisionVerdict
  | observed | granted | denied | degraded | isolated | indeterminate | unsupported | invalid
  | conflict
  deriving DecidableEq, Inhabited

namespace DecisionVerdict

/-- The value of the enumerator. -/
def code : DecisionVerdict → UInt8
  | .observed => 0
  | .granted => 1
  | .denied => 2
  | .degraded => 3
  | .isolated => 4
  | .indeterminate => 5
  | .unsupported => 6
  | .invalid => 7
  | .conflict => 8

/-- The enumerator with a value, if there is one. -/
def ofCode (v : UInt8) : Option DecisionVerdict :=
  [observed, granted, denied, degraded, isolated, indeterminate, unsupported, invalid,
    conflict].find? fun k => k.code == v

@[simp]
theorem ofCode_code (k : DecisionVerdict) : ofCode k.code = some k := by
  cases k <;> rfl

end DecisionVerdict

/-- Every authority-bearing dependency of a decision. -/
structure DecisionBindings where
  epoch : CoordinatorEpoch := .zero
  boot : CoordinatorBootId := default
  incarnation : ProcessIncarnationId := default
  topologyGeneration : TopologyGeneration := .zero
  topologyDigest : MembershipDigest := default
  reachabilityGeneration : ReachabilityGeneration := .zero
  evidenceDigest : EvidenceSetDigest := default
  policyGeneration : PolicyGeneration := .zero
  partitionGeneration : PartitionGeneration := .zero
  authoritySequence : AuthoritySequence := .zero
  decisionSequence : DecisionSequence := .zero
  attempt : AttemptId := .nil
  evaluatedAtTick : UInt64 := 0
  deriving DecidableEq, Inhabited

/-- A record that a grant is revoked. -/
structure FenceRecord where
  id : FenceId
  sequence : FenceSequence
  scope : Scope
  partition : PartitionId
  fencedAuthoritySequence : AuthoritySequence
  fencedEpoch : CoordinatorEpoch
  fencedBoot : CoordinatorBootId
  issuingEpoch : CoordinatorEpoch
  issuingBoot : CoordinatorBootId
  tick : UInt64 := 0
  cause : ReasonCode := .fenceIssued
  deriving DecidableEq

/-- A decision of the runtime. -/
structure Decision where
  id : DecisionId := .nil
  kind : DecisionKind := .assessFabric
  verdict : DecisionVerdict := .observed
  scope : Scope := default
  bindings : DecisionBindings := default
  subjects : List PartitionId := []
  authority : AuthorityVector := {}
  fencesIssued : List FenceId := []
  fencedPartitions : List PartitionId := []
  revocationTriggers : List ReasonCode := []
  revocable : Bool := true
  reasons : List Reason := []
  deriving DecidableEq, Inhabited

/-- The bounded audit log: the most recent entries, and how many were dropped. -/
structure DecisionLog where
  limits : Limits
  entries : List Decision := []
  dropped : Nat := 0
  deriving DecidableEq

/-- `DecisionLog::append`: push, then drop from the front down to the bound. -/
def DecisionLog.append (log : DecisionLog) (decision : Decision) : DecisionLog :=
  let entries := log.entries ++ [decision]
  let excess := entries.length - log.limits.maxDecisionHistory
  { log with entries := entries.drop excess, dropped := log.dropped + excess }

/-- `DecisionLog::find`. -/
def DecisionLog.find (log : DecisionLog) (id : DecisionId) : Option Decision :=
  log.entries.find? fun entry => entry.id == id

end FabricPartition
