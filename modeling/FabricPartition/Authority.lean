import FabricPartition.Policy

/-!
# Authority

`authority.hpp`: the classes a partition can be given, why, how far the grant has travelled, and the
vector that keeps observation, eligibility, recommendation and authorisation apart.

The enumerations are written to the durable store as single bytes.  `code` is that byte and `ofCode`
the decoder's domain check followed by its cast; the two are inverse (`ofCode_code`).
-/

set_option autoImplicit false

namespace FabricPartition

/-- The authority classes, from the strongest to the weakest. -/
inductive PartitionAuthorityClass
  | unassigned | primary | degraded | readOnly | observeOnly | isolated
  deriving DecidableEq

namespace PartitionAuthorityClass

/-- The value of the enumerator. -/
def code : PartitionAuthorityClass → UInt8
  | .unassigned => 0
  | .primary => 1
  | .degraded => 2
  | .readOnly => 3
  | .observeOnly => 4
  | .isolated => 5

/-- The enumerator with a value, if there is one. -/
def ofCode (v : UInt8) : Option PartitionAuthorityClass :=
  [unassigned, primary, degraded, readOnly, observeOnly, isolated].find? fun c => c.code == v

@[simp]
theorem ofCode_code (c : PartitionAuthorityClass) : ofCode c.code = some c := by
  cases c <;> rfl

/-- `weaker`: the larger enumerator, the left one when they are equal. -/
def weaker (lhs rhs : PartitionAuthorityClass) : PartitionAuthorityClass :=
  if lhs.code ≥ rhs.code then lhs else rhs

end PartitionAuthorityClass

/-- Why an authority vector holds its class. -/
inductive AuthorityBasis
  | none | quorumSatisfied | quorumNotSatisfied | partialPartition | unknownEvidence
  | splitBrainConflict | policyDegradation | explicitIsolation | restartInterrupted
  | subjectOutOfScope
  deriving DecidableEq

namespace AuthorityBasis

/-- The value of the enumerator. -/
def code : AuthorityBasis → UInt8
  | .none => 0
  | .quorumSatisfied => 1
  | .quorumNotSatisfied => 2
  | .partialPartition => 3
  | .unknownEvidence => 4
  | .splitBrainConflict => 5
  | .policyDegradation => 6
  | .explicitIsolation => 7
  | .restartInterrupted => 8
  | .subjectOutOfScope => 9

/-- The enumerator with a value, if there is one. -/
def ofCode (v : UInt8) : Option AuthorityBasis :=
  [none, quorumSatisfied, quorumNotSatisfied, partialPartition, unknownEvidence,
    splitBrainConflict, policyDegradation, explicitIsolation, restartInterrupted,
    subjectOutOfScope].find? fun b => b.code == v

@[simp]
theorem ofCode_code (b : AuthorityBasis) : ofCode b.code = some b := by
  cases b <;> rfl

end AuthorityBasis

/-- How far an authorisation has travelled. -/
inductive AuthorityApplicationState
  | notApplicable | authorizationIssued | acknowledgedBySubject | verifiedByObservation
  | interrupted | revoked
  deriving DecidableEq

namespace AuthorityApplicationState

/-- The value of the enumerator. -/
def code : AuthorityApplicationState → UInt8
  | .notApplicable => 0
  | .authorizationIssued => 1
  | .acknowledgedBySubject => 2
  | .verifiedByObservation => 3
  | .interrupted => 4
  | .revoked => 5

/-- The enumerator with a value, if there is one. -/
def ofCode (v : UInt8) : Option AuthorityApplicationState :=
  [notApplicable, authorizationIssued, acknowledgedBySubject, verifiedByObservation, interrupted,
    revoked].find? fun s => s.code == v

@[simp]
theorem ofCode_code (s : AuthorityApplicationState) : ofCode s.code = some s := by
  cases s <;> rfl

end AuthorityApplicationState

/-- The authority vector. -/
structure AuthorityVector where
  authorityClass : PartitionAuthorityClass := .unassigned
  basis : AuthorityBasis := .none
  applicationState : AuthorityApplicationState := .notApplicable
  observed : CapabilitySet := {}
  eligible : CapabilitySet := {}
  recommended : CapabilitySet := {}
  authorized : CapabilitySet := {}
  withheld : CapabilitySet := {}
  denied : CapabilitySet := {}
  revocable : Bool := true
  reasons : List Reason := []
  deriving DecidableEq, Inhabited

/-- A subject's report that it applied, or refused, an authorisation. -/
structure AuthorityAcknowledgement where
  attempt : AttemptId
  partition : PartitionId
  accepted : Bool := false
  applied : CapabilitySet := {}
  note : Text := []
  deriving DecidableEq

/-- An independent observation that an authorisation took effect. -/
structure VerifiedEffect where
  partition : PartitionId
  attempt : AttemptId
  confirmed : CapabilitySet := {}
  evidence : EvidenceId := .nil
  deriving DecidableEq

/-- `capabilities_for_class`. -/
def capabilitiesForClass (policy : PartitionPolicy) : PartitionAuthorityClass → CapabilitySet
  | .unassigned | .isolated => .none
  | .observeOnly => .of .observe
  | .readOnly => policy.readonlyCapabilities
  | .degraded => policy.degradedCapabilities
  | .primary => .all

/-- `AuthorityVector::matches_class_capabilities`. -/
def AuthorityVector.matchesClassCapabilities (v : AuthorityVector) (policy : PartitionPolicy) :
    Bool :=
  let expected := capabilitiesForClass policy v.authorityClass
  if !v.authorized.containsAll expected && v.authorityClass != .unassigned then false
  else if (v.authorityClass == .isolated || v.authorityClass == .unassigned)
      && !v.authorized.empty then false
  else v.eligible.containsAll v.authorized

/-- `observed_only_authority`. -/
def observedOnlyAuthority (observed : CapabilitySet) (reasons : List Reason) : AuthorityVector where
  authorityClass := .unassigned
  basis := .none
  applicationState := .notApplicable
  observed := observed
  revocable := false
  reasons := reasons

/-- `authorized_authority`. -/
def authorizedAuthority (authorityClass : PartitionAuthorityClass) (basis : AuthorityBasis)
    (observed eligible authorized : CapabilitySet) (reasons : List Reason) : AuthorityVector where
  authorityClass := authorityClass
  basis := basis
  observed := observed
  eligible := eligible
  recommended := authorized
  authorized := authorized
  withheld := eligible.without authorized
  denied := observed.without authorized
  revocable := true
  applicationState := .authorizationIssued
  reasons := reasons

end FabricPartition
