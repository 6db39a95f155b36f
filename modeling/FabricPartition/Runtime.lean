import FabricPartition.Ledger
import FabricPartition.Lib.Act
import FabricPartition.Partition
import FabricPartition.Persistence
import FabricPartition.Reachability
import FabricPartition.Store

/-!
# The partition runtime

`PartitionRuntime` of `runtime.hpp`, the state machine every other module serves.  Its private
members are the fields of one record, and its methods are computations on it (`RuntimeAct`): they
return or throw a `PartitionError`, and what they had written by then stays written.

The methods follow the text of `runtime.cpp`.  The checks a method makes before it changes anything
are cut out as pure functions of the state (`checkAttempt`, `adoptionCheck`, …) that either hand back
the refused decision or let the method go on.  This module holds the state, the plumbing every method
shares and the inputs; `Assessment`, `Governance` and `Restart` hold the rest.

What only reports (`status` and the query methods) is left to the fields; the mutex is not modelled,
each method being one step.
-/

set_option autoImplicit false

namespace FabricPartition

/-! ## Data -/

/-- `RuntimeOptions`.  `durable` stands for the flag together with a non-empty store directory. -/
structure RuntimeOptions where
  limits : Limits := defaultLimits
  policy : PartitionPolicy := defaultPolicy ⟨1⟩
  durable : Bool := true
  compactOnClose : Bool := true

/-- The exceptions of the runtime, one for each `throw`. -/
inductive PartitionError
  | invalidPolicy
  | storeRefused (reasons : List Reason)
  | undecodable (type : DurableRecordType)
  | invalidRoster
  | inconsistentLineage
  | epochExhausted
  | epochNotCommitted
  | decisionExhausted
  | fenceExhausted
  | generationExhausted
  deriving DecidableEq

/-- The context and the detail of an exception; a refused store is described by its reasons. -/
def PartitionError.describe : PartitionError → String × String
  | .invalidPolicy =>
    ("runtime.policy", "the supplied policy is not a valid canonical policy definition")
  | .storeRefused _ => ("runtime.store", "")
  | .undecodable .epochState =>
    ("runtime.store", "a durable epoch state record could not be decoded")
  | .undecodable .policyDefinition =>
    ("runtime.store", "a durable policy record could not be decoded")
  | .undecodable .topologyDefinition =>
    ("runtime.store", "a durable topology record could not be decoded")
  | .undecodable .lineageRecord =>
    ("runtime.store", "a durable lineage record could not be decoded")
  | .undecodable .decisionRecord =>
    ("runtime.store", "a durable decision record could not be decoded")
  | .undecodable .fenceRecord => ("runtime.store", "a durable fence record could not be decoded")
  | .invalidRoster => ("runtime.store", "a durable topology record is not a valid roster")
  | .inconsistentLineage => ("runtime.store", "the durable lineage is not self-consistent")
  | .epochExhausted =>
    ("runtime.epoch", "the coordinator epoch or boot sequence is exhausted")
  | .epochNotCommitted =>
    ("runtime.store", "the new epoch state could not be committed durably")
  | .decisionExhausted => ("runtime.decision", "the decision sequence is exhausted")
  | .fenceExhausted => ("runtime.fence", "the fence sequence is exhausted")
  | .generationExhausted => ("runtime.partition", "the partition generation is exhausted")

/-- A runtime-fenced attempt identity. -/
structure AttemptToken where
  id : AttemptId
  sequence : AttemptSequence
  deriving DecidableEq

/-- `MergeRequest`. -/
structure MergeRequest where
  attempt : AttemptToken
  expectedEpoch : CoordinatorEpoch
  subject : PartitionId
  left : LineageId
  right : LineageId
  requester : Provenance := .nil
  deriving DecidableEq

/-- `IsolationRequest`. -/
structure IsolationRequest where
  attempt : AttemptToken
  expectedEpoch : CoordinatorEpoch
  cause : ReasonCode := .isolationApplied
  lineage : LineageId
  durationTicks : UInt64 := 0
  requester : Provenance := .nil
  deriving DecidableEq

/-- `RevalidationRequest`. -/
structure RevalidationRequest where
  attempt : AttemptToken
  expectedEpoch : CoordinatorEpoch
  requester : Provenance := .nil
  deriving DecidableEq

/-- `RetireRequest`. -/
structure RetireRequest where
  attempt : AttemptToken
  expectedEpoch : CoordinatorEpoch
  lineage : LineageId
  requester : Provenance := .nil
  deriving DecidableEq

/-- `ReachabilitySummary`. -/
structure ReachabilitySummary where
  valid : Bool := false
  confirmed : Bool := false
  completeCoverageConflict : Bool := false
  topologyGeneration : TopologyGeneration := .zero
  reachabilityGeneration : ReachabilityGeneration := .zero
  evidenceDigest : EvidenceSetDigest := default
  counters : PairCounters := {}
  componentCount : Nat := 0
  freshBundleCount : Nat := 0
  staleBundleCount : Nat := 0
  deriving DecidableEq

/-- `PartitionAssessment`. -/
structure PartitionAssessment where
  decision : Decision := {}
  generation : PartitionGeneration := .zero
  partitions : List Partition := []
  reachability : ReachabilitySummary := {}
  confirmed : Bool := false
  splitBrain : Bool := false
  authoritativePartition : PartitionId := .nil
  fabricAuthority : PartitionAuthorityClass := .unassigned
  deriving DecidableEq

/-- `MergeOutcome`. -/
structure MergeOutcome where
  verdict : DecisionVerdict := .invalid
  decision : Decision := {}
  mergedLineage : LineageId := .nil
  mergedPartition : PartitionId := .nil
  fencedPartitions : List PartitionId := []
  deriving DecidableEq

/-- `IsolationOutcome`. -/
structure IsolationOutcome where
  verdict : DecisionVerdict := .invalid
  decision : Decision := {}
  deriving DecidableEq

/-- `RevalidationOutcome`. -/
structure RevalidationOutcome where
  verdict : DecisionVerdict := .invalid
  decision : Decision := {}
  partitions : List Partition := []
  restored : List PartitionId := []
  stillInterrupted : List PartitionId := []
  deriving DecidableEq

/-- Authority that was live when something it depended on changed. -/
structure InterruptedAuthority where
  partition : PartitionId
  lineage : LineageId
  authoritySequence : AuthoritySequence
  epoch : CoordinatorEpoch
  boot : CoordinatorBootId
  tick : UInt64 := 0
  deriving DecidableEq

/-- An attempt the runtime has seen. -/
structure AttemptRecord where
  attempt : AttemptToken
  kind : DecisionKind := .assessFabric
  tick : UInt64 := 0
  deriving DecidableEq

/-- An isolation in force. -/
structure IsolationDirective where
  lineage : LineageId
  expiresAtTick : UInt64 := 0
  cause : ReasonCode := .isolationApplied
  deriving DecidableEq

/-- The members of `PartitionRuntime`. -/
structure PartitionRuntime where
  options : RuntimeOptions
  state : EpochState := {}
  policy : PartitionPolicy
  roster : ComponentRoster := {}
  topology : TopologyDefinition := ⟨.nil, .zero, .nil, []⟩
  rosterSet : Bool := false
  ledger : EvidenceLedger
  lineage : LineageStore
  decisions : DecisionLog
  fences : List FenceRecord := []
  attempts : List AttemptRecord := []
  isolations : List IsolationDirective := []
  interrupted : List InterruptedAuthority := []
  acknowledgements : List AuthorityAcknowledgement := []
  verifiedEffects : List VerifiedEffect := []
  partitions : List Partition := []
  assessment : PartitionAssessment := {}
  snapshot : ReachabilitySnapshot := {}
  lastAssessmentConfirmed : Bool := false
  restartReasons : List Reason := []
  store : Option DurableStore := none
  durableSequence : UInt64 := 0
  closed : Bool := false

/-- A method of the runtime. -/
abbrev RuntimeAct := Act PartitionError PartitionRuntime

namespace PartitionRuntime

/-- `options_.limits`. -/
def limits (r : PartitionRuntime) : Limits := r.options.limits

/-! ## Decision plumbing -/

/-- A decision with one more reason. -/
def explain (r : PartitionRuntime) (decision : Decision) (code : ReasonCode) (subject : Text)
    (detail : Text) : Decision :=
  { decision with reasons := appendReason decision.reasons code subject detail r.limits }

/-- A decision with a verdict and one more reason. -/
def conclude (r : PartitionRuntime) (decision : Decision) (verdict : DecisionVerdict)
    (code : ReasonCode) (subject : Text) (detail : String) : Decision :=
  r.explain { decision with verdict := verdict } code subject (ascii detail)

/-- `make_decision`, followed by the `reasons.clear()` every method starts with. -/
def makeDecision (r : PartitionRuntime) (kind : DecisionKind) (verdict : DecisionVerdict)
    (scope : Scope) : Decision where
  kind := kind
  verdict := verdict
  scope := scope
  bindings :=
    { epoch := r.state.epoch
      boot := r.state.boot
      incarnation := r.state.incarnation
      topologyGeneration := r.roster.generation
      topologyDigest := r.roster.digest
      reachabilityGeneration := r.snapshot.reachabilityGeneration
      evidenceDigest := r.snapshot.evidenceDigest
      policyGeneration := r.policy.generation
      partitionGeneration := r.state.partitionGeneration
      authoritySequence := r.state.authoritySequence
      decisionSequence := r.state.decisionSequence
      evaluatedAtTick := r.state.tick }
  revocable := true

/-- The two members `commit_record` reads and writes: the store and the durable sequence. -/
abbrev Journal := Option DurableStore × UInt64

/-- The journal of a runtime. -/
def journal (r : PartitionRuntime) : Journal := (r.store, r.durableSequence)

/-- The body of `commit_record` on those two members. -/
def commitJournal (type : DurableRecordType) (payload : Bytes) (j : Journal) : Bool × Journal :=
  match j.1 with
  | none => (true, j)
  | some store =>
    match checkedAdd j.2 1 with
    | none => (false, j)
    | some next =>
      match store.append type next payload with
      | (false, store) => (false, (some store, j.2))
      | (true, store) => (true, (some store, next))

/-- `commit_record`: was the record made durable, and the runtime after it. -/
def commitRecord (type : DurableRecordType) (payload : Bytes) (r : PartitionRuntime) :
    Bool × PartitionRuntime :=
  let outcome := commitJournal type payload r.journal
  (outcome.1, { r with store := outcome.2.1, durableSequence := outcome.2.2 })

/-- `assign_decision_identity`. -/
def assignDecisionIdentity (decision : Decision) : RuntimeAct Decision := do
  let r ← Act.read
  if !decision.id.isNil then pure decision
  else
    match r.state.decisionSequence.next with
    | none => Act.throw .decisionExhausted
    | some sequence =>
      Act.modify fun r => { r with state := { r.state with decisionSequence := sequence } }
      pure { decision with
        id := TextId.fromValidated (100 :: decimal sequence.value.toNat ++ 45 :: r.state.boot.shortHex)
          (isValidId_sequenced (by decide) (by decide) _ _)
        bindings := { decision.bindings with decisionSequence := sequence } }

/-- The body of `finalize_decision` once the identity is assigned. -/
def publishDecision (decision : Decision) (r : PartitionRuntime) : Decision × PartitionRuntime :=
  let triggers := [.restartEpochAdvanced, .storeSequenceRegression]
    ++ if r.roster.set then [] else [.subjectUnknown]
  let decision := { decision with revocationTriggers := triggers }
  let r := { r with decisions := r.decisions.append decision }
  if r.store.isSome && decision.kind != .ingestEvidence then
    (decision, (commitRecord .decisionRecord (encodeDecision decision) r).2)
  else (decision, r)

/-- `finalize_decision`. -/
def finalizeDecision (decision : Decision) : RuntimeAct Decision := do
  let decision ← assignDecisionIdentity decision
  Act.total (publishDecision decision)

/-- `check_attempt`: the refused decision, if it refuses. -/
def checkAttempt (r : PartitionRuntime) (attempt : AttemptToken) (decision : Decision) :
    Option Decision :=
  if attempt.id.isNil || attempt.sequence.isZero then
    some (r.conclude decision .invalid .invalidRequest attempt.id.text
      "an attempt identifier and a non-zero attempt sequence are both required")
  else if r.attempts.any fun record =>
      record.attempt.id == attempt.id || record.attempt.sequence == attempt.sequence then
    some (r.conclude decision .invalid .attemptDuplicate attempt.id.text
      "the attempt identifier or attempt sequence has already been used")
  else if attempt.sequence.value ≤ r.state.attemptSequence.value then
    some (r.conclude decision .invalid .attemptRegression attempt.id.text
      "the attempt sequence regressed below the durable floor")
  else none

/-- `record_attempt`. -/
def recordAttempt (attempt : AttemptToken) (kind : DecisionKind) (r : PartitionRuntime) :
    PartitionRuntime :=
  let kept := if r.attempts.length ≥ r.limits.maxAttemptRecords then r.attempts.tail else r.attempts
  { r with
    attempts := kept ++ [⟨attempt, kind, r.state.tick⟩]
    state := { r.state with attemptSequence := attempt.sequence } }

/-- The `closed_` test and `check_attempt`, with which every governed method starts. -/
def admissionCheck (r : PartitionRuntime) (attempt : AttemptToken) (decision : Decision) :
    Option Decision :=
  if r.closed then
    some (r.explain decision .invalidRequest (ascii "runtime") (ascii "the runtime is closed"))
  else r.checkAttempt attempt decision

/-! ## Fences and isolation -/

/-- `store_fence`: nothing once the table is full. -/
def storeFence (fence : FenceRecord) (r : PartitionRuntime) : PartitionRuntime :=
  if r.fences.length ≥ r.limits.maxFenceRecords then r
  else
    (commitRecord .fenceRecord (encodeFence fence) { r with fences := r.fences ++ [fence] }).2

/-- The fence a runtime issues under a fence sequence. -/
def fenceRecord (r : PartitionRuntime) (next : FenceSequence) (partition : PartitionId)
    (sequence : AuthoritySequence) (fencedEpoch : CoordinatorEpoch) (fencedBoot : CoordinatorBootId)
    (cause : ReasonCode) : FenceRecord where
  id := TextId.fromValidated (102 :: decimal next.value.toNat ++ 45 :: r.state.boot.shortHex)
    (isValidId_sequenced (by decide) (by decide) _ _)
  sequence := next
  scope := partitionScope partition
  partition := partition
  fencedAuthoritySequence := sequence
  fencedEpoch := fencedEpoch
  fencedBoot := fencedBoot
  issuingEpoch := r.state.epoch
  issuingBoot := r.state.boot
  tick := r.state.tick
  cause := cause

/-- `make_fence`. -/
def makeFence (partition : Partition) (sequence : AuthoritySequence) (cause : ReasonCode) :
    RuntimeAct FenceRecord := do
  let r ← Act.read
  match r.state.fenceSequence.next with
  | none => Act.throw .fenceExhausted
  | some next =>
    Act.modify fun r => { r with state := { r.state with fenceSequence := next } }
    pure (r.fenceRecord next partition.id sequence r.state.epoch r.state.boot cause)

/-- `make_fence` and `store_fence`. -/
def issueFence (partition : Partition) (sequence : AuthoritySequence) (cause : ReasonCode) :
    RuntimeAct FenceRecord := do
  let fence ← makeFence partition sequence cause
  Act.modify (storeFence fence)
  pure fence

/-- `is_isolated`. -/
def isIsolated (r : PartitionRuntime) (lineage : LineageId) : Bool :=
  r.isolations.any fun directive =>
    directive.lineage == lineage
      && !(directive.expiresAtTick != 0 && decide (r.state.tick ≥ directive.expiresAtTick))

/-- An interruption entry for a partition's grant. -/
def interruption (r : PartitionRuntime) (p : Partition) : InterruptedAuthority :=
  ⟨p.id, p.lineage, p.authoritySequence, r.state.epoch, r.state.boot, r.state.tick⟩

/-- The loop of `interrupt_all_authority`. -/
def interruptAuthorities (cause : ReasonCode) : List Partition → RuntimeAct Unit
  | [] => pure ()
  | p :: rest => do
    if !p.granted then interruptAuthorities cause rest
    else
      Act.modify fun r => { r with interrupted := r.interrupted ++ [r.interruption p] }
      let r ← Act.read
      match r.state.authoritySequence.next with
      | none => pure ()
      | some next =>
        Act.modify fun r => { r with state := { r.state with authoritySequence := next } }
        let _ ← issueFence p p.authoritySequence cause
        interruptAuthorities cause rest

/-- `interrupt_all_authority`. -/
def interruptAllAuthority (cause : ReasonCode) : RuntimeAct Unit := do
  let r ← Act.read
  interruptAuthorities cause r.partitions

/-! ## Inputs -/

/-- `advance_ticks`. -/
def advanceTicks (delta : UInt64) (r : PartitionRuntime) : Bool × PartitionRuntime :=
  if r.closed then (false, r)
  else
    match checkedAdd r.state.tick delta with
    | none => (false, r)
    | some next => (true, { r with state := { r.state with tick := next } })

/-- The checks of `adopt_topology`. -/
def adoptionCheck (r : PartitionRuntime) (definition : TopologyDefinition) (decision : Decision) :
    Except Decision ComponentRoster :=
  if r.closed then
    .error (r.conclude decision .invalid .invalidRequest (ascii "runtime") "the runtime is closed")
  else
    match ComponentRoster.create definition r.limits with
    | none =>
      .error (r.conclude decision .invalid .invalidRequest definition.id.text
        "the topology definition is not a valid canonical roster")
    | some roster =>
      if r.rosterSet && decide (definition.generation.value < r.topology.generation.value) then
        .error (r.conclude decision .invalid .evidenceRejectedGeneration definition.id.text
          "the topology generation regressed below the adopted generation")
      else if r.rosterSet && definition.generation.value == r.topology.generation.value then
        if roster.digest = r.roster.digest then
          .error (r.conclude decision .observed .deterministicOrdering definition.id.text
            "the identical roster is already adopted at this generation")
        else
          .error (r.conclude decision .conflict .evidenceConflictingPairs definition.id.text
            "two different rosters claim the same topology generation")
      else .ok roster

/-- The state replacement of `adopt_topology`. -/
def installRoster (definition : TopologyDefinition) (roster : ComponentRoster)
    (r : PartitionRuntime) : PartitionRuntime :=
  { r with
    roster := roster
    topology := definition
    rosterSet := true
    ledger := r.ledger.dropDynamicState }

/-- A new roster supersedes every current partition and fences their grants. -/
def supersedePartitions : RuntimeAct Unit := do
  let r ← Act.read
  if r.rosterSet then
    interruptAllAuthority .storeSequenceRegression
    Act.modify fun r => { r with
      partitions := r.partitions.map fun p => { p with lifecycle := .superseded } }
  else pure ()

/-- `adopt_topology`. -/
def adoptTopology (definition : TopologyDefinition) : RuntimeAct Decision := do
  let r ← Act.read
  let decision := r.makeDecision .adoptTopology .observed (namedScope .fabric (ascii "fabric"))
  match r.adoptionCheck definition decision with
  | .error decision => finalizeDecision decision
  | .ok roster =>
    let committed ← Act.total (commitRecord .topologyDefinition (encodeTopology definition))
    if !committed then
      finalizeDecision (r.conclude decision .indeterminate .storeIoFailure definition.id.text
        "the topology definition could not be committed durably")
    else
      supersedePartitions
      Act.modify (installRoster definition roster)
      let decision := { decision with
        bindings := { decision.bindings with
          topologyGeneration := roster.generation
          topologyDigest := roster.digest }
        verdict := .granted }
      let decision := r.explain decision .evidenceAccepted definition.id.text
        (decimal roster.size ++ ascii " components adopted as the authoritative roster")
      finalizeDecision (r.explain decision .restartEvidenceDropped (ascii "evidence")
        (ascii "reachability evidence bound to the previous topology generation was dropped"))

/-- The checks of `set_policy`. -/
def policyCheck (r : PartitionRuntime) (policy : PartitionPolicy) (decision : Decision) :
    Except Decision PartitionPolicy :=
  if r.closed then
    .error (r.conclude decision .invalid .invalidRequest (ascii "runtime") "the runtime is closed")
  else
    match policy.canonicalised r.limits with
    | none =>
      .error (r.conclude decision .invalid .invalidRequest policy.id.text
        "the policy definition is not valid or carries an unsupported schema version")
    | some canonical =>
      if canonical.generation.value ≤ r.policy.generation.value then
        .error (r.conclude decision .invalid .evidenceRejectedGeneration policy.id.text
          "the policy generation did not advance")
      else .ok canonical

/-- `set_policy`. -/
def setPolicy (policy : PartitionPolicy) : RuntimeAct Decision := do
  let r ← Act.read
  let decision := r.makeDecision .setPolicy .observed (namedScope .fabric (ascii "policy"))
  match r.policyCheck policy decision with
  | .error decision => finalizeDecision decision
  | .ok canonical =>
    let committed ← Act.total (commitRecord .policyDefinition (encodePolicy canonical))
    if !committed then
      finalizeDecision (r.conclude decision .indeterminate .storeIoFailure policy.id.text
        "the policy definition could not be committed durably")
    else
      interruptAllAuthority .authorityDeniedFailClosed
      Act.modify fun r => { r with policy := canonical }
      let decision := { decision with
        bindings := { decision.bindings with policyGeneration := canonical.generation } }
      finalizeDecision (r.conclude decision .granted .authorityDeniedFailClosed policy.id.text
        "live authority was fenced because the authority policy changed")

/-- The verdict an acceptance status is reported as. -/
def acceptanceVerdict : EvidenceAcceptanceStatus → DecisionVerdict
  | .accepted => .granted
  | .rejectedUnsupported => .unsupported
  | .rejectedMalformed | .rejectedEmpty | .rejectedUnknownComponent | .rejectedFutureDated
  | .rejectedGeneration => .invalid
  | _ => .denied

/-- `ingest_evidence`. -/
def ingestEvidence (evidence : ReachabilityEvidence) : RuntimeAct Decision := do
  let r ← Act.read
  let decision := r.makeDecision .ingestEvidence .observed fabricScope
  if r.closed then
    finalizeDecision (r.conclude decision .invalid .invalidRequest evidence.id.text
      "the runtime is closed")
  else if !r.rosterSet then
    finalizeDecision (r.conclude decision .invalid .subjectUnknown evidence.id.text
      "no authoritative roster has been adopted")
  else
    let (acceptance, ledger) := r.ledger.accept evidence r.roster r.policy r.state.tick
    Act.modify fun r => { r with ledger := ledger }
    finalizeDecision { decision with
      reasons := acceptance.reasons.take r.limits.maxReasonsPerDecision
      verdict := acceptanceVerdict acceptance.status
      bindings := { decision.bindings with reachabilityGeneration := ledger.highestGeneration } }

/-- `partition_by_id`. -/
def partitionById (r : PartitionRuntime) (id : PartitionId) : Option Partition :=
  r.partitions.find? fun p => p.id == id

end PartitionRuntime

end FabricPartition
