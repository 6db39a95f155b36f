import FabricPartition.Decision
import FabricPartition.Encoding
import FabricPartition.Lineage

/-!
# Durable payloads

The payload codecs of `persistence.cpp`: one encoder and one decoder for each of the six record
types.  An encoder is the concatenation of its fields; a decoder is a reading of a whole payload that
ends in the check that nothing is left.

Two asymmetries of the source are kept as they are.  `encodeDecision` bounds the reason lists by the
default limits whatever the runtime was given, while `decodeDecision` bounds them by the limits it is
handed; and `encodeTopology` writes the components in the order of the definition, while
`decodeMembers` insists on a strictly increasing one.
-/

set_option autoImplicit false

namespace FabricPartition

/-! ## Shared field codecs -/

namespace Read

/-- A domain check: continue with the value, or refuse. -/
def expect {α : Type} : Option α → Read α
  | none => refuse
  | some v => return v

/-- A list behind a 32-bit count that must not exceed a bound. -/
def counted {α : Type} (bound : Nat) (m : Read α) : Read (List α) := do
  let count ← u32
  if count.toNat > bound then refuse else many m count.toNat

/-- Read a payload to its end. -/
def whole {α : Type} (m : Read α) : Read α := do
  let v ← m
  done
  return v

end Read

/-- A list behind its 32-bit count. -/
def Write.counted {α : Type} (enc : α → Bytes) (xs : List α) : Bytes :=
  Write.count xs.length ++ xs.flatMap enc

/-- `encode_reason`. -/
def encodeReason (reason : Reason) : Bytes :=
  Write.u16 reason.code.value ++ Write.text reason.subject ++ Write.text reason.detail

/-- `decode_reason`. -/
def decodeReason (limits : Limits) : Read Reason := do
  let code ← Read.u16
  let subject ← Read.boundedText limits.maxTextBytes
  let detail ← Read.boundedText limits.maxTextBytes
  return { code := ⟨code⟩, subject := subject, detail := detail }

/-- `encode_reasons`: the list is cut to the bound. -/
def encodeReasons (reasons : List Reason) (limits : Limits) : Bytes :=
  Write.counted encodeReason (reasons.take limits.maxReasonsPerDecision)

/-- `decode_reasons`. -/
def decodeReasons (limits : Limits) : Read (List Reason) :=
  Read.counted limits.maxReasonsPerDecision (decodeReason limits)

/-- The writing of a capability set. -/
def encodeCapability (set : CapabilitySet) : Bytes := Write.u32 set.bits

/-- `decode_capability`. -/
def decodeCapability : Read CapabilitySet := do
  let bits ← Read.u32
  if !validCapabilityBits bits then Read.refuse else return ⟨bits⟩

/-- `encode_members`. -/
def encodeMembers (members : List ComponentId) : Bytes := Write.counted Write.textId members

/-- The loop of `decode_members`, which remembers the previous member. -/
def decodeMembersFrom (previous : Option ComponentId) : Nat → Read (List ComponentId)
  | 0 => return []
  | n + 1 => do
    let member ← Read.textId
    if previous.any fun p => !decide (p < member) then Read.refuse
    else
      let rest ← decodeMembersFrom (some member) n
      return member :: rest

/-- `decode_members`. -/
def decodeMembers (limits : Limits) : Read (List ComponentId) := do
  let count ← Read.u32
  if count.toNat > limits.maxComponents then Read.refuse
  else decodeMembersFrom none count.toNat

/-! ## Epoch state -/

/-- A mark that a grant was live when the durable state was written. -/
structure AuthorityGrantMark where
  partition : PartitionId
  lineage : LineageId
  authoritySequence : AuthoritySequence
  deriving DecidableEq

/-- The restart authority boundary. -/
structure EpochState where
  epoch : CoordinatorEpoch := .zero
  boot : CoordinatorBootId := default
  incarnation : ProcessIncarnationId := default
  bootSequence : BootSequence := .zero
  partitionGeneration : PartitionGeneration := .zero
  authoritySequence : AuthoritySequence := .zero
  decisionSequence : DecisionSequence := .zero
  attemptSequence : AttemptSequence := .zero
  lineageSequence : LineageSequence := .zero
  fenceSequence : FenceSequence := .zero
  tick : UInt64 := 0
  liveGrants : List AuthorityGrantMark := []
  deriving DecidableEq, Inhabited

/-- The image of a grant mark. -/
def encodeMark (mark : AuthorityGrantMark) : Bytes :=
  Write.textId mark.partition ++ Write.textId mark.lineage ++ Write.counter mark.authoritySequence

/-- The reading of a grant mark. -/
def decodeMark : Read AuthorityGrantMark := do
  let partition ← Read.textId
  let lineage ← Read.textId
  let authoritySequence ← Read.counter
  return ⟨partition, lineage, authoritySequence⟩

/-- `encode_epoch_state`. -/
def encodeEpochState (state : EpochState) : Bytes :=
  Write.counter state.epoch ++ Write.binaryId state.boot ++ Write.binaryId state.incarnation
    ++ Write.counter state.bootSequence ++ Write.counter state.partitionGeneration
    ++ Write.counter state.authoritySequence ++ Write.counter state.decisionSequence
    ++ Write.counter state.attemptSequence ++ Write.counter state.lineageSequence
    ++ Write.counter state.fenceSequence ++ Write.u64 state.tick
    ++ Write.counted encodeMark state.liveGrants

/-- The fields of `decode_epoch_state`. -/
def readEpochState (limits : Limits) : Read EpochState := do
  let epoch ← Read.counter
  let boot ← Read.binaryId
  let incarnation ← Read.binaryId
  let bootSequence ← Read.counter
  let partitionGeneration ← Read.counter
  let authoritySequence ← Read.counter
  let decisionSequence ← Read.counter
  let attemptSequence ← Read.counter
  let lineageSequence ← Read.counter
  let fenceSequence ← Read.counter
  let tick ← Read.u64
  let liveGrants ← Read.counted limits.maxFenceRecords decodeMark
  return {
    epoch := epoch
    boot := boot
    incarnation := incarnation
    bootSequence := bootSequence
    partitionGeneration := partitionGeneration
    authoritySequence := authoritySequence
    decisionSequence := decisionSequence
    attemptSequence := attemptSequence
    lineageSequence := lineageSequence
    fenceSequence := fenceSequence
    tick := tick
    liveGrants := liveGrants }

/-- `decode_epoch_state`. -/
def decodeEpochState (payload : Bytes) (limits : Limits) : Option EpochState :=
  (Read.whole (readEpochState limits)).run payload

/-! ## Policy -/

/-- The image of a weight entry. -/
def encodeWeight (entry : ComponentWeight) : Bytes :=
  Write.textId entry.component ++ Write.u64 entry.weight ++ Write.boolean entry.voter

/-- The loop over the weight table, which remembers the previous component. -/
def decodeWeightsFrom (previous : Option ComponentId) : Nat → Read (List ComponentWeight)
  | 0 => return []
  | n + 1 => do
    let component ← Read.textId
    let weight ← Read.u64
    let voter ← Read.boolean
    if previous.any fun p => !decide (p < component) then Read.refuse
    else
      let rest ← decodeWeightsFrom (some component) n
      return ⟨component, weight, voter⟩ :: rest

/-- `encode_quorum`. -/
def encodeQuorum (quorum : QuorumRequirement) : Bytes :=
  Write.u32 quorum.minComponents ++ Write.u32 quorum.minVoters ++ Write.u64 quorum.minWeight
    ++ Write.u64 quorum.domainWeight ++ Write.boolean quorum.requireStrictMajority

/-- `decode_quorum`. -/
def decodeQuorum : Read QuorumRequirement := do
  let minComponents ← Read.u32
  let minVoters ← Read.u32
  let minWeight ← Read.u64
  let domainWeight ← Read.u64
  let requireStrictMajority ← Read.boolean
  return ⟨minComponents, minVoters, minWeight, domainWeight, requireStrictMajority⟩

/-- `encode_policy`. -/
def encodePolicy (policy : PartitionPolicy) : Bytes :=
  Write.textId policy.id ++ Write.counter policy.generation ++ Write.u16 policy.schemaVersion
    ++ Write.counted encodeWeight policy.weights ++ encodeQuorum policy.fullAuthority
    ++ encodeQuorum policy.degradedAuthority ++ encodeCapability policy.degradedCapabilities
    ++ encodeCapability policy.readonlyCapabilities ++ Write.u64 policy.maxEvidenceAgeTicks
    ++ Write.boolean policy.requireSymmetricReachability
    ++ Write.boolean policy.requireConfirmedPartitionForWrite
    ++ Write.boolean policy.requireConfirmedPartitionForRead
    ++ Write.boolean policy.allowMultipleAuthoritativePartitions
    ++ Write.boolean policy.unknownEvidenceDowngrades

/-- The fields of `decode_policy`. -/
def readPolicy (limits : Limits) : Read PartitionPolicy := do
  let id ← Read.textId
  let generation ← Read.counter
  let schemaVersion ← Read.u16
  if schemaVersion ≠ policySchemaVersion then Read.refuse
  else
    let count ← Read.u32
    if count.toNat > limits.maxComponents then Read.refuse
    else
      let weights ← decodeWeightsFrom none count.toNat
      let fullAuthority ← decodeQuorum
      let degradedAuthority ← decodeQuorum
      let degradedCapabilities ← decodeCapability
      let readonlyCapabilities ← decodeCapability
      let maxEvidenceAgeTicks ← Read.u64
      let requireSymmetricReachability ← Read.boolean
      let requireConfirmedPartitionForWrite ← Read.boolean
      let requireConfirmedPartitionForRead ← Read.boolean
      let allowMultipleAuthoritativePartitions ← Read.boolean
      let unknownEvidenceDowngrades ← Read.boolean
      return {
        id := id
        generation := generation
        schemaVersion := schemaVersion
        weights := weights
        fullAuthority := fullAuthority
        degradedAuthority := degradedAuthority
        degradedCapabilities := degradedCapabilities
        readonlyCapabilities := readonlyCapabilities
        maxEvidenceAgeTicks := maxEvidenceAgeTicks
        requireSymmetricReachability := requireSymmetricReachability
        requireConfirmedPartitionForWrite := requireConfirmedPartitionForWrite
        requireConfirmedPartitionForRead := requireConfirmedPartitionForRead
        allowMultipleAuthoritativePartitions := allowMultipleAuthoritativePartitions
        unknownEvidenceDowngrades := unknownEvidenceDowngrades }

/-- `decode_policy`. -/
def decodePolicy (payload : Bytes) (limits : Limits) : Option PartitionPolicy :=
  (Read.whole (readPolicy limits)).run payload

/-! ## Topology -/

/-- `encode_topology`. -/
def encodeTopology (definition : TopologyDefinition) : Bytes :=
  Write.textId definition.id ++ Write.counter definition.generation
    ++ Write.textId definition.provenance ++ encodeMembers definition.components

/-- The fields of `decode_topology`. -/
def readTopology (limits : Limits) : Read TopologyDefinition := do
  let id ← Read.textId
  let generation ← Read.counter
  let provenance ← Read.textId
  let components ← decodeMembers limits
  return ⟨id, generation, provenance, components⟩

/-- `decode_topology`. -/
def decodeTopology (payload : Bytes) (limits : Limits) : Option TopologyDefinition :=
  (Read.whole (readTopology limits)).run payload

/-! ## Lineage records -/

/-- `encode_lineage`. -/
def encodeLineage (record : LineageRecord) : Bytes :=
  Write.counter record.sequence ++ Write.textId record.lineage ++ Write.counter record.generation
    ++ Write.digest record.membership ++ encodeMembers record.members ++ Write.u8 record.event.code
    ++ Write.textId record.parentLeft ++ Write.textId record.parentRight
    ++ Write.counter record.epoch ++ Write.binaryId record.boot ++ Write.textId record.decision
    ++ Write.u64 record.tick ++ Write.digest record.digest

/-- The fields of `decode_lineage`. -/
def readLineage (limits : Limits) : Read LineageRecord := do
  let sequence ← Read.counter
  let lineage ← Read.textId
  let generation ← Read.counter
  let membership ← Read.digest
  let members ← decodeMembers limits
  let eventCode ← Read.u8
  let event ← Read.expect (LineageEventKind.ofCode eventCode)
  let parentLeft ← Read.textId
  let parentRight ← Read.textId
  let epoch ← Read.counter
  let boot ← Read.binaryId
  let decision ← Read.textId
  let tick ← Read.u64
  let digest ← Read.digest
  return {
    sequence := sequence
    lineage := lineage
    generation := generation
    membership := membership
    members := members
    event := event
    parentLeft := parentLeft
    parentRight := parentRight
    epoch := epoch
    boot := boot
    decision := decision
    tick := tick
    digest := digest }

/-- `decode_lineage`, with its two digest checks. -/
def decodeLineage (payload : Bytes) (limits : Limits) : Option LineageRecord :=
  match (Read.whole (readLineage limits)).run payload with
  | none => none
  | some record =>
    if computeMembershipDigest record.members ≠ record.membership then none
    else if computeLineageDigest record ≠ record.digest then none
    else some record

/-! ## Decisions -/

/-- `encode_authority`. -/
def encodeAuthority (authority : AuthorityVector) : Bytes :=
  Write.u8 authority.authorityClass.code ++ Write.u8 authority.basis.code
    ++ Write.u8 authority.applicationState.code ++ encodeCapability authority.observed
    ++ encodeCapability authority.eligible ++ encodeCapability authority.recommended
    ++ encodeCapability authority.authorized ++ encodeCapability authority.withheld
    ++ encodeCapability authority.denied ++ Write.boolean authority.revocable
    ++ encodeReasons authority.reasons defaultLimits

/-- `decode_authority`. -/
def decodeAuthority (limits : Limits) : Read AuthorityVector := do
  let classCode ← Read.u8
  let basisCode ← Read.u8
  let stateCode ← Read.u8
  let authorityClass ← Read.expect (PartitionAuthorityClass.ofCode classCode)
  let basis ← Read.expect (AuthorityBasis.ofCode basisCode)
  let applicationState ← Read.expect (AuthorityApplicationState.ofCode stateCode)
  let observed ← decodeCapability
  let eligible ← decodeCapability
  let recommended ← decodeCapability
  let authorized ← decodeCapability
  let withheld ← decodeCapability
  let denied ← decodeCapability
  let revocable ← Read.boolean
  let reasons ← decodeReasons limits
  return {
    authorityClass := authorityClass
    basis := basis
    applicationState := applicationState
    observed := observed
    eligible := eligible
    recommended := recommended
    authorized := authorized
    withheld := withheld
    denied := denied
    revocable := revocable
    reasons := reasons }

/-- The image of a decision's bindings. -/
def encodeBindings (b : DecisionBindings) : Bytes :=
  Write.counter b.epoch ++ Write.binaryId b.boot ++ Write.binaryId b.incarnation
    ++ Write.counter b.topologyGeneration ++ Write.digest b.topologyDigest
    ++ Write.counter b.reachabilityGeneration ++ Write.digest b.evidenceDigest
    ++ Write.counter b.policyGeneration ++ Write.counter b.partitionGeneration
    ++ Write.counter b.authoritySequence ++ Write.counter b.decisionSequence
    ++ Write.textId b.attempt ++ Write.u64 b.evaluatedAtTick

/-- The reading of a decision's bindings. -/
def readBindings : Read DecisionBindings := do
  let epoch ← Read.counter
  let boot ← Read.binaryId
  let incarnation ← Read.binaryId
  let topologyGeneration ← Read.counter
  let topologyDigest ← Read.digest
  let reachabilityGeneration ← Read.counter
  let evidenceDigest ← Read.digest
  let policyGeneration ← Read.counter
  let partitionGeneration ← Read.counter
  let authoritySequence ← Read.counter
  let decisionSequence ← Read.counter
  let attempt ← Read.textId
  let evaluatedAtTick ← Read.u64
  return {
    epoch := epoch
    boot := boot
    incarnation := incarnation
    topologyGeneration := topologyGeneration
    topologyDigest := topologyDigest
    reachabilityGeneration := reachabilityGeneration
    evidenceDigest := evidenceDigest
    policyGeneration := policyGeneration
    partitionGeneration := partitionGeneration
    authoritySequence := authoritySequence
    decisionSequence := decisionSequence
    attempt := attempt
    evaluatedAtTick := evaluatedAtTick }

/-- The image of a revocation trigger. -/
def encodeTrigger (code : ReasonCode) : Bytes := Write.u16 code.value

/-- The reading of a revocation trigger. -/
def decodeTrigger : Read ReasonCode := do
  let code ← Read.u16
  return ⟨code⟩

/-- `encode_decision`. -/
def encodeDecision (decision : Decision) : Bytes :=
  Write.textId decision.id ++ Write.u8 decision.kind.code ++ Write.u8 decision.verdict.code
    ++ Write.u8 decision.scope.kind.code ++ Write.uncheckedId decision.scope.id
    ++ encodeBindings decision.bindings ++ Write.counted Write.textId decision.subjects
    ++ encodeAuthority decision.authority ++ Write.counted Write.textId decision.fencesIssued
    ++ Write.counted Write.textId decision.fencedPartitions
    ++ Write.counted encodeTrigger decision.revocationTriggers ++ Write.boolean decision.revocable
    ++ encodeReasons decision.reasons defaultLimits

/-- The fields of `decode_decision`. -/
def readDecision (limits : Limits) : Read Decision := do
  let id ← Read.textId
  let kindCode ← Read.u8
  let verdictCode ← Read.u8
  let scopeCode ← Read.u8
  let scopeId ← Read.uncheckedId
  let kind ← Read.expect (DecisionKind.ofCode kindCode)
  let verdict ← Read.expect (DecisionVerdict.ofCode verdictCode)
  let scopeKind ← Read.expect (ScopeKind.ofCode scopeCode)
  let bindings ← readBindings
  let subjects ← Read.counted limits.maxPartitions Read.textId
  let authority ← decodeAuthority limits
  let fencesIssued ← Read.counted limits.maxFenceRecords Read.textId
  let fencedPartitions ← Read.counted limits.maxPartitions Read.textId
  let revocationTriggers ← Read.counted limits.maxReasonsPerDecision decodeTrigger
  let revocable ← Read.boolean
  let reasons ← decodeReasons limits
  return {
    id := id
    kind := kind
    verdict := verdict
    scope := ⟨scopeKind, scopeId⟩
    bindings := bindings
    subjects := subjects
    authority := authority
    fencesIssued := fencesIssued
    fencedPartitions := fencedPartitions
    revocationTriggers := revocationTriggers
    revocable := revocable
    reasons := reasons }

/-- `decode_decision`. -/
def decodeDecision (payload : Bytes) (limits : Limits) : Option Decision :=
  (Read.whole (readDecision limits)).run payload

/-! ## Fences -/

/-- `encode_fence`. -/
def encodeFence (fence : FenceRecord) : Bytes :=
  Write.textId fence.id ++ Write.counter fence.sequence ++ Write.u8 fence.scope.kind.code
    ++ Write.uncheckedId fence.scope.id ++ Write.textId fence.partition
    ++ Write.counter fence.fencedAuthoritySequence ++ Write.counter fence.fencedEpoch
    ++ Write.binaryId fence.fencedBoot ++ Write.counter fence.issuingEpoch
    ++ Write.binaryId fence.issuingBoot ++ Write.u64 fence.tick ++ Write.u16 fence.cause.value

/-- The fields of `decode_fence`. -/
def readFence : Read FenceRecord := do
  let id ← Read.textId
  let sequence ← Read.counter
  let scopeCode ← Read.u8
  let scopeKind ← Read.expect (ScopeKind.ofCode scopeCode)
  let scopeId ← Read.uncheckedId
  let partition ← Read.textId
  let fencedAuthoritySequence ← Read.counter
  let fencedEpoch ← Read.counter
  let fencedBoot ← Read.binaryId
  let issuingEpoch ← Read.counter
  let issuingBoot ← Read.binaryId
  let tick ← Read.u64
  let cause ← Read.u16
  return {
    id := id
    sequence := sequence
    scope := ⟨scopeKind, scopeId⟩
    partition := partition
    fencedAuthoritySequence := fencedAuthoritySequence
    fencedEpoch := fencedEpoch
    fencedBoot := fencedBoot
    issuingEpoch := issuingEpoch
    issuingBoot := issuingBoot
    tick := tick
    cause := ⟨cause⟩ }

/-- `decode_fence`. -/
def decodeFence (payload : Bytes) : Option FenceRecord := (Read.whole readFence).run payload

end FabricPartition
