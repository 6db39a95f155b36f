import FabricPartition.Protocol
import FabricPartition.Runtime

/-!
# Wire payloads

The payload codecs of `protocol.cpp` and of `service.cpp`: what travels in the frames of a session.
They are built from the same readers and writers as the durable payloads, and the two lists carry
durable payloads whole, each behind its length.

The views are what a remote operator is shown; they are records of their own, with 64-bit counters.
-/

set_option autoImplicit false

namespace FabricPartition

/-! ## Handshake -/

/-- `HelloRequest`. -/
structure HelloRequest where
  publisher : PublisherId
  boot : PublisherBootId
  expectedEpoch : CoordinatorEpoch
  provenance : Provenance
  deriving DecidableEq

/-- `encode_hello_request`. -/
def encodeHelloRequest (request : HelloRequest) : Bytes :=
  Write.textId request.publisher ++ Write.binaryId request.boot
    ++ Write.counter request.expectedEpoch ++ Write.textId request.provenance

/-- The fields of `decode_hello_request`. -/
def readHelloRequest : Read HelloRequest := do
  let publisher ← Read.textId
  let boot ← Read.binaryId
  let expectedEpoch ← Read.counter
  let provenance ← Read.textId
  return ⟨publisher, boot, expectedEpoch, provenance⟩

/-- `decode_hello_request`. -/
def decodeHelloRequest (payload : Bytes) : Option HelloRequest :=
  (Read.whole readHelloRequest).run payload

/-- The writing of a session handle. -/
def Write.session (handle : SessionHandle) : Bytes := handle.bytes

/-- The reading of a session handle. -/
def Read.session : Read SessionHandle := do
  let raw ← bytes 16
  if h : raw.length = 16 then return ⟨raw, h⟩ else refuse

/-- `HelloResponse`. -/
structure HelloResponse where
  session : SessionHandle := default
  epoch : CoordinatorEpoch := .zero
  boot : CoordinatorBootId := default
  protocolVersion : UInt16 := 0
  accepted : Bool := false
  reasons : List Reason := []
  deriving DecidableEq

/-- `encode_hello_response`. -/
def encodeHelloResponse (response : HelloResponse) (limits : Limits) : Bytes :=
  Write.session response.session ++ Write.counter response.epoch ++ Write.binaryId response.boot
    ++ Write.u16 response.protocolVersion ++ Write.boolean response.accepted
    ++ encodeReasons response.reasons limits

/-- The fields of `decode_hello_response`. -/
def readHelloResponse (limits : Limits) : Read HelloResponse := do
  let session ← Read.session
  let epoch ← Read.counter
  let boot ← Read.binaryId
  let protocolVersion ← Read.u16
  let accepted ← Read.boolean
  let reasons ← decodeReasons limits
  return ⟨session, epoch, boot, protocolVersion, accepted, reasons⟩

/-- `decode_hello_response`. -/
def decodeHelloResponse (payload : Bytes) (limits : Limits) : Option HelloResponse :=
  (Read.whole (readHelloResponse limits)).run payload

/-! ## Results -/

/-- `OperationResult`. -/
structure OperationResult where
  verdict : DecisionVerdict := .invalid
  decision : DecisionId := .nil
  reasons : List Reason := []
  deriving DecidableEq

/-- `encode_operation_result`. -/
def encodeOperationResult (result : OperationResult) (limits : Limits) : Bytes :=
  Write.u8 result.verdict.code ++ Write.textId result.decision
    ++ encodeReasons result.reasons limits

/-- The fields of `decode_operation_result`. -/
def readOperationResult (limits : Limits) : Read OperationResult := do
  let verdictCode ← Read.u8
  let verdict ← Read.expect (DecisionVerdict.ofCode verdictCode)
  let decision ← Read.textId
  let reasons ← decodeReasons limits
  return ⟨verdict, decision, reasons⟩

/-- `decode_operation_result`. -/
def decodeOperationResult (payload : Bytes) (limits : Limits) : Option OperationResult :=
  (Read.whole (readOperationResult limits)).run payload

/-- `MergeAckView`. -/
structure MergeAckView where
  result : OperationResult := {}
  mergedLineage : LineageId := .nil
  mergedPartition : PartitionId := .nil
  deriving DecidableEq

/-- `encode_merge_ack`. -/
def encodeMergeAck (view : MergeAckView) (limits : Limits) : Bytes :=
  encodeOperationResult view.result limits ++ Write.textId view.mergedLineage
    ++ Write.textId view.mergedPartition

/-- The fields of `decode_merge_ack`, which starts with those of an operation result. -/
def readMergeAck (limits : Limits) : Read MergeAckView := do
  let result ← readOperationResult limits
  let mergedLineage ← Read.textId
  let mergedPartition ← Read.textId
  return ⟨result, mergedLineage, mergedPartition⟩

/-- `decode_merge_ack`. -/
def decodeMergeAck (payload : Bytes) (limits : Limits) : Option MergeAckView :=
  (Read.whole (readMergeAck limits)).run payload

/-! ## Evidence -/

/-- The image of an observation. -/
def encodeObservation (observation : LinkObservation) : Bytes :=
  Write.textId observation.source ++ Write.textId observation.target
    ++ Write.u8 observation.value.code

/-- The reading of an observation. -/
def decodeObservation : Read LinkObservation := do
  let source ← Read.textId
  let target ← Read.textId
  let valueCode ← Read.u8
  let value ← Read.expect (Reachability.ofCode valueCode)
  return ⟨source, target, value⟩

/-- `encode_evidence`: both lists are cut to their bounds. -/
def encodeEvidence (evidence : ReachabilityEvidence) (limits : Limits) : Bytes :=
  Write.textId evidence.id ++ Write.counter evidence.sequence ++ Write.textId evidence.publisher
    ++ Write.binaryId evidence.publisherBoot ++ Write.counter evidence.topologyGeneration
    ++ Write.counter evidence.generation ++ Write.u64 evidence.observedAtTick
    ++ Write.u64 evidence.validityTicks ++ Write.u8 evidence.completeness.code
    ++ Write.textId evidence.provenance
    ++ Write.counted Write.textId
      (evidence.coveredSources.take limits.maxCoveredComponentsPerEvidence)
    ++ Write.counted encodeObservation
      (evidence.observations.take limits.maxObservationsPerEvidence)

/-- The fields of `decode_evidence`. -/
def readEvidence (limits : Limits) : Read ReachabilityEvidence := do
  let id ← Read.textId
  let sequence ← Read.counter
  let publisher ← Read.textId
  let publisherBoot ← Read.binaryId
  let topologyGeneration ← Read.counter
  let generation ← Read.counter
  let observedAtTick ← Read.u64
  let validityTicks ← Read.u64
  let completenessCode ← Read.u8
  let completeness ← Read.expect (EvidenceCompleteness.ofCode completenessCode)
  let provenance ← Read.textId
  let coveredSources ← Read.counted limits.maxCoveredComponentsPerEvidence Read.textId
  let observations ← Read.counted limits.maxObservationsPerEvidence decodeObservation
  return {
    id := id
    sequence := sequence
    publisher := publisher
    publisherBoot := publisherBoot
    topologyGeneration := topologyGeneration
    generation := generation
    observedAtTick := observedAtTick
    validityTicks := validityTicks
    completeness := completeness
    provenance := provenance
    coveredSources := coveredSources
    observations := observations }

/-- `decode_evidence`. -/
def decodeEvidence (payload : Bytes) (limits : Limits) : Option ReachabilityEvidence :=
  (Read.whole (readEvidence limits)).run payload

/-! ## Views -/

/-- `PartitionView`. -/
structure PartitionView where
  id : PartitionId := .nil
  lineage : LineageId := .nil
  generation : PartitionGeneration := .zero
  memberCount : UInt64 := 0
  certainty : PartitionCertainty := .partialDecomposition
  lifecycle : PartitionLifecycle := .discovered
  authorityClass : PartitionAuthorityClass := .unassigned
  basis : AuthorityBasis := .none
  applicationState : AuthorityApplicationState := .notApplicable
  authorizedBits : CapabilitySet := ⟨0⟩
  eligibleBits : CapabilitySet := ⟨0⟩
  observedBits : CapabilitySet := ⟨0⟩
  authoritySequence : UInt64 := 0
  authoritative : Bool := false
  pendingMerge : Bool := false
  deriving DecidableEq

/-- `encode_partition_view`. -/
def encodePartitionView (view : PartitionView) : Bytes :=
  Write.textId view.id ++ Write.textId view.lineage ++ Write.counter view.generation
    ++ Write.u64 view.memberCount ++ Write.u8 view.certainty.code ++ Write.u8 view.lifecycle.code
    ++ Write.u8 view.authorityClass.code ++ Write.u8 view.basis.code
    ++ Write.u8 view.applicationState.code ++ encodeCapability view.authorizedBits
    ++ encodeCapability view.eligibleBits ++ encodeCapability view.observedBits
    ++ Write.u64 view.authoritySequence ++ Write.boolean view.authoritative
    ++ Write.boolean view.pendingMerge

/-- `decode_partition_view`.  The source checks the capability masks at the end. -/
def decodePartitionView : Read PartitionView := do
  let id ← Read.textId
  let lineage ← Read.textId
  let generation ← Read.counter
  let memberCount ← Read.u64
  let certaintyCode ← Read.u8
  let certainty ← Read.expect (PartitionCertainty.ofCode certaintyCode)
  let lifecycleCode ← Read.u8
  let lifecycle ← Read.expect (PartitionLifecycle.ofCode lifecycleCode)
  let classCode ← Read.u8
  let authorityClass ← Read.expect (PartitionAuthorityClass.ofCode classCode)
  let basisCode ← Read.u8
  let basis ← Read.expect (AuthorityBasis.ofCode basisCode)
  let stateCode ← Read.u8
  let applicationState ← Read.expect (AuthorityApplicationState.ofCode stateCode)
  let authorizedBits ← decodeCapability
  let eligibleBits ← decodeCapability
  let observedBits ← decodeCapability
  let authoritySequence ← Read.u64
  let authoritative ← Read.boolean
  let pendingMerge ← Read.boolean
  return {
    id := id
    lineage := lineage
    generation := generation
    memberCount := memberCount
    certainty := certainty
    lifecycle := lifecycle
    authorityClass := authorityClass
    basis := basis
    applicationState := applicationState
    authorizedBits := authorizedBits
    eligibleBits := eligibleBits
    observedBits := observedBits
    authoritySequence := authoritySequence
    authoritative := authoritative
    pendingMerge := pendingMerge }

/-- `AssessmentView`. -/
structure AssessmentView where
  verdict : DecisionVerdict := .invalid
  generation : PartitionGeneration := .zero
  epoch : CoordinatorEpoch := .zero
  boot : CoordinatorBootId := default
  confirmed : Bool := false
  splitBrain : Bool := false
  orderedPairs : UInt64 := 0
  orderedUnknown : UInt64 := 0
  orderedConflicting : UInt64 := 0
  orderedStale : UInt64 := 0
  orderedAsymmetric : UInt64 := 0
  undirectedReachable : UInt64 := 0
  crossComponentIndeterminate : UInt64 := 0
  topologyGeneration : UInt64 := 0
  reachabilityGeneration : UInt64 := 0
  decision : DecisionId := .nil
  partitions : List PartitionView := []
  reasons : List Reason := []
  deriving DecidableEq

/-- `encode_assessment_view`: the partitions are cut to their bound. -/
def encodeAssessmentView (view : AssessmentView) (limits : Limits) : Bytes :=
  Write.u8 view.verdict.code ++ Write.counter view.generation ++ Write.counter view.epoch
    ++ Write.binaryId view.boot ++ Write.boolean view.confirmed ++ Write.boolean view.splitBrain
    ++ Write.u64 view.orderedPairs ++ Write.u64 view.orderedUnknown
    ++ Write.u64 view.orderedConflicting ++ Write.u64 view.orderedStale
    ++ Write.u64 view.orderedAsymmetric ++ Write.u64 view.undirectedReachable
    ++ Write.u64 view.crossComponentIndeterminate ++ Write.u64 view.topologyGeneration
    ++ Write.u64 view.reachabilityGeneration ++ Write.textId view.decision
    ++ Write.counted encodePartitionView (view.partitions.take limits.maxPartitions)
    ++ encodeReasons view.reasons limits

/-- The fields of `decode_assessment_view`. -/
def readAssessmentView (limits : Limits) : Read AssessmentView := do
  let verdictCode ← Read.u8
  let verdict ← Read.expect (DecisionVerdict.ofCode verdictCode)
  let generation ← Read.counter
  let epoch ← Read.counter
  let boot ← Read.binaryId
  let confirmed ← Read.boolean
  let splitBrain ← Read.boolean
  let orderedPairs ← Read.u64
  let orderedUnknown ← Read.u64
  let orderedConflicting ← Read.u64
  let orderedStale ← Read.u64
  let orderedAsymmetric ← Read.u64
  let undirectedReachable ← Read.u64
  let crossComponentIndeterminate ← Read.u64
  let topologyGeneration ← Read.u64
  let reachabilityGeneration ← Read.u64
  let decision ← Read.textId
  let partitions ← Read.counted limits.maxPartitions decodePartitionView
  let reasons ← decodeReasons limits
  return {
    verdict := verdict
    generation := generation
    epoch := epoch
    boot := boot
    confirmed := confirmed
    splitBrain := splitBrain
    orderedPairs := orderedPairs
    orderedUnknown := orderedUnknown
    orderedConflicting := orderedConflicting
    orderedStale := orderedStale
    orderedAsymmetric := orderedAsymmetric
    undirectedReachable := undirectedReachable
    crossComponentIndeterminate := crossComponentIndeterminate
    topologyGeneration := topologyGeneration
    reachabilityGeneration := reachabilityGeneration
    decision := decision
    partitions := partitions
    reasons := reasons }

/-- `decode_assessment_view`. -/
def decodeAssessmentView (payload : Bytes) (limits : Limits) : Option AssessmentView :=
  (Read.whole (readAssessmentView limits)).run payload

/-- `StatusView`. -/
structure StatusView where
  epoch : CoordinatorEpoch := .zero
  boot : CoordinatorBootId := default
  incarnation : ProcessIncarnationId := default
  tick : UInt64 := 0
  partitionGeneration : UInt64 := 0
  authoritySequence : UInt64 := 0
  decisionSequence : UInt64 := 0
  attemptSequence : UInt64 := 0
  lineageSequence : UInt64 := 0
  fenceSequence : UInt64 := 0
  partitionCount : UInt64 := 0
  lineageRecords : UInt64 := 0
  fenceRecords : UInt64 := 0
  evidenceBundles : UInt64 := 0
  interruptedAuthorities : UInt64 := 0
  decisionHistory : UInt64 := 0
  decisionsDropped : UInt64 := 0
  durable : Bool := false
  deriving DecidableEq

/-- `encode_status_view`. -/
def encodeStatusView (view : StatusView) : Bytes :=
  Write.counter view.epoch ++ Write.binaryId view.boot ++ Write.binaryId view.incarnation
    ++ Write.u64 view.tick ++ Write.u64 view.partitionGeneration ++ Write.u64 view.authoritySequence
    ++ Write.u64 view.decisionSequence ++ Write.u64 view.attemptSequence
    ++ Write.u64 view.lineageSequence ++ Write.u64 view.fenceSequence
    ++ Write.u64 view.partitionCount ++ Write.u64 view.lineageRecords
    ++ Write.u64 view.fenceRecords ++ Write.u64 view.evidenceBundles
    ++ Write.u64 view.interruptedAuthorities ++ Write.u64 view.decisionHistory
    ++ Write.u64 view.decisionsDropped ++ Write.boolean view.durable

/-- The fields of `decode_status_view`. -/
def readStatusView : Read StatusView := do
  let epoch ← Read.counter
  let boot ← Read.binaryId
  let incarnation ← Read.binaryId
  let tick ← Read.u64
  let partitionGeneration ← Read.u64
  let authoritySequence ← Read.u64
  let decisionSequence ← Read.u64
  let attemptSequence ← Read.u64
  let lineageSequence ← Read.u64
  let fenceSequence ← Read.u64
  let partitionCount ← Read.u64
  let lineageRecords ← Read.u64
  let fenceRecords ← Read.u64
  let evidenceBundles ← Read.u64
  let interruptedAuthorities ← Read.u64
  let decisionHistory ← Read.u64
  let decisionsDropped ← Read.u64
  let durable ← Read.boolean
  return {
    epoch := epoch
    boot := boot
    incarnation := incarnation
    tick := tick
    partitionGeneration := partitionGeneration
    authoritySequence := authoritySequence
    decisionSequence := decisionSequence
    attemptSequence := attemptSequence
    lineageSequence := lineageSequence
    fenceSequence := fenceSequence
    partitionCount := partitionCount
    lineageRecords := lineageRecords
    fenceRecords := fenceRecords
    evidenceBundles := evidenceBundles
    interruptedAuthorities := interruptedAuthorities
    decisionHistory := decisionHistory
    decisionsDropped := decisionsDropped
    durable := durable }

/-- `decode_status_view`. -/
def decodeStatusView (payload : Bytes) : Option StatusView :=
  (Read.whole readStatusView).run payload

/-! ## Requests -/

/-- `encode_attempt`. -/
def encodeAttempt (token : AttemptToken) : Bytes :=
  Write.textId token.id ++ Write.counter token.sequence

/-- `decode_attempt`. -/
def decodeAttempt : Read AttemptToken := do
  let id ← Read.textId
  let sequence ← Read.counter
  return ⟨id, sequence⟩

/-- `encode_merge_request`. -/
def encodeMergeRequest (request : MergeRequest) : Bytes :=
  encodeAttempt request.attempt ++ Write.counter request.expectedEpoch
    ++ Write.textId request.subject ++ Write.textId request.left ++ Write.textId request.right
    ++ Write.textId request.requester

/-- The fields of `decode_merge_request`. -/
def readMergeRequest : Read MergeRequest := do
  let attempt ← decodeAttempt
  let expectedEpoch ← Read.counter
  let subject ← Read.textId
  let left ← Read.textId
  let right ← Read.textId
  let requester ← Read.textId
  return ⟨attempt, expectedEpoch, subject, left, right, requester⟩

/-- `decode_merge_request`. -/
def decodeMergeRequest (payload : Bytes) : Option MergeRequest :=
  (Read.whole readMergeRequest).run payload

/-- `encode_isolation_request`, with the flag that asks to clear the isolation. -/
def encodeIsolationRequest (request : IsolationRequest) (clear : Bool) : Bytes :=
  encodeAttempt request.attempt ++ Write.counter request.expectedEpoch
    ++ Write.textId request.lineage ++ Write.u16 request.cause.value
    ++ Write.u64 request.durationTicks ++ Write.textId request.requester ++ Write.boolean clear

/-- The fields of `decode_isolation_request`. -/
def readIsolationRequest : Read (IsolationRequest × Bool) := do
  let attempt ← decodeAttempt
  let expectedEpoch ← Read.counter
  let lineage ← Read.textId
  let cause ← Read.u16
  let durationTicks ← Read.u64
  let requester ← Read.textId
  let clear ← Read.boolean
  return (⟨attempt, expectedEpoch, ⟨cause⟩, lineage, durationTicks, requester⟩, clear)

/-- `decode_isolation_request`. -/
def decodeIsolationRequest (payload : Bytes) : Option (IsolationRequest × Bool) :=
  (Read.whole readIsolationRequest).run payload

/-- `encode_revalidation_request`. -/
def encodeRevalidationRequest (request : RevalidationRequest) : Bytes :=
  encodeAttempt request.attempt ++ Write.counter request.expectedEpoch
    ++ Write.textId request.requester

/-- The fields of `decode_revalidation_request`. -/
def readRevalidationRequest : Read RevalidationRequest := do
  let attempt ← decodeAttempt
  let expectedEpoch ← Read.counter
  let requester ← Read.textId
  return ⟨attempt, expectedEpoch, requester⟩

/-- `decode_revalidation_request`. -/
def decodeRevalidationRequest (payload : Bytes) : Option RevalidationRequest :=
  (Read.whole readRevalidationRequest).run payload

/-- `encode_retire_request`. -/
def encodeRetireRequest (request : RetireRequest) : Bytes :=
  encodeAttempt request.attempt ++ Write.counter request.expectedEpoch
    ++ Write.textId request.lineage ++ Write.textId request.requester

/-- The fields of `decode_retire_request`. -/
def readRetireRequest : Read RetireRequest := do
  let attempt ← decodeAttempt
  let expectedEpoch ← Read.counter
  let lineage ← Read.textId
  let requester ← Read.textId
  return ⟨attempt, expectedEpoch, lineage, requester⟩

/-- `decode_retire_request`. -/
def decodeRetireRequest (payload : Bytes) : Option RetireRequest :=
  (Read.whole readRetireRequest).run payload

/-! ## Lists of durable payloads -/

/-- An entry behind its length. -/
def Write.entry (payload : Bytes) : Bytes := Write.count payload.length ++ payload

/-- An entry of a list: its length must not exceed the record bound, and its payload must decode. -/
def Read.entry {α : Type} (limits : Limits) (decode : Bytes → Option α) : Read α := do
  let size ← u32
  if size.toNat > limits.maxRecordBytes then refuse
  else
    let raw ← bytes size.toNat
    expect (decode raw)

/-- `encode_fence_list`: the list is cut to its bound. -/
def encodeFenceList (fences : List FenceRecord) (limits : Limits) : Bytes :=
  Write.counted (fun fence => Write.entry (encodeFence fence)) (fences.take limits.maxFenceRecords)

/-- `decode_fence_list`. -/
def decodeFenceList (payload : Bytes) (limits : Limits) : Option (List FenceRecord) :=
  (Read.whole (Read.counted limits.maxFenceRecords (Read.entry limits decodeFence))).run payload

/-- `encode_lineage_list`: the list is cut to its bound. -/
def encodeLineageList (records : List LineageRecord) (limits : Limits) : Bytes :=
  Write.counted (fun record => Write.entry (encodeLineage record))
    (records.take limits.maxLineageRecords)

/-- `decode_lineage_list`. -/
def decodeLineageList (payload : Bytes) (limits : Limits) : Option (List LineageRecord) :=
  (Read.whole (Read.counted limits.maxLineageRecords
    (Read.entry limits fun raw => decodeLineage raw limits))).run payload

end FabricPartition
