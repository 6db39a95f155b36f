import FabricPartition.Codecs
import FabricPartition.Wire

/-!
# Exact codecs of the wire payloads

The codecs of the wire are exact, as those of the durable payloads are; the two lists of durable
payloads are too, on the values whose entries are not longer than a record may be.  The bound of an
entry is no bound on a value: a lineage record that a store may hold can be too long for the list.
-/

set_option autoImplicit false

namespace FabricPartition

/-! ## Domains -/

theorem Reachability.code_domain : Domain code ofCode := domain_of_find (fun _ => rfl) ofCode_code

theorem EvidenceCompleteness.code_domain : Domain code ofCode :=
  domain_of_find (fun _ => rfl) ofCode_code

theorem PartitionCertainty.code_domain : Domain code ofCode :=
  domain_of_find (fun _ => rfl) ofCode_code

theorem PartitionLifecycle.code_domain : Domain code ofCode :=
  domain_of_find (fun _ => rfl) ofCode_code

/-! ## Handshake -/

theorem codec_helloRequest : Codec readHelloRequest encodeHelloRequest fun _ => True := by
  refine .congr (.field codec_textId HelloRequest.publisher fun publisher =>
    .field codec_binaryId HelloRequest.boot fun boot =>
    .field codec_counter HelloRequest.expectedEpoch fun expectedEpoch =>
    .field codec_textId HelloRequest.provenance fun provenance => .pure fun r => ?_) fun r _ => ?_
  · obtain ⟨⟩ := r
    simp [and_assoc]
  · simp [encodeHelloRequest]

theorem codec_session : Codec Read.session Write.session fun _ => True := by
  refine .congr ((codec_bytes 16).bind SessionHandle.bytes (fun h _ => h.size) fun raw hraw => ?_)
    fun h _ => List.append_nil _
  rw [dif_pos hraw]
  refine .pure fun h => ?_
  obtain ⟨⟩ := h
  simp

/-- The reasons on the wire are cut to the bound they are read back under. -/
theorem encodeReasons_eq {limits : Limits} {reasons : List Reason} (h : ReasonsFit limits reasons) :
    encodeReasons reasons limits = Write.counted encodeReason reasons := by
  rw [encodeReasons, List.take_of_length_le h.1.1]

/-- The reasons as `encode_reasons` writes them. -/
theorem codec_cutReasons (limits : Limits) :
    Codec (decodeReasons limits) (encodeReasons · limits) (ReasonsFit limits) :=
  .congr (codec_reasons limits) fun _ h => (encodeReasons_eq h).symm

theorem codec_helloResponse (limits : Limits) : Codec (readHelloResponse limits)
    (encodeHelloResponse · limits) fun response => ReasonsFit limits response.reasons := by
  refine .congr (.field codec_session HelloResponse.session fun session =>
    .field codec_counter HelloResponse.epoch fun epoch =>
    .field codec_binaryId HelloResponse.boot fun boot =>
    .field codec_u16 HelloResponse.protocolVersion fun protocolVersion =>
    .field codec_boolean HelloResponse.accepted fun accepted =>
    (codec_cutReasons limits).bind HelloResponse.reasons (fun r hr => hr.1.1.1.1.1)
      fun reasons hreasons => .pure fun r => ?_) fun r _ => ?_
  · obtain ⟨⟩ := r
    simp only [HelloResponse.mk.injEq, and_assoc]
    exact and_iff_right_of_imp fun h => by simp only [h, hreasons]
  · simp [encodeHelloResponse]

/-! ## Results -/

theorem codec_operationResult (limits : Limits) : Codec (readOperationResult limits)
    (encodeOperationResult · limits) fun result => ReasonsFit limits result.reasons := by
  refine .congr (.enumerator DecisionVerdict.code_domain OperationResult.verdict fun verdict =>
    .field codec_textId OperationResult.decision fun decision =>
    (codec_cutReasons limits).bind OperationResult.reasons (fun r hr => hr.1.1)
      fun reasons hreasons => .pure fun r => ?_) fun r _ => ?_
  · obtain ⟨⟩ := r
    simp only [OperationResult.mk.injEq, and_assoc]
    exact and_iff_right_of_imp fun h => by simp only [h, hreasons]
  · simp [encodeOperationResult]

theorem codec_mergeAck (limits : Limits) : Codec (readMergeAck limits)
    (encodeMergeAck · limits) fun view => ReasonsFit limits view.result.reasons := by
  refine .congr ((codec_operationResult limits).bind MergeAckView.result (fun v hv => hv)
      fun result hresult =>
    .field codec_textId MergeAckView.mergedLineage fun mergedLineage =>
    .field codec_textId MergeAckView.mergedPartition fun mergedPartition => .pure fun v => ?_)
    fun v _ => ?_
  · obtain ⟨⟩ := v
    simp only [MergeAckView.mk.injEq, and_assoc]
    exact and_iff_right_of_imp fun h => by simp only [h, hresult]
  · simp [encodeMergeAck]

/-! ## Evidence -/

theorem codec_observation : Codec decodeObservation encodeObservation fun _ => True := by
  refine .congr (.field codec_textId LinkObservation.source fun source =>
    .field codec_textId LinkObservation.target fun target =>
    .enumerator Reachability.code_domain LinkObservation.value fun value => .pure fun o => ?_)
    fun o _ => ?_
  · obtain ⟨⟩ := o
    simp [and_assoc]
  · simp [encodeObservation]

/-- A bundle whose lists fit. -/
structure ReachabilityEvidence.FitsIn (limits : Limits) (evidence : ReachabilityEvidence) :
    Prop where
  coveredSources : Fits limits.maxCoveredComponentsPerEvidence evidence.coveredSources.length
  observations : Fits limits.maxObservationsPerEvidence evidence.observations.length

theorem codec_evidence (limits : Limits) : Codec (readEvidence limits) (encodeEvidence · limits)
    (ReachabilityEvidence.FitsIn limits) := by
  refine .congr (.field codec_textId ReachabilityEvidence.id fun id =>
    .field codec_counter ReachabilityEvidence.sequence fun sequence =>
    .field codec_textId ReachabilityEvidence.publisher fun publisher =>
    .field codec_binaryId ReachabilityEvidence.publisherBoot fun publisherBoot =>
    .field codec_counter ReachabilityEvidence.topologyGeneration fun topologyGeneration =>
    .field codec_counter ReachabilityEvidence.generation fun generation =>
    .field codec_u64 ReachabilityEvidence.observedAtTick fun observedAtTick =>
    .field codec_u64 ReachabilityEvidence.validityTicks fun validityTicks =>
    .enumerator EvidenceCompleteness.code_domain ReachabilityEvidence.completeness
      fun completeness =>
    .field codec_textId ReachabilityEvidence.provenance fun provenance =>
    (codec_textId.counted limits.maxCoveredComponentsPerEvidence).bind
      ReachabilityEvidence.coveredSources (fun e he => ?_) fun coveredSources hsources =>
    (codec_observation.counted limits.maxObservationsPerEvidence).bind
      ReachabilityEvidence.observations (fun e he => ?_) fun observations hobservations =>
    .pure fun e => ?_) fun e he => ?_
  · simp only [and_assoc] at he
    exact ⟨he.1.coveredSources, fun _ _ => trivial⟩
  · simp only [and_assoc] at he
    exact ⟨he.1.observations, fun _ _ => trivial⟩
  · obtain ⟨⟩ := e
    simp only [ReachabilityEvidence.mk.injEq, and_assoc]
    refine and_iff_right_of_imp fun h => ⟨?_, ?_⟩
    · simp only [h, hsources.1]
    · simp only [h, hobservations.1]
  · simp [encodeEvidence, List.take_of_length_le he.coveredSources.1,
      List.take_of_length_le he.observations.1]

/-! ## Views -/

/-- A view of a partition whose masks are of capabilities there are. -/
structure PartitionView.FitsIn (view : PartitionView) : Prop where
  authorized : view.authorizedBits.Valid
  eligible : view.eligibleBits.Valid
  observed : view.observedBits.Valid

theorem codec_partitionView :
    Codec decodePartitionView encodePartitionView PartitionView.FitsIn := by
  refine .congr (.field codec_textId PartitionView.id fun id =>
    .field codec_textId PartitionView.lineage fun lineage =>
    .field codec_counter PartitionView.generation fun generation =>
    .field codec_u64 PartitionView.memberCount fun memberCount =>
    .enumerator PartitionCertainty.code_domain PartitionView.certainty fun certainty =>
    .enumerator PartitionLifecycle.code_domain PartitionView.lifecycle fun lifecycle =>
    .enumerator PartitionAuthorityClass.code_domain PartitionView.authorityClass
      fun authorityClass =>
    .enumerator AuthorityBasis.code_domain PartitionView.basis fun basis =>
    .enumerator AuthorityApplicationState.code_domain PartitionView.applicationState
      fun applicationState =>
    codec_capability.bind PartitionView.authorizedBits (fun v hv => ?_)
      fun authorizedBits hauthorized =>
    codec_capability.bind PartitionView.eligibleBits (fun v hv => ?_) fun eligibleBits heligible =>
    codec_capability.bind PartitionView.observedBits (fun v hv => ?_) fun observedBits hobserved =>
    .field codec_u64 PartitionView.authoritySequence fun authoritySequence =>
    .field codec_boolean PartitionView.authoritative fun authoritative =>
    .field codec_boolean PartitionView.pendingMerge fun pendingMerge => .pure fun v => ?_)
    fun v _ => ?_
  · simp only [and_assoc] at hv
    exact hv.1.authorized
  · simp only [and_assoc] at hv
    exact hv.1.eligible
  · simp only [and_assoc] at hv
    exact hv.1.observed
  · obtain ⟨⟩ := v
    simp only [PartitionView.mk.injEq, and_assoc]
    refine and_iff_right_of_imp fun h => ⟨?_, ?_, ?_⟩
    · simp only [h, hauthorized]
    · simp only [h, heligible]
    · simp only [h, hobserved]
  · simp [encodePartitionView]

/-- A view of an assessment that fits. -/
structure AssessmentView.FitsIn (limits : Limits) (view : AssessmentView) : Prop where
  count : Fits limits.maxPartitions view.partitions.length
  partitions : ∀ p ∈ view.partitions, p.FitsIn
  reasons : ReasonsFit limits view.reasons

theorem codec_assessmentView (limits : Limits) : Codec (readAssessmentView limits)
    (encodeAssessmentView · limits) (AssessmentView.FitsIn limits) := by
  refine .congr (.enumerator DecisionVerdict.code_domain AssessmentView.verdict fun verdict =>
    .field codec_counter AssessmentView.generation fun generation =>
    .field codec_counter AssessmentView.epoch fun epoch =>
    .field codec_binaryId AssessmentView.boot fun boot =>
    .field codec_boolean AssessmentView.confirmed fun confirmed =>
    .field codec_boolean AssessmentView.splitBrain fun splitBrain =>
    .field codec_u64 AssessmentView.orderedPairs fun orderedPairs =>
    .field codec_u64 AssessmentView.orderedUnknown fun orderedUnknown =>
    .field codec_u64 AssessmentView.orderedConflicting fun orderedConflicting =>
    .field codec_u64 AssessmentView.orderedStale fun orderedStale =>
    .field codec_u64 AssessmentView.orderedAsymmetric fun orderedAsymmetric =>
    .field codec_u64 AssessmentView.undirectedReachable fun undirectedReachable =>
    .field codec_u64 AssessmentView.crossComponentIndeterminate fun crossComponentIndeterminate =>
    .field codec_u64 AssessmentView.topologyGeneration fun topologyGeneration =>
    .field codec_u64 AssessmentView.reachabilityGeneration fun reachabilityGeneration =>
    .field codec_textId AssessmentView.decision fun decision =>
    (codec_partitionView.counted limits.maxPartitions).bind AssessmentView.partitions
      (fun v hv => ?_) fun partitions hpartitions =>
    (codec_cutReasons limits).bind AssessmentView.reasons (fun v hv => ?_) fun reasons hreasons =>
    .pure fun v => ⟨fun h => ?_, ?_⟩) fun v hv => ?_
  · simp only [and_assoc] at hv
    exact ⟨hv.1.count, hv.1.partitions⟩
  · simp only [and_assoc] at hv
    exact hv.1.reasons
  · obtain ⟨⟩ := v
    simp only at h
    simp only [h]
  · rintro rfl
    simp only [and_true]
    exact ⟨hpartitions.1, hpartitions.2, hreasons⟩
  · unfold encodeAssessmentView
    simp only [List.take_of_length_le hv.count.1, List.append_assoc, List.append_nil]

theorem codec_statusView : Codec readStatusView encodeStatusView fun _ => True := by
  refine .congr (.field codec_counter StatusView.epoch fun epoch =>
    .field codec_binaryId StatusView.boot fun boot =>
    .field codec_binaryId StatusView.incarnation fun incarnation =>
    .field codec_u64 StatusView.tick fun tick =>
    .field codec_u64 StatusView.partitionGeneration fun partitionGeneration =>
    .field codec_u64 StatusView.authoritySequence fun authoritySequence =>
    .field codec_u64 StatusView.decisionSequence fun decisionSequence =>
    .field codec_u64 StatusView.attemptSequence fun attemptSequence =>
    .field codec_u64 StatusView.lineageSequence fun lineageSequence =>
    .field codec_u64 StatusView.fenceSequence fun fenceSequence =>
    .field codec_u64 StatusView.partitionCount fun partitionCount =>
    .field codec_u64 StatusView.lineageRecords fun lineageRecords =>
    .field codec_u64 StatusView.fenceRecords fun fenceRecords =>
    .field codec_u64 StatusView.evidenceBundles fun evidenceBundles =>
    .field codec_u64 StatusView.interruptedAuthorities fun interruptedAuthorities =>
    .field codec_u64 StatusView.decisionHistory fun decisionHistory =>
    .field codec_u64 StatusView.decisionsDropped fun decisionsDropped =>
    .field codec_boolean StatusView.durable fun durable => .pure fun v => ⟨fun h => ?_, ?_⟩)
    fun v _ => ?_
  · obtain ⟨⟩ := v
    simp only at h
    simp only [h]
  · rintro rfl
    simp only [and_self]
  · unfold encodeStatusView
    simp only [List.append_assoc, List.append_nil]

/-! ## Requests -/

theorem codec_attempt : Codec decodeAttempt encodeAttempt fun _ => True := by
  refine .congr (.field codec_textId AttemptToken.id fun id =>
    .field codec_counter AttemptToken.sequence fun sequence => .pure fun t => ?_) fun t _ => ?_
  · obtain ⟨⟩ := t
    simp
  · simp [encodeAttempt]

theorem codec_mergeRequest : Codec readMergeRequest encodeMergeRequest fun _ => True := by
  refine .congr (.field codec_attempt MergeRequest.attempt fun attempt =>
    .field codec_counter MergeRequest.expectedEpoch fun expectedEpoch =>
    .field codec_textId MergeRequest.subject fun subject =>
    .field codec_textId MergeRequest.left fun left =>
    .field codec_textId MergeRequest.right fun right =>
    .field codec_textId MergeRequest.requester fun requester => .pure fun r => ?_) fun r _ => ?_
  · obtain ⟨⟩ := r
    simp [and_assoc]
  · simp [encodeMergeRequest]

/-- A request to isolate, with its flag. -/
theorem codec_isolationRequest : Codec readIsolationRequest
    (fun decoded => encodeIsolationRequest decoded.1 decoded.2) fun _ => True := by
  refine .congr (.field codec_attempt (IsolationRequest.attempt ∘ Prod.fst) fun attempt =>
    .field codec_counter (IsolationRequest.expectedEpoch ∘ Prod.fst) fun expectedEpoch =>
    .field codec_textId (IsolationRequest.lineage ∘ Prod.fst) fun lineage =>
    .field codec_u16 (ReasonCode.value ∘ IsolationRequest.cause ∘ Prod.fst) fun cause =>
    .field codec_u64 (IsolationRequest.durationTicks ∘ Prod.fst) fun durationTicks =>
    .field codec_textId (IsolationRequest.requester ∘ Prod.fst) fun requester =>
    .field codec_boolean Prod.snd fun clear => .pure fun d => ?_) fun d _ => ?_
  · obtain ⟨⟨_, _, ⟨_⟩, _, _, _⟩, _⟩ := d
    simp only [Function.comp_apply, Prod.mk.injEq, IsolationRequest.mk.injEq, ReasonCode.mk.injEq,
      and_assoc, true_and]
    exact ⟨fun ⟨ha, he, hl, hc, h⟩ => ⟨ha, he, hc, hl, h⟩, fun ⟨ha, he, hc, hl, h⟩ =>
      ⟨ha, he, hl, hc, h⟩⟩
  · simp [encodeIsolationRequest]

theorem codec_revalidationRequest :
    Codec readRevalidationRequest encodeRevalidationRequest fun _ => True := by
  refine .congr (.field codec_attempt RevalidationRequest.attempt fun attempt =>
    .field codec_counter RevalidationRequest.expectedEpoch fun expectedEpoch =>
    .field codec_textId RevalidationRequest.requester fun requester => .pure fun r => ?_)
    fun r _ => ?_
  · obtain ⟨⟩ := r
    simp [and_assoc]
  · simp [encodeRevalidationRequest]

theorem codec_retireRequest : Codec readRetireRequest encodeRetireRequest fun _ => True := by
  refine .congr (.field codec_attempt RetireRequest.attempt fun attempt =>
    .field codec_counter RetireRequest.expectedEpoch fun expectedEpoch =>
    .field codec_textId RetireRequest.lineage fun lineage =>
    .field codec_textId RetireRequest.requester fun requester => .pure fun r => ?_) fun r _ => ?_
  · obtain ⟨⟩ := r
    simp [and_assoc]
  · simp [encodeRetireRequest]

/-! ## Lists of durable payloads -/

/-- A payload behind its length, read by a decoder that is exact. -/
theorem codec_entry {α : Type} {decode : Bytes → Option α} {enc : α → Bytes} {P : α → Prop}
    (limits : Limits) (hdecode : ∀ raw v, decode raw = some v ↔ P v ∧ raw = enc v) :
    Codec (Read.entry limits decode) (fun v => Write.entry (enc v))
      fun v => P v ∧ Fits limits.maxRecordBytes (enc v).length := by
  have hpayload : ∀ raw, Codec (Read.expect (decode raw)) (fun _ => [])
      fun v => P v ∧ raw = enc v := by
    refine fun raw => ⟨fun v hv rest off => ?_, fun {data off v r} hm => ?_⟩
    · rw [(hdecode raw v).mpr hv]
      rfl
    · rcases hraw : decode raw with _ | w
      · rw [hraw] at hm
        cases hm
      · rw [hraw] at hm
        cases hm
        exact ⟨(hdecode raw _).mp hraw, data, rfl⟩
  refine .congr (.field codec_u32 (fun v => UInt32.ofNat (enc v).length) fun size =>
    .guard Read.refuse_refuses (fun v hv => ?_) fun hsize =>
      (codec_bytes size.toNat).bind enc (fun v hv => ?_) fun raw hraw =>
        .iff (hpayload raw) fun v => ?_) fun v _ => ?_
  · have hlength := (ofNat_eq_iff hv.1.2.2 size).mp hv.2
    have hle := hv.1.2.1
    omega
  · exact (ofNat_eq_iff hv.1.2.2 size).mp hv.2
  · have hlt := size.toNat_lt
    refine ⟨fun h => ⟨⟨⟨h.1, ?_, ?_⟩, ?_⟩, h.2.symm⟩, fun h => ⟨h.1.1.1, h.2.symm⟩⟩
    · rw [← h.2]
      omega
    · rw [← h.2]
      omega
    · rw [← h.2]
      exact (ofNat_eq_iff (by omega) size).mpr hraw
  · simp [Write.entry, Write.count]

/-- A list of fences that fits. -/
structure FencesFit (limits : Limits) (fences : List FenceRecord) : Prop where
  count : Fits limits.maxFenceRecords fences.length
  scopes : ∀ fence ∈ fences, fence.scope.id.Readable
  sizes : ∀ fence ∈ fences, Fits limits.maxRecordBytes (encodeFence fence).length

/-- A list of lineage records that fits. -/
structure LineageFits (limits : Limits) (records : List LineageRecord) : Prop where
  count : Fits limits.maxLineageRecords records.length
  each : ∀ record ∈ records, record.FitsIn limits
  sizes : ∀ record ∈ records, Fits limits.maxRecordBytes (encodeLineage record).length

/-- The loop of `decode_fence_list` reads what the loop of `encode_fence_list` writes. -/
theorem codec_fenceList (limits : Limits) :
    Codec (Read.counted limits.maxFenceRecords (Read.entry limits decodeFence))
      (encodeFenceList · limits) (FencesFit limits) := by
  have hentry := codec_entry limits fun raw v => (codec_fence.whole_iff raw v)
  refine .congr (.iff (hentry.counted limits.maxFenceRecords) fun fences => ?_) fun fences h => ?_
  · exact ⟨fun h => ⟨h.1, fun f hf => (h.2 f hf).1, fun f hf => (h.2 f hf).2⟩,
      fun h => ⟨h.count, fun f hf => ⟨h.scopes f hf, h.sizes f hf⟩⟩⟩
  · rw [encodeFenceList, List.take_of_length_le h.count.1]

/-- The same for `decode_lineage_list` and `encode_lineage_list`. -/
theorem codec_lineageList (limits : Limits) :
    Codec (Read.counted limits.maxLineageRecords
        (Read.entry limits fun raw => decodeLineage raw limits))
      (encodeLineageList · limits) (LineageFits limits) := by
  have hentry := codec_entry limits (decodeLineage_iff limits)
  refine .congr (.iff (hentry.counted limits.maxLineageRecords) fun records => ?_)
    fun records h => ?_
  · exact ⟨fun h => ⟨h.1, fun r hr => (h.2 r hr).1, fun r hr => (h.2 r hr).2⟩,
      fun h => ⟨h.count, fun r hr => ⟨h.each r hr, h.sizes r hr⟩⟩⟩
  · rw [encodeLineageList, List.take_of_length_le h.count.1]

/-! ## Exactness of the codecs of the program -/

/-- A decoder and an encoder are inverse on the values that fit: these are the values that can be
decoded, and each from its own image only. -/
def Exact {α : Type} (decode : Bytes → Option α) (encode : α → Bytes) (P : α → Prop) : Prop :=
  ∀ payload v, decode payload = some v ↔ P v ∧ payload = encode v

/-- Under the default limits a decision that fits is not cut. -/
theorem decodeDecision_default : Exact (decodeDecision · defaultLimits) encodeDecision
    (Decision.FitsIn defaultLimits) := by
  intro payload decision
  have hcut : decision.FitsIn defaultLimits → decision.cut = decision := fun h => by
    rw [Decision.cut, List.take_of_length_le h.reasons.1.1,
      List.take_of_length_le h.authority.reasons.1.1]
  rw [decodeDecision_iff, encodeDecision_eq]
  refine and_congr_right fun h => ?_
  rw [hcut h]

/-- The payload codecs of the program are exact. -/
structure ExactPayloads (limits : Limits) : Prop where
  epochState : Exact (decodeEpochState · limits) encodeEpochState (EpochState.FitsIn limits)
  policy : Exact (decodePolicy · limits) encodePolicy (PartitionPolicy.FitsIn limits)
  lineage : Exact (decodeLineage · limits) encodeLineage (LineageRecord.FitsIn limits)
  fence : Exact decodeFence encodeFence fun fence => fence.scope.id.Readable
  decision : Exact (decodeDecision · limits) encodeDecision (Decision.FitsIn limits)
  evidence : Exact (decodeEvidence · limits) (encodeEvidence · limits)
    (ReachabilityEvidence.FitsIn limits)
  helloRequest : Exact decodeHelloRequest encodeHelloRequest fun _ => True
  helloResponse : Exact (decodeHelloResponse · limits) (encodeHelloResponse · limits)
    fun response => ReasonsFit limits response.reasons
  operationResult : Exact (decodeOperationResult · limits) (encodeOperationResult · limits)
    fun result => ReasonsFit limits result.reasons
  assessmentView : Exact (decodeAssessmentView · limits) (encodeAssessmentView · limits)
    (AssessmentView.FitsIn limits)
  statusView : Exact decodeStatusView encodeStatusView fun _ => True
  mergeRequest : Exact decodeMergeRequest encodeMergeRequest fun _ => True
  isolationRequest : Exact decodeIsolationRequest
    (fun decoded => encodeIsolationRequest decoded.1 decoded.2) fun _ => True
  revalidationRequest : Exact decodeRevalidationRequest encodeRevalidationRequest fun _ => True
  retireRequest : Exact decodeRetireRequest encodeRetireRequest fun _ => True
  mergeAck : Exact (decodeMergeAck · limits) (encodeMergeAck · limits)
    fun view => ReasonsFit limits view.result.reasons
  fenceList : Exact (decodeFenceList · limits) (encodeFenceList · limits) (FencesFit limits)
  lineageList : Exact (decodeLineageList · limits) (encodeLineageList · limits)
    (LineageFits limits)

theorem payloads_exact : ExactPayloads defaultLimits where
  epochState := (codec_epochState _).whole_iff
  policy := (codec_policy _).whole_iff
  lineage := decodeLineage_iff _
  fence := codec_fence.whole_iff
  decision := decodeDecision_default
  evidence := (codec_evidence _).whole_iff
  helloRequest := codec_helloRequest.whole_iff
  helloResponse := (codec_helloResponse _).whole_iff
  operationResult := (codec_operationResult _).whole_iff
  assessmentView := (codec_assessmentView _).whole_iff
  statusView := codec_statusView.whole_iff
  mergeRequest := codec_mergeRequest.whole_iff
  isolationRequest := codec_isolationRequest.whole_iff
  revalidationRequest := codec_revalidationRequest.whole_iff
  retireRequest := codec_retireRequest.whole_iff
  mergeAck := (codec_mergeAck _).whole_iff
  fenceList := (codec_fenceList _).whole_iff
  lineageList := (codec_lineageList _).whole_iff

/-! ## A record that is too long for a list -/

/-- Every word of `n` letters out of two, before a fixed tail, in increasing order. -/
def words : Nat → List Text
  | 0 => [List.replicate 64 97]
  | n + 1 => (words n).map (97 :: ·) ++ (words n).map (98 :: ·)

theorem words_count (n : Nat) : (words n).length = 2 ^ n := by
  induction n with
  | zero => rfl
  | succ n ih =>
    rw [words, List.length_append, List.length_map, List.length_map, ih]
    omega

theorem words_mem {n : Nat} {word : Text} (h : word ∈ words n) :
    word.length = n + 64 ∧ ∀ b ∈ word, b = 97 ∨ b = 98 := by
  induction n generalizing word with
  | zero =>
    rw [List.mem_singleton.mp h]
    exact ⟨List.length_replicate, fun b hb => .inl (List.eq_of_mem_replicate hb)⟩
  | succ n ih =>
    rw [words, List.mem_append, List.mem_map, List.mem_map] at h
    obtain ⟨tail, htail, rfl⟩ | ⟨tail, htail, rfl⟩ := h <;>
      obtain ⟨hlength, hletters⟩ := ih htail <;>
      exact ⟨by rw [List.length_cons]; omega, by simpa using hletters⟩

theorem words_ordered (n : Nat) :
    (words n).Pairwise fun a b => a.map UInt8.toNat < b.map UInt8.toNat := by
  induction n with
  | zero => exact List.pairwise_singleton ..
  | succ n ih =>
    have hcons : ∀ letter : UInt8, ((words n).map (letter :: ·)).Pairwise
        fun a b => a.map UInt8.toNat < b.map UInt8.toNat := fun letter =>
      List.pairwise_map.mpr (ih.imp fun h => by simpa using h)
    refine List.pairwise_append.mpr ⟨hcons 97, hcons 98, fun a ha b hb => ?_⟩
    obtain ⟨a, -, rfl⟩ := List.mem_map.mp ha
    obtain ⟨b, -, rfl⟩ := List.mem_map.mp hb
    exact List.cons_lt_cons_iff.mpr (.inl (by decide))

theorem words_valid {word : Text} (h : word ∈ words 20) :
    isValidId IdTag.component.maxLength word = true := by
  obtain ⟨hlength, hletters⟩ := words_mem h
  refine isValidId_of_alphanumeric ?_ (by rw [hlength]; decide) fun b hb => ?_
  · rintro rfl
    exact absurd hlength (by decide)
  · obtain rfl | rfl := hletters b hb <;> decide

/-- As many components as a roster may have. -/
def manyComponents : List ComponentId :=
  ((words 20).take defaultLimits.maxComponents).pmap TextId.fromValidated
    fun _ h => words_valid (List.mem_of_mem_take h)

theorem manyComponents_length : manyComponents.length = defaultLimits.maxComponents := by
  rw [manyComponents, List.length_pmap, List.length_take, words_count]
  decide

theorem manyComponents_text {m : ComponentId} (h : m ∈ manyComponents) : m.text.length = 84 := by
  obtain ⟨word, hword, rfl⟩ := List.mem_pmap.mp h
  exact (words_mem (List.mem_of_mem_take hword)).1

theorem manyComponents_ordered : manyComponents.Pairwise (· < ·) :=
  (((words_ordered 20).sublist (List.take_sublist ..)).pmap _ fun _ _ _ _ h => h)

/-- A record of the genesis of a partition, with its digests. -/
def genesisRecord (members : List ComponentId) : LineageRecord :=
  let record : LineageRecord :=
    { sequence := .zero, lineage := .nil, generation := .zero,
      membership := computeMembershipDigest members, members := members,
      epoch := .zero, boot := default, decision := .nil }
  { record with digest := computeLineageDigest record }

theorem genesisRecord_fits {limits : Limits} {members : List ComponentId}
    (h : MembersFit limits members) : (genesisRecord members).FitsIn limits :=
  ⟨h, rfl, rfl⟩

/-- The members of a record are part of its image. -/
theorem manyComponents_fit : MembersFit defaultLimits manyComponents := by
  refine ⟨⟨manyComponents_length.le, ?_⟩, manyComponents_ordered⟩
  rw [manyComponents_length]
  decide

/-- A list of one record, of as many components as a roster may have, is not read back: the entry
is longer than a record may be. -/
theorem lineageList_long_record : ∃ records : List LineageRecord,
    records.length ≤ defaultLimits.maxLineageRecords ∧
      (∀ record ∈ records, record.FitsIn defaultLimits) ∧
        decodeLineageList (encodeLineageList records defaultLimits) defaultLimits
          ≠ some records := by
  have hlong : defaultLimits.maxRecordBytes < (manyComponents.flatMap Write.textId).length := by
    have heach : ∀ m ∈ manyComponents, 88 ≤ (Write.textId m).length := fun m hm => by
      rw [Write.length_textId, manyComponents_text hm]
    refine Nat.lt_of_lt_of_le ?_ (le_length_flatMap heach)
    rw [manyComponents_length]
    decide
  have hfits := genesisRecord_fits manyComponents_fit
  refine ⟨[genesisRecord manyComponents], by decide, fun r hr => ?_, fun h => ?_⟩
  · rw [List.mem_singleton.mp hr]
    exact hfits
  · have hread := (((codec_lineageList defaultLimits).whole_iff _ _).mp h).1
    have hle := (hread.sizes _ List.mem_cons_self).1
    exact (hle.trans_lt hlong).not_ge (length_le_encodeLineage (genesisRecord manyComponents))

end FabricPartition
