import FabricPartition.Persistence

/-!
# Exact codecs of the durable payloads

The codecs of the durable payloads are exact: what is encoded is decoded, and what is decoded is
what would have been encoded.  For each payload this is a `Codec` between its reader and its writer,
on the values that fit the limits; the two functions of the source, which read a payload to its end,
are inverse on these (`Codec.run_iff`).

A value fits when its counts and texts are within the limits of the reader and its lists are in the
order the reader insists on.  That its identifiers, enumerators and counters are in their domains is
part of its type; the exceptions are the capability masks and the scope of a decision or a fence.
-/

set_option autoImplicit false

namespace FabricPartition

/-! ## Domains and order -/

/-- An enumeration and its domain check. -/
def Domain {E : Type} (code : E → UInt8) (ofCode : UInt8 → Option E) : Prop :=
  ∀ c e, ofCode c = some e ↔ code e = c

/-- A domain check that looks the value up. -/
theorem domain_of_find {E : Type} {code : E → UInt8} {ofCode : UInt8 → Option E} {all : List E}
    (hfind : ∀ v, ofCode v = all.find? fun e => code e == v)
    (hcode : ∀ e, ofCode (code e) = some e) : Domain code ofCode := by
  intro c e
  refine ⟨fun h => ?_, fun h => h ▸ hcode e⟩
  rw [hfind] at h
  simpa using List.find?_some h

theorem PartitionAuthorityClass.code_domain : Domain code ofCode :=
  domain_of_find (fun _ => rfl) ofCode_code

theorem AuthorityBasis.code_domain : Domain code ofCode := domain_of_find (fun _ => rfl) ofCode_code

theorem AuthorityApplicationState.code_domain : Domain code ofCode :=
  domain_of_find (fun _ => rfl) ofCode_code

theorem ScopeKind.code_domain : Domain code ofCode := domain_of_find (fun _ => rfl) ofCode_code

theorem DecisionKind.code_domain : Domain code ofCode := domain_of_find (fun _ => rfl) ofCode_code

theorem DecisionVerdict.code_domain : Domain code ofCode :=
  domain_of_find (fun _ => rfl) ofCode_code

theorem LineageEventKind.code_domain : Domain code ofCode :=
  domain_of_find (fun _ => rfl) ofCode_code

namespace Codec

variable {α β : Type} {enc : α → Bytes} {P : α → Prop}

/-- The domain check of a code that has been read. -/
theorem expect {E : Type} {code : E → UInt8} {ofCode : UInt8 → Option E}
    (hdomain : Domain code ofCode) (c : UInt8) :
    Codec (Read.expect (ofCode c)) (fun _ => []) fun e => code e = c where
  reads e he rest off := by
    rw [(hdomain c e).mpr he]
    rfl
  exact {data off e r} hm := by
    rcases hcode : ofCode c with _ | e'
    · rw [hcode] at hm
      cases hm
    · rw [hcode] at hm
      cases hm
      exact ⟨(hdomain c _).mp hcode, data, rfl⟩

/-- A field that is an enumerator. -/
theorem enumerator {E : Type} {code : E → UInt8} {ofCode : UInt8 → Option E}
    (hdomain : Domain code ofCode) (proj : α → E) {f : E → Read α}
    (hf : ∀ e, Codec (f e) enc fun a => P a ∧ proj a = e) :
    Codec (Read.u8 >>= fun c => Read.expect (ofCode c) >>= f)
      (fun a => Write.u8 (code (proj a)) ++ enc a) P := by
  refine .congr (.field codec_u8 (fun a => code (proj a)) fun c =>
    (expect hdomain c).bind proj (fun a ha => ha.2) fun e he =>
      .iff (hf e) fun a => ⟨fun h => ⟨⟨h.1, by rw [h.2, he]⟩, h.2⟩, fun h => ⟨h.1.1, h.2⟩⟩)
    fun a _ => rfl

/-- A payload that is read to its end. -/
theorem whole_iff {m : Read α} (h : Codec m enc P) (payload : Bytes) (v : α) :
    (Read.whole m).run payload = some v ↔ P v ∧ payload = enc v := h.run_iff payload v

/-- A list behind its count, read by a loop of that many turns. -/
theorem behindCount {m : Nat → Read (List β)} {encs : List β → Bytes} {Q : List β → Prop}
    (hm : ∀ n, Codec (m n) encs fun xs => xs.length = n ∧ Q xs) (bound : Nat) :
    Codec (Read.u32 >>= fun count => if count.toNat > bound then Read.refuse else m count.toNat)
      (fun xs => Write.count xs.length ++ encs xs) fun xs => Fits bound xs.length ∧ Q xs := by
  refine .field codec_u32 (fun xs => UInt32.ofNat xs.length) fun count =>
    .guard Read.refuse_refuses (fun xs hxs => ?_) fun hcount => .iff (hm count.toNat) fun xs => ?_
  · have hlength := (ofNat_eq_iff hxs.1.1.2 count).mp hxs.2
    have hle := hxs.1.1.1
    omega
  · refine ⟨fun h => ?_, fun h => ⟨(ofNat_eq_iff h.1.1.2 count).mp h.2, h.1.2⟩⟩
    have hlt := count.toNat_lt
    have h32 : xs.length < 2 ^ 32 := by omega
    exact ⟨⟨⟨by omega, h32⟩, h.2⟩, (ofNat_eq_iff h32 count).mpr h.1⟩

/-- The same, in front of the other fields. -/
theorem countedField {m : Nat → Read (List β)} {encs : List β → Bytes} {Q : List β → Prop}
    {f : List β → Read α} (hm : ∀ n, Codec (m n) encs fun xs => xs.length = n ∧ Q xs) (bound : Nat)
    (proj : α → List β) (hproj : ∀ a, P a → Fits bound (proj a).length ∧ Q (proj a))
    (hf : ∀ xs, Fits bound xs.length ∧ Q xs → Codec (f xs) enc fun a => P a ∧ proj a = xs) :
    Codec (Read.u32 >>= fun count =>
        if count.toNat > bound then Read.refuse else m count.toNat >>= f)
      (fun a => Write.count (proj a).length ++ (encs (proj a) ++ enc a)) P := by
  refine .field codec_u32 (fun a => UInt32.ofNat (proj a).length) fun count =>
    .guard Read.refuse_refuses (fun a ha => ?_) fun hcount =>
      (hm count.toNat).bind proj (fun a ha => ?_) fun xs hxs => .iff (hf xs ?_) fun a => ?_
  · obtain ⟨⟨hle, h32⟩, -⟩ := hproj a ha.1
    have hlength := (ofNat_eq_iff h32 count).mp ha.2
    omega
  · obtain ⟨⟨hle, h32⟩, hq⟩ := hproj a ha.1
    exact ⟨(ofNat_eq_iff h32 count).mp ha.2, hq⟩
  · have hlt := count.toNat_lt
    exact ⟨⟨by omega, by omega⟩, hxs.2⟩
  · have hlt := count.toNat_lt
    refine ⟨fun h => ⟨⟨h.1, ?_⟩, h.2⟩, fun h => ⟨h.1.1, h.2⟩⟩
    rw [h.2]
    exact (ofNat_eq_iff (by omega) count).mpr hxs.1

/-- A list of values that are read one by one. -/
theorem counted {m : Read β} {encβ : β → Bytes} {Q : β → Prop} (hm : Codec m encβ Q) (bound : Nat) :
    Codec (Read.counted bound m) (Write.counted encβ)
      fun xs => Fits bound xs.length ∧ ∀ x ∈ xs, Q x :=
  behindCount (codec_many hm) bound

end Codec

/-- The check of the loops that insist on an order: the previous entry is below the next one. -/
theorem ordered_cons_iff {previous : Option ComponentId} {member : ComponentId}
    {rest : List ComponentId} (hrest : ((some member).toList ++ rest).Pairwise (· < ·)) :
    (previous.toList ++ member :: rest).Pairwise (· < ·) ↔
      ¬ (previous.any fun p => !decide (p < member)) = true := by
  rcases previous with _ | p
  · simpa using hrest
  · have hlater : ∀ m ∈ rest, member < m := (List.pairwise_cons.mp hrest).1
    simp only [Option.toList_some, List.singleton_append, List.pairwise_cons, Option.any_some,
      Bool.not_eq_true', decide_eq_false_iff_not, not_not]
    refine ⟨fun h => h.1 member List.mem_cons_self,
      fun h => ⟨fun m hm => ?_, List.pairwise_cons.mp hrest⟩⟩
    rcases List.mem_cons.mp hm with rfl | hm
    · exact h
    · exact h.trans (hlater m hm)

/-- The loop of `decode_members` takes the lists in strictly increasing order. -/
theorem codec_membersFrom (previous : Option ComponentId) (n : Nat) :
    Codec (decodeMembersFrom previous n) (fun ms => ms.flatMap Write.textId)
      fun ms => ms.length = n ∧ (previous.toList ++ ms).Pairwise (· < ·) := by
  induction n generalizing previous with
  | zero =>
    refine .congr (.pure (v := []) fun ms => ?_) fun ms hms => ?_
    · rw [List.length_eq_zero_iff]
      refine ⟨fun h => h.1, ?_⟩
      rintro rfl
      cases previous <;> simp
    · rw [List.length_eq_zero_iff.mp hms.1]
      rfl
  | succ n ih =>
    have hcons : ∀ ms : List ComponentId, ms.length = n + 1 → ms = ms.headD .nil :: ms.tail := by
      intro ms hms
      cases ms with
      | nil => cases hms
      | cons m ms => rfl
    have hback : ∀ ms : List ComponentId, (previous.toList ++ ms).Pairwise (· < ·) →
        ms.Pairwise (· < ·) := fun ms h => (List.pairwise_append.mp h).2.1
    refine .congr (.field codec_textId (fun ms => ms.headD .nil) fun member =>
      .guard Read.refuse_refuses (fun ms hms => ?_) fun hordered =>
        (ih (some member)).bind List.tail (fun ms hms => ?_) fun rest hrest => .pure fun ms => ?_)
      fun ms hms => ?_
    · obtain ⟨⟨hlength, hpairwise⟩, rfl⟩ := hms
      rw [hcons ms hlength] at hpairwise
      exact (ordered_cons_iff (hback _ hpairwise)).mp hpairwise
    · obtain ⟨⟨hlength, hpairwise⟩, rfl⟩ := hms
      rw [hcons ms hlength] at hpairwise
      exact ⟨by rw [List.length_tail, hlength]; rfl, hback _ hpairwise⟩
    · refine ⟨fun h => ?_, ?_⟩
      · rw [hcons ms h.1.1.1, h.1.2, h.2]
      · rintro rfl
        exact ⟨⟨⟨by rw [List.length_cons, hrest.1],
          (ordered_cons_iff hrest.2).mpr hordered⟩, rfl⟩, rfl⟩
    · rw [hcons ms hms.1]
      simp

/-- A strictly increasing list of members, within a bound. -/
def MembersFit (limits : Limits) (members : List ComponentId) : Prop :=
  Fits limits.maxComponents members.length ∧ members.Pairwise (· < ·)

theorem codec_members (limits : Limits) :
    Codec (decodeMembers limits) encodeMembers (MembersFit limits) :=
  .behindCount (codec_membersFrom none) limits.maxComponents

/-! ## Shared fields -/

/-- A reason whose texts fit. -/
def Reason.FitsIn (limits : Limits) (reason : Reason) : Prop :=
  Fits limits.maxTextBytes reason.subject.length ∧ Fits limits.maxTextBytes reason.detail.length

/-- A list of reasons that fits. -/
def ReasonsFit (limits : Limits) (reasons : List Reason) : Prop :=
  Fits limits.maxReasonsPerDecision reasons.length ∧ ∀ reason ∈ reasons, reason.FitsIn limits

/-- A mask of capabilities there are. -/
def CapabilitySet.Valid (set : CapabilitySet) : Prop := validCapabilityBits set.bits = true

theorem codec_reason (limits : Limits) :
    Codec (decodeReason limits) encodeReason (Reason.FitsIn limits) := by
  refine .congr (.field codec_u16 (fun r : Reason => r.code.value) fun code =>
    (codec_boundedText limits.maxTextBytes).bind Reason.subject (fun r hr => hr.1.1)
      fun subject hsubject =>
    (codec_boundedText limits.maxTextBytes).bind Reason.detail (fun r hr => hr.1.1.2)
      fun detail hdetail => .pure fun r => ?_) fun r _ => ?_
  · obtain ⟨⟨code'⟩, _, _⟩ := r
    simp only [Reason.mk.injEq, ReasonCode.mk.injEq, and_assoc]
    exact and_iff_right_of_imp fun h => by simp only [Reason.FitsIn, h, hsubject, hdetail, and_self]
  · simp [encodeReason]

/-- The reasons as they are, without the cut of `encode_reasons`. -/
theorem codec_reasons (limits : Limits) :
    Codec (decodeReasons limits) (Write.counted encodeReason) (ReasonsFit limits) :=
  .counted (codec_reason limits) limits.maxReasonsPerDecision

theorem codec_capability : Codec decodeCapability encodeCapability CapabilitySet.Valid := by
  refine .congr (.field codec_u32 CapabilitySet.bits fun bits =>
    .guard Read.refuse_refuses (fun s hs => ?_) fun hbits => .pure fun s => ?_)
    fun s _ => List.append_nil _
  · rw [← hs.2, show validCapabilityBits s.bits = true from hs.1]
    decide
  · obtain ⟨bits'⟩ := s
    simp only [CapabilitySet.Valid, CapabilitySet.mk.injEq]
    refine ⟨fun h => h.2, ?_⟩
    rintro rfl
    exact ⟨by simpa using hbits, rfl⟩

/-! ## Epoch state -/

theorem codec_mark : Codec decodeMark encodeMark fun _ => True := by
  refine .congr (.field codec_textId AuthorityGrantMark.partition fun partition =>
    .field codec_textId AuthorityGrantMark.lineage fun lineage =>
    .field codec_counter AuthorityGrantMark.authoritySequence fun authoritySequence =>
    .pure fun mark => ?_) fun mark _ => ?_
  · obtain ⟨⟩ := mark
    simp [and_assoc]
  · simp [encodeMark]

/-- An epoch state whose marks fit. -/
def EpochState.FitsIn (limits : Limits) (state : EpochState) : Prop :=
  Fits limits.maxFenceRecords state.liveGrants.length

theorem codec_epochState (limits : Limits) :
    Codec (readEpochState limits) encodeEpochState (EpochState.FitsIn limits) := by
  refine .congr (.field codec_counter EpochState.epoch fun epoch =>
    .field codec_binaryId EpochState.boot fun boot =>
    .field codec_binaryId EpochState.incarnation fun incarnation =>
    .field codec_counter EpochState.bootSequence fun bootSequence =>
    .field codec_counter EpochState.partitionGeneration fun partitionGeneration =>
    .field codec_counter EpochState.authoritySequence fun authoritySequence =>
    .field codec_counter EpochState.decisionSequence fun decisionSequence =>
    .field codec_counter EpochState.attemptSequence fun attemptSequence =>
    .field codec_counter EpochState.lineageSequence fun lineageSequence =>
    .field codec_counter EpochState.fenceSequence fun fenceSequence =>
    .field codec_u64 EpochState.tick fun tick =>
    (codec_mark.counted limits.maxFenceRecords).bind EpochState.liveGrants (fun state h => ?_)
      fun liveGrants hgrants => .pure fun state => ?_) fun state _ => ?_
  · simp only [and_assoc] at h
    exact ⟨h.1, by simp⟩
  · obtain ⟨⟩ := state
    simp only [EpochState.mk.injEq, and_assoc]
    exact and_iff_right_of_imp fun h => by simp only [EpochState.FitsIn, h, hgrants.1]
  · simp [encodeEpochState]

theorem encodeMark_ne_nil (mark : AuthorityGrantMark) : encodeMark mark ≠ [] := by
  intro h
  have hlast := List.append_eq_nil_iff.mp h
  cases hlast.2

/-- Lists of marks with one image are equal. -/
theorem flatMap_encodeMark_injective : ∀ {ms ns : List AuthorityGrantMark},
    ms.flatMap encodeMark = ns.flatMap encodeMark → ms = ns
  | [], [], _ => rfl
  | [], n :: ns, h =>
    absurd (List.append_eq_nil_iff.mp (List.flatMap_cons ▸ h).symm).1 (encodeMark_ne_nil n)
  | m :: ms, [], h =>
    absurd (List.append_eq_nil_iff.mp (List.flatMap_cons ▸ h)).1 (encodeMark_ne_nil m)
  | m :: ms, n :: ns, h => by
    rw [List.flatMap_cons, List.flatMap_cons] at h
    obtain ⟨rfl, hrest⟩ := codec_mark.cancel trivial trivial h
    rw [flatMap_encodeMark_injective hrest]

/-- **An epoch state is determined by its image**, whether it fits or not. -/
theorem encodeEpochState_injective : Function.Injective encodeEpochState := by
  intro s t h
  simp only [encodeEpochState, List.append_assoc] at h
  obtain ⟨hepoch, h⟩ := codec_counter.cancel trivial trivial h
  obtain ⟨hboot, h⟩ := codec_binaryId.cancel trivial trivial h
  obtain ⟨hincarnation, h⟩ := codec_binaryId.cancel trivial trivial h
  obtain ⟨hbootSequence, h⟩ := codec_counter.cancel trivial trivial h
  obtain ⟨hgeneration, h⟩ := codec_counter.cancel trivial trivial h
  obtain ⟨hauthority, h⟩ := codec_counter.cancel trivial trivial h
  obtain ⟨hdecision, h⟩ := codec_counter.cancel trivial trivial h
  obtain ⟨hattempt, h⟩ := codec_counter.cancel trivial trivial h
  obtain ⟨hlineage, h⟩ := codec_counter.cancel trivial trivial h
  obtain ⟨hfence, h⟩ := codec_counter.cancel trivial trivial h
  obtain ⟨htick, h⟩ := codec_u64.cancel trivial trivial h
  have hmarks := flatMap_encodeMark_injective (codec_u32.cancel trivial trivial h).2
  obtain ⟨⟩ := s
  obtain ⟨⟩ := t
  exact EpochState.mk.injEq .. ▸ ⟨hepoch, hboot, hincarnation, hbootSequence, hgeneration,
    hauthority, hdecision, hattempt, hlineage, hfence, htick, hmarks⟩

/-! ## Policy -/

/-- The loop over the weight table takes the tables in strictly increasing order of component. -/
theorem codec_weightsFrom (previous : Option ComponentId) (n : Nat) :
    Codec (decodeWeightsFrom previous n) (fun ws => ws.flatMap encodeWeight) fun ws =>
      ws.length = n ∧ (previous.toList ++ ws.map ComponentWeight.component).Pairwise (· < ·) := by
  induction n generalizing previous with
  | zero =>
    refine .congr (.pure (v := []) fun ws => ?_) fun ws hws => ?_
    · rw [List.length_eq_zero_iff]
      refine ⟨fun h => h.1, ?_⟩
      rintro rfl
      rcases previous <;> simp
    · rw [List.length_eq_zero_iff.mp hws.1]
      rfl
  | succ n ih =>
    have hcons : ∀ ws : List ComponentWeight, ws.length = n + 1 →
        ws = ws.headD ⟨.nil, 0, false⟩ :: ws.tail := by
      intro ws hws
      rcases ws with _ | ⟨w, ws⟩
      · cases hws
      · rfl
    have hback : ∀ ms : List ComponentId, (previous.toList ++ ms).Pairwise (· < ·) →
        ms.Pairwise (· < ·) := fun ms h => (List.pairwise_append.mp h).2.1
    refine .congr (.field codec_textId
        (fun ws : List ComponentWeight => (ws.headD ⟨.nil, 0, false⟩).component) fun component =>
      .field codec_u64 (fun ws => (ws.headD ⟨.nil, 0, false⟩).weight) fun weight =>
      .field codec_boolean (fun ws => (ws.headD ⟨.nil, 0, false⟩).voter) fun voter =>
      .guard Read.refuse_refuses (fun ws hws => ?_) fun hordered =>
        (ih (some component)).bind List.tail (fun ws hws => ?_) fun rest hrest =>
          .pure fun ws => ?_)
      fun ws hws => ?_
    · obtain ⟨⟨⟨⟨hlength, hpairwise⟩, rfl⟩, -⟩, -⟩ := hws
      rw [hcons ws hlength, List.map_cons] at hpairwise
      exact (ordered_cons_iff (hback _ hpairwise)).mp hpairwise
    · obtain ⟨⟨⟨⟨hlength, hpairwise⟩, rfl⟩, -⟩, -⟩ := hws
      rw [hcons ws hlength, List.map_cons] at hpairwise
      exact ⟨by rw [List.length_tail, hlength]; rfl, hback _ hpairwise⟩
    · refine ⟨fun h => ?_, ?_⟩
      · obtain ⟨⟨⟨⟨⟨hlength, -⟩, hcomponent⟩, hweight⟩, hvoter⟩, htail⟩ := h
        rw [hcons ws hlength, htail, ← hcomponent, ← hweight, ← hvoter]
      · rintro rfl
        exact ⟨⟨⟨⟨⟨by rw [List.length_cons, hrest.1],
          (ordered_cons_iff hrest.2).mpr hordered⟩, rfl⟩, rfl⟩, rfl⟩, rfl⟩
    · rw [hcons ws hws.1]
      simp [encodeWeight]

theorem codec_quorum : Codec decodeQuorum encodeQuorum fun _ => True := by
  refine .congr (.field codec_u32 QuorumRequirement.minComponents fun minComponents =>
    .field codec_u32 QuorumRequirement.minVoters fun minVoters =>
    .field codec_u64 QuorumRequirement.minWeight fun minWeight =>
    .field codec_u64 QuorumRequirement.domainWeight fun domainWeight =>
    .field codec_boolean QuorumRequirement.requireStrictMajority fun requireStrictMajority =>
    .pure fun quorum => ?_) fun quorum _ => ?_
  · obtain ⟨⟩ := quorum
    simp [and_assoc]
  · simp [encodeQuorum]

/-- A policy that fits. -/
structure PartitionPolicy.FitsIn (limits : Limits) (policy : PartitionPolicy) : Prop where
  schema : policy.schemaVersion = policySchemaVersion
  weights : Fits limits.maxComponents policy.weights.length
  ordered : (policy.weights.map ComponentWeight.component).Pairwise (· < ·)
  degraded : policy.degradedCapabilities.Valid
  readonly : policy.readonlyCapabilities.Valid

theorem codec_policy (limits : Limits) :
    Codec (readPolicy limits) encodePolicy (PartitionPolicy.FitsIn limits) := by
  refine .congr (.field codec_textId PartitionPolicy.id fun id =>
    .field codec_counter PartitionPolicy.generation fun generation =>
    .field codec_u16 PartitionPolicy.schemaVersion fun schemaVersion =>
    .guard Read.refuse_refuses (fun p hp => ?_) fun hschema =>
    .countedField (codec_weightsFrom none) limits.maxComponents PartitionPolicy.weights
      (fun p hp => ?_) fun weights hweights =>
    .field codec_quorum PartitionPolicy.fullAuthority fun fullAuthority =>
    .field codec_quorum PartitionPolicy.degradedAuthority fun degradedAuthority =>
    codec_capability.bind PartitionPolicy.degradedCapabilities (fun p hp => ?_)
      fun degradedCapabilities hdegraded =>
    codec_capability.bind PartitionPolicy.readonlyCapabilities (fun p hp => ?_)
      fun readonlyCapabilities hreadonly =>
    .field codec_u64 PartitionPolicy.maxEvidenceAgeTicks fun maxEvidenceAgeTicks =>
    .field codec_boolean PartitionPolicy.requireSymmetricReachability
      fun requireSymmetricReachability =>
    .field codec_boolean PartitionPolicy.requireConfirmedPartitionForWrite
      fun requireConfirmedPartitionForWrite =>
    .field codec_boolean PartitionPolicy.requireConfirmedPartitionForRead
      fun requireConfirmedPartitionForRead =>
    .field codec_boolean PartitionPolicy.allowMultipleAuthoritativePartitions
      fun allowMultipleAuthoritativePartitions =>
    .field codec_boolean PartitionPolicy.unknownEvidenceDowngrades fun unknownEvidenceDowngrades =>
    .pure fun p => ?_) fun p _ => ?_
  · rw [← hp.2]
    exact not_not.mpr hp.1.1.1.schema
  · simp only [and_assoc] at hp
    exact ⟨hp.1.weights, hp.1.ordered⟩
  · simp only [and_assoc] at hp
    exact hp.1.degraded
  · simp only [and_assoc] at hp
    exact hp.1.readonly
  · obtain ⟨⟩ := p
    simp only [PartitionPolicy.mk.injEq, and_assoc]
    refine and_iff_right_of_imp fun h => ⟨?_, ?_, ?_, ?_, ?_⟩
    · simp only [h]
      exact not_not.mp hschema
    · simp only [h, hweights.1]
    · simp only [h]
      exact hweights.2
    · simp only [h, hdegraded]
    · simp only [h, hreadonly]
  · simp [encodePolicy, Write.counted]

/-! ## Topology -/

/-- A topology whose components fit. -/
def TopologyDefinition.FitsIn (limits : Limits) (definition : TopologyDefinition) : Prop :=
  MembersFit limits definition.components

theorem codec_topology (limits : Limits) :
    Codec (readTopology limits) encodeTopology (TopologyDefinition.FitsIn limits) := by
  refine .congr (.field codec_textId TopologyDefinition.id fun id =>
    .field codec_counter TopologyDefinition.generation fun generation =>
    .field codec_textId TopologyDefinition.provenance fun provenance =>
    (codec_members limits).bind TopologyDefinition.components (fun d hd => hd.1.1.1)
      fun components hcomponents => .pure fun d => ?_) fun d _ => ?_
  · obtain ⟨⟩ := d
    simp only [TopologyDefinition.mk.injEq, and_assoc]
    exact and_iff_right_of_imp fun h => by simp only [TopologyDefinition.FitsIn, h, hcomponents]
  · simp [encodeTopology]

/-! ## Lineage records -/

/-- The fields of a lineage record. -/
theorem codec_lineage (limits : Limits) : Codec (readLineage limits) encodeLineage
    fun record => MembersFit limits record.members := by
  refine .congr (.field codec_counter LineageRecord.sequence fun sequence =>
    .field codec_textId LineageRecord.lineage fun lineage =>
    .field codec_counter LineageRecord.generation fun generation =>
    .field codec_digest LineageRecord.membership fun membership =>
    (codec_members limits).bind LineageRecord.members (fun r hr => hr.1.1.1.1)
      fun members hmembers =>
    .enumerator LineageEventKind.code_domain LineageRecord.event fun event =>
    .field codec_textId LineageRecord.parentLeft fun parentLeft =>
    .field codec_textId LineageRecord.parentRight fun parentRight =>
    .field codec_counter LineageRecord.epoch fun epoch =>
    .field codec_binaryId LineageRecord.boot fun boot =>
    .field codec_textId LineageRecord.decision fun decision =>
    .field codec_u64 LineageRecord.tick fun tick =>
    .field codec_digest LineageRecord.digest fun digest => .pure fun r => ?_) fun r _ => ?_
  · obtain ⟨⟩ := r
    simp only [LineageRecord.mk.injEq, and_assoc]
    exact and_iff_right_of_imp fun h => by simp only [h, hmembers]
  · simp [encodeLineage]

theorem Domain.injective {E : Type} {code : E → UInt8} {ofCode : UInt8 → Option E}
    (h : Domain code ofCode) : Function.Injective code := fun a b hab =>
  Option.some.inj (((h (code b) a).mpr hab).symm.trans ((h (code b) b).mpr rfl))

theorem length_le_encodeLineage (record : LineageRecord) :
    (record.members.flatMap Write.textId).length ≤ (encodeLineage record).length := by
  rw [encodeLineage, encodeMembers, Write.counted]
  simp only [List.length_append]
  omega

theorem length_members_le (record : LineageRecord) :
    record.members.length ≤ (encodeLineage record).length := by
  have hmember : ∀ c ∈ record.members, 1 ≤ (Write.textId c).length := by
    intro c _
    rw [Write.length_textId]
    omega
  have hmembers := le_length_flatMap hmember
  rw [Nat.mul_one] at hmembers
  exact hmembers.trans (length_le_encodeLineage record)

/-- **A lineage record is determined by its image**, if its length field is exact. -/
theorem encodeLineage_injective_of_length {a b : LineageRecord}
    (hlength : (encodeLineage a).length < 2 ^ 32) (h : encodeLineage a = encodeLineage b) : a = b := by
  have ha : a.members.length < 2 ^ 32 := (length_members_le a).trans_lt hlength
  have hb : b.members.length < 2 ^ 32 := (length_members_le b).trans_lt (h ▸ hlength)
  have hmembers : Codec _ (Write.counted (Write.textId : ComponentId → Bytes)) _ :=
    codec_textId.counted (2 ^ 32)
  simp only [encodeLineage, encodeMembers, List.append_assoc] at h
  obtain ⟨hsequence, h⟩ := codec_counter.cancel trivial trivial h
  obtain ⟨hlineage, h⟩ := codec_textId.cancel trivial trivial h
  obtain ⟨hgeneration, h⟩ := codec_counter.cancel trivial trivial h
  obtain ⟨hmembership, h⟩ := codec_digest.cancel trivial trivial h
  obtain ⟨hlisted, h⟩ := hmembers.cancel ⟨⟨ha.le, ha⟩, fun _ _ => trivial⟩
    ⟨⟨hb.le, hb⟩, fun _ _ => trivial⟩ h
  obtain ⟨hevent, h⟩ := codec_u8.cancel trivial trivial h
  obtain ⟨hleft, h⟩ := codec_textId.cancel trivial trivial h
  obtain ⟨hright, h⟩ := codec_textId.cancel trivial trivial h
  obtain ⟨hepoch, h⟩ := codec_counter.cancel trivial trivial h
  obtain ⟨hboot, h⟩ := codec_binaryId.cancel trivial trivial h
  obtain ⟨hdecision, h⟩ := codec_textId.cancel trivial trivial h
  obtain ⟨htick, h⟩ := codec_u64.cancel trivial trivial h
  have hdigest := (codec_digest.cancel trivial trivial
    (congrArg (· ++ []) h : Write.digest a.digest ++ [] = Write.digest b.digest ++ [])).1
  obtain ⟨⟩ := a
  obtain ⟨⟩ := b
  exact LineageRecord.mk.injEq .. ▸ ⟨hsequence, hlineage, hgeneration, hmembership, hlisted,
    LineageEventKind.code_domain.injective hevent, hleft, hright, hepoch, hboot, hdecision, htick,
    hdigest⟩

/-- A lineage record that fits: its members do, and its digests are those of its fields. -/
structure LineageRecord.FitsIn (limits : Limits) (record : LineageRecord) : Prop where
  members : MembersFit limits record.members
  membership : computeMembershipDigest record.members = record.membership
  digest : computeLineageDigest record = record.digest

/-- `decode_lineage` is exact. -/
theorem decodeLineage_iff (limits : Limits) (payload : Bytes) (record : LineageRecord) :
    decodeLineage payload limits = some record ↔
      record.FitsIn limits ∧ payload = encodeLineage record := by
  have hchecks : decodeLineage payload limits = some record ↔
      (Read.whole (readLineage limits)).run payload = some record ∧
        computeMembershipDigest record.members = record.membership ∧
        computeLineageDigest record = record.digest := by
    rw [decodeLineage]
    rcases (Read.whole (readLineage limits)).run payload with _ | r
    · simp
    · dsimp only
      split
      · rename_i hmembership
        refine ⟨nofun, ?_⟩
        rintro ⟨hr, h, -⟩
        exact absurd (Option.some.inj hr ▸ h) hmembership
      split
      · rename_i hdigest
        refine ⟨nofun, ?_⟩
        rintro ⟨hr, -, h⟩
        exact absurd (Option.some.inj hr ▸ h) hdigest
      · rename_i hmembership hdigest
        refine ⟨fun h => ⟨h, ?_⟩, fun h => h.1⟩
        rw [← Option.some.inj h]
        exact ⟨not_not.mp hmembership, not_not.mp hdigest⟩
  rw [hchecks, (codec_lineage limits).whole_iff]
  exact ⟨fun ⟨⟨hmembers, hpayload⟩, hmembership, hdigest⟩ =>
      ⟨⟨hmembers, hmembership, hdigest⟩, hpayload⟩,
    fun ⟨h, hpayload⟩ => ⟨⟨h.members, hpayload⟩, h.membership, h.digest⟩⟩

/-! ## Decisions -/

/-- The image of an authority vector, with its reasons as they are. -/
def plainAuthority (authority : AuthorityVector) : Bytes :=
  Write.u8 authority.authorityClass.code ++ Write.u8 authority.basis.code
    ++ Write.u8 authority.applicationState.code ++ encodeCapability authority.observed
    ++ encodeCapability authority.eligible ++ encodeCapability authority.recommended
    ++ encodeCapability authority.authorized ++ encodeCapability authority.withheld
    ++ encodeCapability authority.denied ++ Write.boolean authority.revocable
    ++ Write.counted encodeReason authority.reasons

/-- An authority vector that fits. -/
structure AuthorityVector.FitsIn (limits : Limits) (authority : AuthorityVector) : Prop where
  observed : authority.observed.Valid
  eligible : authority.eligible.Valid
  recommended : authority.recommended.Valid
  authorized : authority.authorized.Valid
  withheld : authority.withheld.Valid
  denied : authority.denied.Valid
  reasons : ReasonsFit limits authority.reasons

theorem codec_authority (limits : Limits) :
    Codec (decodeAuthority limits) plainAuthority (AuthorityVector.FitsIn limits) := by
  refine .congr (.field codec_u8 (fun a : AuthorityVector => a.authorityClass.code) fun classCode =>
    .field codec_u8 (fun a => a.basis.code) fun basisCode =>
    .field codec_u8 (fun a => a.applicationState.code) fun stateCode =>
    (Codec.expect PartitionAuthorityClass.code_domain classCode).bind AuthorityVector.authorityClass
      (fun a ha => ha.1.1.2) fun authorityClass hclass =>
    (Codec.expect AuthorityBasis.code_domain basisCode).bind AuthorityVector.basis
      (fun a ha => ha.1.1.2) fun basis hbasis =>
    (Codec.expect AuthorityApplicationState.code_domain stateCode).bind
      AuthorityVector.applicationState (fun a ha => ha.1.1.2) fun applicationState hstate =>
    codec_capability.bind AuthorityVector.observed (fun a ha => ?_) fun observed hobserved =>
    codec_capability.bind AuthorityVector.eligible (fun a ha => ?_) fun eligible heligible =>
    codec_capability.bind AuthorityVector.recommended (fun a ha => ?_)
      fun recommended hrecommended =>
    codec_capability.bind AuthorityVector.authorized (fun a ha => ?_) fun authorized hauthorized =>
    codec_capability.bind AuthorityVector.withheld (fun a ha => ?_) fun withheld hwithheld =>
    codec_capability.bind AuthorityVector.denied (fun a ha => ?_) fun denied hdenied =>
    .field codec_boolean AuthorityVector.revocable fun revocable =>
    (codec_reasons limits).bind AuthorityVector.reasons (fun a ha => ?_) fun reasons hreasons =>
    .pure fun a => ?_) fun a _ => ?_
  · simp only [and_assoc] at ha
    exact ha.1.observed
  · simp only [and_assoc] at ha
    exact ha.1.eligible
  · simp only [and_assoc] at ha
    exact ha.1.recommended
  · simp only [and_assoc] at ha
    exact ha.1.authorized
  · simp only [and_assoc] at ha
    exact ha.1.withheld
  · simp only [and_assoc] at ha
    exact ha.1.denied
  · simp only [and_assoc] at ha
    exact ha.1.reasons
  · obtain ⟨⟩ := a
    simp only [AuthorityVector.mk.injEq, and_assoc]
    refine ⟨fun ⟨_, _, _, _, h⟩ => h, fun h => ⟨?_, ?_, ?_, ?_, h⟩⟩
    · simp only [h]
      exact ⟨hobserved, heligible, hrecommended, hauthorized, hwithheld, hdenied, hreasons⟩
    · rw [h.1, hclass]
    · rw [h.2.1, hbasis]
    · rw [h.2.2.1, hstate]
  · simp [plainAuthority]

theorem codec_bindings : Codec readBindings encodeBindings fun _ => True := by
  refine .congr (.field codec_counter DecisionBindings.epoch fun epoch =>
    .field codec_binaryId DecisionBindings.boot fun boot =>
    .field codec_binaryId DecisionBindings.incarnation fun incarnation =>
    .field codec_counter DecisionBindings.topologyGeneration fun topologyGeneration =>
    .field codec_digest DecisionBindings.topologyDigest fun topologyDigest =>
    .field codec_counter DecisionBindings.reachabilityGeneration fun reachabilityGeneration =>
    .field codec_digest DecisionBindings.evidenceDigest fun evidenceDigest =>
    .field codec_counter DecisionBindings.policyGeneration fun policyGeneration =>
    .field codec_counter DecisionBindings.partitionGeneration fun partitionGeneration =>
    .field codec_counter DecisionBindings.authoritySequence fun authoritySequence =>
    .field codec_counter DecisionBindings.decisionSequence fun decisionSequence =>
    .field codec_textId DecisionBindings.attempt fun attempt =>
    .field codec_u64 DecisionBindings.evaluatedAtTick fun evaluatedAtTick =>
    .pure fun b => ?_) fun b _ => ?_
  · obtain ⟨⟩ := b
    simp [and_assoc]
  · simp [encodeBindings]

theorem codec_trigger : Codec decodeTrigger encodeTrigger fun _ => True := by
  refine .congr (.field codec_u16 ReasonCode.value fun value => .pure fun code => ?_)
    fun code _ => List.append_nil _
  obtain ⟨⟩ := code
  simp

/-- The image of a decision, with its reasons as they are. -/
def plainDecision (decision : Decision) : Bytes :=
  Write.textId decision.id ++ Write.u8 decision.kind.code ++ Write.u8 decision.verdict.code
    ++ Write.u8 decision.scope.kind.code ++ Write.uncheckedId decision.scope.id
    ++ encodeBindings decision.bindings ++ Write.counted Write.textId decision.subjects
    ++ plainAuthority decision.authority ++ Write.counted Write.textId decision.fencesIssued
    ++ Write.counted Write.textId decision.fencedPartitions
    ++ Write.counted encodeTrigger decision.revocationTriggers ++ Write.boolean decision.revocable
    ++ Write.counted encodeReason decision.reasons

/-- The decision `encode_decision` writes: its reasons, and those of its authority, are cut to the
default bound. -/
def Decision.cut (decision : Decision) : Decision :=
  { decision with
    authority := { decision.authority with
      reasons := decision.authority.reasons.take defaultLimits.maxReasonsPerDecision }
    reasons := decision.reasons.take defaultLimits.maxReasonsPerDecision }

theorem encodeDecision_eq (decision : Decision) :
    encodeDecision decision = plainDecision decision.cut := rfl

/-- A decision that fits. -/
structure Decision.FitsIn (limits : Limits) (decision : Decision) : Prop where
  scope : decision.scope.id.Readable
  subjects : Fits limits.maxPartitions decision.subjects.length
  authority : decision.authority.FitsIn limits
  fencesIssued : Fits limits.maxFenceRecords decision.fencesIssued.length
  fencedPartitions : Fits limits.maxPartitions decision.fencedPartitions.length
  revocationTriggers : Fits limits.maxReasonsPerDecision decision.revocationTriggers.length
  reasons : ReasonsFit limits decision.reasons

theorem codec_decision (limits : Limits) :
    Codec (readDecision limits) plainDecision (Decision.FitsIn limits) := by
  refine .congr (.field codec_textId Decision.id fun id =>
    .field codec_u8 (fun d => d.kind.code) fun kindCode =>
    .field codec_u8 (fun d => d.verdict.code) fun verdictCode =>
    .field codec_u8 (fun d => d.scope.kind.code) fun scopeCode =>
    codec_uncheckedId.bind (fun d => d.scope.id) (fun d hd => ?_) fun scopeId hscope =>
    (Codec.expect DecisionKind.code_domain kindCode).bind Decision.kind
      (fun d hd => hd.1.1.1.2) fun kind hkind =>
    (Codec.expect DecisionVerdict.code_domain verdictCode).bind Decision.verdict
      (fun d hd => hd.1.1.1.2) fun verdict hverdict =>
    (Codec.expect ScopeKind.code_domain scopeCode).bind (fun d => d.scope.kind)
      (fun d hd => hd.1.1.1.2) fun scopeKind hscopeKind =>
    .field codec_bindings Decision.bindings fun bindings =>
    (codec_textId.counted limits.maxPartitions).bind Decision.subjects (fun d hd => ?_)
      fun subjects hsubjects =>
    (codec_authority limits).bind Decision.authority (fun d hd => ?_) fun authority hauthority =>
    (codec_textId.counted limits.maxFenceRecords).bind Decision.fencesIssued (fun d hd => ?_)
      fun fencesIssued hfences =>
    (codec_textId.counted limits.maxPartitions).bind Decision.fencedPartitions (fun d hd => ?_)
      fun fencedPartitions hfenced =>
    (codec_trigger.counted limits.maxReasonsPerDecision).bind Decision.revocationTriggers
      (fun d hd => ?_) fun revocationTriggers htriggers =>
    .field codec_boolean Decision.revocable fun revocable =>
    (codec_reasons limits).bind Decision.reasons (fun d hd => ?_) fun reasons hreasons =>
    .pure fun d => ?_) fun d _ => ?_
  · simp only [and_assoc] at hd
    exact hd.1.scope
  · simp only [and_assoc] at hd
    exact ⟨hd.1.subjects, fun _ _ => trivial⟩
  · simp only [and_assoc] at hd
    exact hd.1.authority
  · simp only [and_assoc] at hd
    exact ⟨hd.1.fencesIssued, fun _ _ => trivial⟩
  · simp only [and_assoc] at hd
    exact ⟨hd.1.fencedPartitions, fun _ _ => trivial⟩
  · simp only [and_assoc] at hd
    exact ⟨hd.1.revocationTriggers, fun _ _ => trivial⟩
  · simp only [and_assoc] at hd
    exact hd.1.reasons
  · obtain ⟨_, _, _, ⟨_, _⟩, _, _, _, _, _, _, _, _⟩ := d
    simp only [Decision.mk.injEq, Scope.mk.injEq, and_assoc]
    refine ⟨fun ⟨_, hid, _, _, _, hscopeId, hk, hv, hs, h⟩ => ⟨hid, hk, hv, hs, hscopeId, h⟩,
      fun ⟨hid, hk, hv, hs, hscopeId, h⟩ => ⟨?_, hid, ?_, ?_, ?_, hscopeId, hk, hv, hs, h⟩⟩
    · simp only [h, hscopeId]
      exact ⟨hscope, hsubjects.1, hauthority, hfences.1, hfenced.1, htriggers.1, hreasons⟩
    · rw [hk, hkind]
    · rw [hv, hverdict]
    · rw [hs, hscopeKind]
  · simp [plainDecision]

/-- `decode_decision` is exact, on the images with uncut reasons. -/
theorem decodeDecision_iff (limits : Limits) (payload : Bytes) (decision : Decision) :
    decodeDecision payload limits = some decision ↔
      decision.FitsIn limits ∧ payload = plainDecision decision :=
  (codec_decision limits).whole_iff payload decision

/-! ## Fences -/

theorem codec_fence : Codec readFence encodeFence fun fence => fence.scope.id.Readable := by
  refine .congr (.field codec_textId FenceRecord.id fun id =>
    .field codec_counter FenceRecord.sequence fun sequence =>
    .enumerator ScopeKind.code_domain (fun f => f.scope.kind) fun scopeKind =>
    codec_uncheckedId.bind (fun f => f.scope.id) (fun f hf => hf.1.1.1) fun scopeId hscope =>
    .field codec_textId FenceRecord.partition fun partition =>
    .field codec_counter FenceRecord.fencedAuthoritySequence fun fencedAuthoritySequence =>
    .field codec_counter FenceRecord.fencedEpoch fun fencedEpoch =>
    .field codec_binaryId FenceRecord.fencedBoot fun fencedBoot =>
    .field codec_counter FenceRecord.issuingEpoch fun issuingEpoch =>
    .field codec_binaryId FenceRecord.issuingBoot fun issuingBoot =>
    .field codec_u64 FenceRecord.tick fun tick =>
    .field codec_u16 (fun f : FenceRecord => f.cause.value) fun cause => .pure fun f => ?_)
    fun f _ => ?_
  · obtain ⟨_, _, ⟨_, _⟩, _, _, _, _, _, _, _, ⟨_⟩⟩ := f
    simp only [FenceRecord.mk.injEq, Scope.mk.injEq, ReasonCode.mk.injEq, and_assoc]
    exact and_iff_right_of_imp fun h => by simp only [h, hscope]
  · simp [encodeFence]

end FabricPartition
