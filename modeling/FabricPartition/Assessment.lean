import FabricPartition.Runtime

/-!
# Assessing the fabric

`evaluate_authority` and `assess_locked` of `runtime.cpp`: resolve the evidence, build the
partitions, give each the class its quorum and every applicable cap allow, issue the authority
sequences, commit the lineage and the epoch watermark, and publish.

The loops over the partition list — the classes, the split-brain demotion, the sequences, the lineage
records — are structural recursions over that list, with the accumulators the source keeps.
-/

set_option autoImplicit false

namespace FabricPartition

namespace PartitionRuntime

/-! ## Authority evaluation -/

/-- `requirement_detail`. -/
def requirementDetail (requirement : QuorumRequirement) (components voters : UInt32)
    (weight : UInt64) : Text :=
  ascii "components=" ++ decimal components.toNat ++ ascii "/"
    ++ decimal requirement.minComponents.toNat ++ ascii " voters=" ++ decimal voters.toNat
    ++ ascii "/" ++ decimal requirement.minVoters.toNat ++ ascii " weight="
    ++ decimal weight.toNat ++ ascii "/" ++ decimal requirement.minWeight.toNat
    ++ if requirement.requireStrictMajority then
        ascii " strict-majority-of=" ++ decimal requirement.domainWeight.toNat
      else []

/-- The class a partition is heading for, why, and the reasons so far. -/
structure ClassEvaluation where
  quorumClass : PartitionAuthorityClass := .unassigned
  finalClass : PartitionAuthorityClass := .unassigned
  basis : AuthorityBasis := .none
  reasons : List Reason := []

/-- A cap: weaken the class, record the basis and the reason. -/
def ClassEvaluation.cap (e : ClassEvaluation) (limits : Limits) (cls : PartitionAuthorityClass)
    (basis : AuthorityBasis) (code : ReasonCode) (subject : Text) (detail : String) :
    ClassEvaluation :=
  { e with
    finalClass := e.finalClass.weaker cls
    basis := basis
    reasons := appendReason e.reasons code subject (ascii detail) limits }

/-- The quorum step of `evaluate_authority`. -/
def quorumEvaluation (r : PartitionRuntime) (p : Partition) (reasons : List Reason) :
    ClassEvaluation :=
  let members := UInt32.ofNat (min p.members.length 0xFFFFFFFF)
  let full := r.policy.fullAuthority
  let degraded := r.policy.degradedAuthority
  if full.satisfiedBy members p.voterCount p.totalWeight then
    { quorumClass := .primary
      finalClass := .primary
      basis := .quorumSatisfied
      reasons := appendReason reasons .authorityQuorumSatisfied p.id.text
        (requirementDetail full members p.voterCount p.totalWeight) r.limits }
  else if degraded.satisfiedBy members p.voterCount p.totalWeight then
    { quorumClass := .degraded
      finalClass := .degraded
      basis := .policyDegradation
      reasons := appendReason reasons .authorityDegraded p.id.text
        (requirementDetail full members p.voterCount p.totalWeight) r.limits }
  else
    { quorumClass := .isolated
      finalClass := .isolated
      basis := .quorumNotSatisfied
      reasons := appendReason reasons .authorityIsolated p.id.text
        (requirementDetail degraded members p.voterCount p.totalWeight) r.limits }

/-- The caps an unconfirmed decomposition puts on a class. -/
def unconfirmedCaps (r : PartitionRuntime) (p : Partition) (e : ClassEvaluation) :
    ClassEvaluation :=
  let e := if r.policy.unknownEvidenceDowngrades then
      e.cap r.limits .degraded .unknownEvidence .authorityDowngradedUnknownEvidence p.id.text
        ("the component decomposition is not confirmed: unknown connectivity could still merge "
          ++ "components")
    else e
  let e := if r.policy.requireConfirmedPartitionForWrite then
      e.cap r.limits .readOnly .partialPartition .authorityDowngradedPartialPartition p.id.text
        "write authority requires a confirmed component decomposition"
    else e
  if r.policy.requireConfirmedPartitionForRead then
    e.cap r.limits .observeOnly .partialPartition .authorityDowngradedPartialPartition p.id.text
      "read authority requires a confirmed component decomposition"
  else e

/-- Does an interruption stand against the lineage? -/
def isInterrupted (r : PartitionRuntime) (lineage : LineageId) : Bool :=
  r.interrupted.any fun entry => entry.lineage == lineage

/-- The first loop of `evaluate_authority`, for one partition. -/
def evaluatePartition (r : PartitionRuntime) (allowRestore : Bool) (p : Partition)
    (reasons : List Reason) : ClassEvaluation :=
  let e := r.quorumEvaluation p reasons
  let e := if p.pendingMergeParents ≠ [] then
      e.cap r.limits .observeOnly .partialPartition .mergeRejectedLineageConflict p.id.text
        ("the component set spans multiple live lineages; authority is withheld until the merge is "
          ++ "decided")
    else e
  let e := if !r.snapshot.anyEvidenceFresh then
      e.cap r.limits .observeOnly .unknownEvidence .authorityDowngradedUnknownEvidence p.id.text
        "no fresh reachability evidence exists; only observation is permitted"
    else e
  let e := if !r.snapshot.confirmed then r.unconfirmedCaps p e else e
  let e := if r.isIsolated p.lineage then
      { e with
        finalClass := .isolated
        basis := .explicitIsolation
        reasons := appendReason e.reasons .authorityIsolated p.id.text
          (ascii "an explicit isolation directive applies to this lineage") r.limits }
    else e
  if r.isInterrupted p.lineage && !allowRestore then
    e.cap r.limits .observeOnly .restartInterrupted .authorityInterruptedByRestart p.id.text
      "authority held before the last restart is interrupted until it is revalidated"
  else e

/-- The first loop over all partitions; the reasons accumulate across it. -/
def evaluatePartitions (r : PartitionRuntime) (allowRestore : Bool) :
    List Partition → List Reason → List (Partition × ClassEvaluation) × List Reason
  | [], reasons => ([], reasons)
  | p :: rest, reasons =>
    let e := r.evaluatePartition allowRestore p reasons
    let (others, reasons) := r.evaluatePartitions allowRestore rest e.reasons
    ((p, e) :: others, reasons)

/-- The split-brain loop: every primary becomes observe-only. -/
def demotePrimaries (limits : Limits) (primaryCount : Nat) :
    List (Partition × ClassEvaluation) → List Reason →
      List (Partition × ClassEvaluation) × List Reason
  | [], reasons => ([], reasons)
  | (p, e) :: rest, reasons =>
    if e.finalClass ≠ .primary then
      let (others, reasons) := demotePrimaries limits primaryCount rest reasons
      ((p, e) :: others, reasons)
    else
      let reasons := appendReason reasons .authoritySplitBrainConflict p.id.text
        (decimal primaryCount
          ++ ascii " partitions independently satisfy the full authority quorum") limits
      let (others, reasons) := demotePrimaries limits primaryCount rest reasons
      ((p, { e with finalClass := .observeOnly, basis := .splitBrainConflict }) :: others, reasons)

/-- The vector of one partition before its sequence is issued. -/
def grantVector (r : PartitionRuntime) (e : ClassEvaluation) : AuthorityVector :=
  let eligible := capabilitiesForClass r.policy e.quorumClass
  let authorized := capabilitiesForClass r.policy e.finalClass
  { authorizedAuthority e.finalClass e.basis .all eligible authorized [] with
    revocable := !authorized.empty }

/-- The issuing loop of `evaluate_authority`: each non-empty grant gets the next authority
sequence. -/
def issueAuthority (r : PartitionRuntime) : List (Partition × ClassEvaluation) →
    AuthoritySequence → List Reason → List Partition × AuthoritySequence × List Reason
  | [], sequence, reasons => ([], sequence, reasons)
  | (p, e) :: rest, sequence, reasons =>
    let vector := r.grantVector e
    let p := { p with authoritative := p.authoritative || decide (e.finalClass = PartitionAuthorityClass.primary) }
    if vector.authorized.empty then
      let p := { p with
        authority := { vector with applicationState := .notApplicable }
        authoritySequence := .zero }
      let (others, sequence, reasons) := r.issueAuthority rest sequence reasons
      (p :: others, sequence, reasons)
    else
      match sequence.next with
      | none =>
        let p := { p with
          authority := { vector with authorized := .none, applicationState := .notApplicable }
          authoritySequence := .zero }
        let reasons := appendReason reasons .arithmeticRefused p.id.text
          (ascii "the authority sequence is exhausted; authority was withheld") r.limits
        let (others, sequence, reasons) := r.issueAuthority rest sequence reasons
        (p :: others, sequence, reasons)
      | some next =>
        let p := { p with
          authority := { vector with applicationState := .authorizationIssued }
          authoritySequence := next }
        let (others, sequence, reasons) := r.issueAuthority rest next reasons
        (p :: others, sequence, reasons)

/-- `AuthorityEvaluation`, with what the evaluation wrote into its arguments. -/
structure AuthorityEvaluation where
  verdict : DecisionVerdict := .denied
  authoritative : PartitionId := .nil
  splitBrain : Bool := false
  partitions : List Partition := []
  authoritySequence : AuthoritySequence
  reasons : List Reason := []

/-- The verdict the final classes amount to. -/
def classVerdict (splitBrain : Bool) (classes : List PartitionAuthorityClass) : DecisionVerdict :=
  if splitBrain then .conflict
  else if classes.contains .primary then .granted
  else if classes.contains .degraded || classes.contains .readOnly then .degraded
  else if classes.all fun c => c == .isolated || c == .unassigned then .isolated
  else .denied

/-- `evaluate_authority`. -/
def evaluateAuthority (r : PartitionRuntime) (partitions : List Partition) (allowRestore : Bool) :
    AuthorityEvaluation :=
  let (evaluated, reasons) := r.evaluatePartitions allowRestore partitions []
  let primaryCount := evaluated.countP fun pe => pe.2.finalClass == .primary
  let splitBrain := decide (primaryCount > 1) && !r.policy.allowMultipleAuthoritativePartitions
  let (evaluated, reasons) :=
    if splitBrain then demotePrimaries r.limits primaryCount evaluated reasons
    else (evaluated, reasons)
  let (partitions, sequence, reasons) :=
    r.issueAuthority evaluated r.state.authoritySequence reasons
  { verdict := classVerdict splitBrain (evaluated.map fun pe => pe.2.finalClass)
    authoritative :=
      ((evaluated.filter fun pe => pe.2.finalClass == PartitionAuthorityClass.primary).getLast?.map
        fun pe => pe.1.id).getD .nil
    splitBrain := splitBrain
    partitions := partitions
    authoritySequence := sequence
    reasons := reasons }

/-! ## Assessment -/

/-- The lineage record an assessment commits for a partition. -/
def assessmentRecord (r : PartitionRuntime) (decision : DecisionId) (sequence : LineageSequence)
    (p : Partition) : LineageRecord :=
  let record : LineageRecord :=
    { sequence := sequence
      lineage := p.lineage
      generation := p.generation
      membership := p.membership
      members := p.members
      event := if p.parentLineage.isNil then .genesis else .split
      parentLeft := p.parentLineage
      epoch := r.state.epoch
      boot := r.state.boot
      decision := decision
      tick := r.state.tick }
  { record with digest := computeLineageDigest record }

/-- A partition with one more reason. -/
def explainPartition (r : PartitionRuntime) (p : Partition) (code : ReasonCode) (detail : String) :
    Partition :=
  { p with reasons := appendReason p.reasons code p.id.text (ascii detail) r.limits }

/-- The lineage commit loop of `assess_locked`, for one partition. -/
def commitLineage (decision : DecisionId) (p : Partition) (r : PartitionRuntime) :
    Partition × PartitionRuntime :=
  if !r.snapshot.anyEvidenceFresh then
    (r.explainPartition p .evidenceIncompleteCoverage
      "no fresh reachability evidence exists; membership is not durably recorded", r)
  else if p.pendingMergeParents ≠ [] then
    (r.explainPartition p .revalidationRequired
      "a governed merge is required before this membership becomes durable lineage", r)
  else if (r.lineage.latest p.lineage).any fun existing => existing.membership == p.membership then
    ({ p with lifecycle := .committed }, r)
  else
    match r.state.lineageSequence.next with
    | none =>
      (r.explainPartition p .arithmeticRefused
        "the lineage sequence is exhausted; lineage was not committed", r)
    | some sequence =>
      let record := r.assessmentRecord decision sequence p
      match commitRecord .lineageRecord (encodeLineage record) r with
      | (false, r) =>
        (r.explainPartition p .limitExceededReason
          "the lineage store refused the record; the partition is not durably committed", r)
      | (true, r) =>
        match r.lineage.append record with
        | none =>
          (r.explainPartition p .limitExceededReason
            "the lineage store refused the record; the partition is not durably committed", r)
        | some lineage =>
          ({ p with lifecycle := .committed },
            { r with
              lineage := lineage
              state := { r.state with lineageSequence := sequence } })

/-- The lineage commit loop of `assess_locked`. -/
def commitLineages (decision : DecisionId) : List Partition → PartitionRuntime →
    List Partition × PartitionRuntime
  | [], r => ([], r)
  | p :: rest, r =>
    let (p, r) := commitLineage decision p r
    let (others, r) := commitLineages decision rest r
    (p :: others, r)

/-- `live_grants`: a mark for each partition that holds a grant. -/
def grantMarks (partitions : List Partition) : List AuthorityGrantMark :=
  (partitions.filter Partition.granted).map fun p => ⟨p.id, p.lineage, p.authoritySequence⟩

/-- The summary of a snapshot. -/
def summarise (snapshot : ReachabilitySnapshot) : ReachabilitySummary where
  valid := snapshot.valid
  confirmed := snapshot.confirmed
  completeCoverageConflict := snapshot.completeCoverageConflict
  topologyGeneration := snapshot.topologyGeneration
  reachabilityGeneration := snapshot.reachabilityGeneration
  evidenceDigest := snapshot.evidenceDigest
  counters := snapshot.counters
  componentCount := snapshot.componentRepresentatives.length
  freshBundleCount := snapshot.freshBundleCount
  staleBundleCount := snapshot.staleBundleCount

/-- The end of `assess_locked`: the epoch watermark is committed, then the assessment is
published. -/
def publishAssessment (decision : Decision) (evaluation : AuthorityEvaluation)
    (built : List Partition) (r : PartitionRuntime) : PartitionAssessment × PartitionRuntime :=
  let r := { r with state := { r.state with liveGrants := grantMarks built } }
  let r := if r.store.isSome then
      (commitRecord .epochState (encodeEpochState r.state) r).2
    else r
  let outcome : PartitionAssessment :=
    { decision := decision
      generation := r.state.partitionGeneration
      partitions := built
      reachability := summarise r.snapshot
      confirmed := r.snapshot.confirmed
      splitBrain := evaluation.splitBrain
      authoritativePartition := evaluation.authoritative
      fabricAuthority :=
        if evaluation.authoritative.isNil then
          if evaluation.verdict = .isolated then .isolated else .observeOnly
        else .primary }
  (outcome, { r with
    partitions := built
    lastAssessmentConfirmed := r.snapshot.confirmed
    assessment := outcome })

/-- The authority a fabric decision reports. -/
def fabricAuthority (evaluation : AuthorityEvaluation) (unset : AuthorityVector) :
    AuthorityVector :=
  if evaluation.authoritative.isNil then
    { observedOnlyAuthority .all [] with revocable := false }
  else
    match evaluation.partitions.find? fun p => p.id == evaluation.authoritative with
    | none => unset
    | some p => p.authority

/-- Start a generation: advance the counter and resolve the evidence. -/
def beginAssessment (generation : PartitionGeneration) (r : PartitionRuntime) : PartitionRuntime :=
  { r with
    state := { r.state with partitionGeneration := generation }
    snapshot := buildReachabilitySnapshot r.roster r.ledger.retained (some r.policy) r.state.tick
      r.limits }

/-- The decision of an assessment, before it is finalised. -/
def assessmentDecision (r : PartitionRuntime) (evaluation : AuthorityEvaluation) : Decision :=
  let decision := r.makeDecision .assessFabric .observed fabricScope
  { decision with
    verdict := evaluation.verdict
    subjects := evaluation.partitions.map Partition.id
    reasons := (r.snapshot.reasons ++ evaluation.reasons).take r.limits.maxReasonsPerDecision
    authority := fabricAuthority evaluation decision.authority
    bindings := { decision.bindings with authoritySequence := evaluation.authoritySequence } }

/-- `assess_locked` on an open runtime with a roster, once the generation has advanced. -/
def assessGeneration (allowRestore : Bool) : RuntimeAct PartitionAssessment := do
  let r ← Act.read
  if !r.snapshot.valid then
    let decision := r.makeDecision .assessFabric .observed fabricScope
    let decision ← finalizeDecision (r.conclude decision .invalid .subjectUnknown (ascii "fabric")
      "the reachability snapshot could not be built")
    let outcome : PartitionAssessment :=
      { decision := decision, generation := r.state.partitionGeneration }
    Act.modify fun r => { r with
      partitions := []
      assessment := outcome
      lastAssessmentConfirmed := false }
    pure outcome
  else
    let built := buildPartitions r.snapshot r.state.partitionGeneration r.lineage r.limits
    let evaluation := r.evaluateAuthority built allowRestore
    Act.modify fun r => { r with
      state := { r.state with authoritySequence := evaluation.authoritySequence } }
    let decision ← finalizeDecision (r.assessmentDecision evaluation)
    let built ← Act.total (commitLineages decision.id evaluation.partitions)
    Act.total (publishAssessment decision evaluation built)

/-- A refused assessment: only the cached decision and partition list of the assessment change. -/
def refuseAssessment (code : ReasonCode) (subject detail : String) (clear : Bool) :
    RuntimeAct PartitionAssessment := do
  let r ← Act.read
  let decision := r.makeDecision .assessFabric .invalid fabricScope
  let denial ← finalizeDecision (r.explain decision code (ascii subject) (ascii detail))
  let r ← Act.read
  let assessment := { r.assessment with
    decision := denial
    partitions := []
    reachability := if clear then {} else r.assessment.reachability }
  Act.modify fun r => { r with assessment := assessment }
  pure assessment

/-- `assess_locked`. -/
def assessLocked (allowRestore : Bool) : RuntimeAct PartitionAssessment := do
  let r ← Act.read
  if r.closed then refuseAssessment .invalidRequest "runtime" "the runtime is closed" false
  else if !r.rosterSet then
    refuseAssessment .subjectUnknown "fabric" "no authoritative roster has been adopted" true
  else
    match r.state.partitionGeneration.next with
    | none => Act.throw .generationExhausted
    | some generation =>
      Act.modify (beginAssessment generation)
      assessGeneration allowRestore

/-- `assess`. -/
def assess : RuntimeAct PartitionAssessment := assessLocked false

end PartitionRuntime

end FabricPartition
