import FabricPartition.Assessment

/-!
# Governed operations

The operations of `runtime.cpp` that a caller has to ask for under an attempt identity — merge,
isolation, retirement, revalidation — and the two reports on an authorisation, acknowledgement and
verified effect.

Each governed method is its pure check (`mergeCheck`, `retireCheck`, …), which names the verdict and
the reason of every refusal, followed by its effect.
-/

set_option autoImplicit false

namespace FabricPartition

namespace PartitionRuntime

/-! ## Merge governance -/

/-- The checks of `request_merge` after the attempt was recorded; the subject, if they all pass. -/
def mergeCheck (r : PartitionRuntime) (request : MergeRequest) (decision : Decision) :
    Except Decision Partition :=
  if request.expectedEpoch ≠ r.state.epoch then
    .error (r.explain { decision with verdict := .denied } .epochMismatchReason request.subject.text
      (ascii "the request names epoch " ++ request.expectedEpoch.render
        ++ ascii " but the current epoch is " ++ r.state.epoch.render))
  else
    match r.partitionById request.subject with
    | none =>
      .error (r.conclude decision .denied .mergeRejectedUnknownSubject request.subject.text
        "no partition with this identity exists in the current assessment")
    | some subject =>
      if subject.generation ≠ r.state.partitionGeneration then
        .error (r.conclude decision .denied .mergeRejectedGenerationMismatch request.subject.text
          "the subject partition belongs to an earlier assessment generation")
      else if subject.pendingMergeParents = [] then
        .error (r.conclude decision .denied .mergeRejectedAlreadyMerged request.subject.text
          "the partition does not span multiple live lineages")
      else if !subject.pendingMergeParents.contains request.left
          || !subject.pendingMergeParents.contains request.right || request.left == request.right then
        .error (r.conclude decision .invalid .mergeRejectedUnknownSubject request.left.text
          "both named lineages must be distinct live parents of the subject partition")
      else if !r.snapshot.anyEvidenceFresh then
        .error (r.conclude decision .denied .mergeRejectedStaleEvidence request.subject.text
          "no fresh reachability evidence supports this reconciliation")
      else if !r.snapshot.confirmed then
        .error (r.conclude decision .denied .mergeRejectedNotReachable request.subject.text
          "the merged component set is not confirmed by current evidence")
      else
        let (relation, limitReached) := r.lineage.relate request.left request.right
        if limitReached || relation == .indeterminate then
          let decision := r.conclude decision .indeterminate .searchLimitReached request.left.text
            ("the bounded lineage ancestry walk could not resolve the relation between the two "
              ++ "parents")
          .error (r.explain decision .mergeRejectedIndeterminate request.subject.text
            (ascii "an unresolved ancestry relation is a refusal, not a permission"))
        else if relation == .identical || relation == .ancestorOf || relation == .descendantOf then
          .error (r.explain { decision with verdict := .conflict } .mergeRejectedLineageConflict
            request.left.text (ascii "the two parents are related as " ++ ascii relation.name
              ++ ascii "; conflicting lineage may not be unioned"))
        else .ok subject

/-- The lineage record of a merge. -/
def mergeRecord (r : PartitionRuntime) (request : MergeRequest) (subject : Partition)
    (decision : DecisionId) (sequence : LineageSequence) : LineageRecord :=
  let record : LineageRecord :=
    { sequence := sequence
      lineage := mergeLineageId request.left request.right
      generation := r.state.partitionGeneration
      membership := subject.membership
      members := subject.members
      event := .merge
      parentLeft := if request.left < request.right then request.left else request.right
      parentRight := if request.left < request.right then request.right else request.left
      epoch := r.state.epoch
      boot := r.state.boot
      decision := decision
      tick := r.state.tick }
  { record with digest := computeLineageDigest record }

/-- The `finish` lambda of `request_merge`. -/
def finishMerge (decision : Decision) : RuntimeAct MergeOutcome := do
  let finalised ← finalizeDecision decision
  pure { verdict := decision.verdict, decision := finalised }

/-- Fence the grant of the merge subject, if it holds one. -/
def fenceSubject (subject : Partition) (decision : Decision) : RuntimeAct Decision := do
  if !subject.granted then pure decision
  else
    let fence ← issueFence subject subject.authoritySequence .mergeFencedPriorAuthority
    pure { decision with
      fencesIssued := decision.fencesIssued ++ [fence.id]
      fencedPartitions := decision.fencedPartitions ++ [subject.id] }

/-- Drop the interruptions of the lineages a predicate selects. -/
def dropInterrupted (select : LineageId → Bool) (r : PartitionRuntime) : PartitionRuntime :=
  { r with interrupted := r.interrupted.filter fun entry => !select entry.lineage }

/-- A committed merge: fence, forget the parents' interruptions, publish, assess again. -/
def completeMerge (request : MergeRequest) (subject : Partition) (decision : Decision) :
    RuntimeAct MergeOutcome := do
  let decision ← fenceSubject subject decision
  Act.modify (dropInterrupted fun l => l == request.left || l == request.right)
  let finalised ← finalizeDecision decision
  let refreshed ← assessLocked false
  let merged := mergeLineageId request.left request.right
  pure
    { verdict := decision.verdict
      decision := finalised
      mergedLineage := merged
      mergedPartition :=
        ((refreshed.partitions.find? fun p => p.lineage == merged).map Partition.id).getD .nil
      fencedPartitions := if subject.granted then [subject.id] else [] }

/-- The effect of `request_merge` once every check has passed. -/
def commitMerge (request : MergeRequest) (subject : Partition) (decision : Decision) :
    RuntimeAct MergeOutcome := do
  let r ← Act.read
  let decision := r.conclude decision .granted .mergeAccepted request.subject.text
    "pairwise reconciliation committed with a new merged lineage"
  let decision ← assignDecisionIdentity (r.explain decision .mergeNewLineageEstablished
    (mergeLineageId request.left request.right).text
    (ascii "the merged lineage supersedes both parents"))
  let r ← Act.read
  match r.state.lineageSequence.next with
  | none =>
    finishMerge (r.conclude decision .indeterminate .arithmeticRefused request.subject.text
      "the lineage sequence is exhausted")
  | some sequence =>
    let record := r.mergeRecord request subject decision.id sequence
    let committed ← Act.total (commitRecord .lineageRecord (encodeLineage record))
    if !committed then
      finishMerge (r.conclude decision .indeterminate .storeIoFailure request.subject.text
        "the merge lineage record could not be committed durably")
    else
      match r.lineage.append record with
      | none =>
        finishMerge (r.conclude decision .invalid .mergeRejectedLineageConflict request.subject.text
          "the lineage store refused the merge record")
      | some lineage =>
        Act.modify fun r => { r with
          lineage := lineage
          state := { r.state with lineageSequence := sequence } }
        completeMerge request subject decision

/-- `request_merge`. -/
def requestMerge (request : MergeRequest) : RuntimeAct MergeOutcome := do
  let r ← Act.read
  let decision := r.makeDecision .mergePartitions .invalid (partitionScope request.subject)
  match r.admissionCheck request.attempt decision with
  | some refused => finishMerge refused
  | none =>
    Act.modify (recordAttempt request.attempt .mergePartitions)
    let r ← Act.read
    match r.mergeCheck request decision with
    | .error refused => finishMerge refused
    | .ok subject => commitMerge request subject decision

/-! ## Isolation -/

/-- The `finish` lambda of the isolation methods. -/
def finishIsolation (decision : Decision) : RuntimeAct IsolationOutcome := do
  let finalised ← finalizeDecision decision
  pure { verdict := decision.verdict, decision := finalised }

/-- An isolation decision that takes effect is published before the assessment it triggers. -/
def concludeIsolation (decision : Decision) : RuntimeAct IsolationOutcome := do
  let outcome ← finishIsolation decision
  let _ ← assessLocked false
  pure outcome

/-- A request that names another epoch than the current one. -/
def epochRefusal (r : PartitionRuntime) (expected : CoordinatorEpoch) (subject : Text)
    (decision : Decision) : Option Decision :=
  if expected ≠ r.state.epoch then
    some (r.conclude decision .denied .epochMismatchReason subject
      "the request names an epoch that is not current")
  else none

/-- The checks of `isolate` after the attempt was recorded. -/
def isolateCheck (r : PartitionRuntime) (request : IsolationRequest) (decision : Decision) :
    Option Decision :=
  (r.epochRefusal request.expectedEpoch request.lineage.text decision).or <|
    if !r.lineage.contains request.lineage then
      some (r.conclude decision .denied .isolationRejectedUnknownSubject request.lineage.text
        "the lineage is not present in durable lineage")
    else if r.isolations.length ≥ r.limits.maxRevalidationsRetained then
      some (r.conclude decision .indeterminate .capacityExhausted request.lineage.text
        "the isolation table is full")
    else none

/-- The tick at which an isolation expires, in wrapping arithmetic; zero for never. -/
def isolationExpiry (r : PartitionRuntime) (request : IsolationRequest) : UInt64 :=
  if request.durationTicks = 0 then 0 else r.state.tick + request.durationTicks

/-- `isolate`. -/
def isolate (request : IsolationRequest) : RuntimeAct IsolationOutcome := do
  let r ← Act.read
  let decision := r.makeDecision .isolateComponents .invalid fabricScope
  match r.admissionCheck request.attempt decision with
  | some refused => finishIsolation refused
  | none =>
    Act.modify (recordAttempt request.attempt .isolateComponents)
    let r ← Act.read
    match r.isolateCheck request decision with
    | some refused => finishIsolation refused
    | none =>
      let expiry := r.isolationExpiry request
      Act.modify fun r => { r with
        isolations := r.isolations ++ [⟨request.lineage, expiry, request.cause⟩] }
      let decision := { decision with
        scope := namedScope .domain request.lineage.text
        verdict := .isolated }
      concludeIsolation (r.explain decision .isolationApplied request.lineage.text
        (if request.durationTicks = 0 then
          ascii "isolation applies until it is explicitly cleared"
        else ascii "isolation expires at tick " ++ decimal expiry.toNat))

/-- `clear_isolation`. -/
def clearIsolation (request : IsolationRequest) : RuntimeAct IsolationOutcome := do
  let r ← Act.read
  let decision := r.makeDecision .isolateComponents .invalid fabricScope
  match r.admissionCheck request.attempt decision with
  | some refused => finishIsolation refused
  | none =>
    Act.modify (recordAttempt request.attempt .isolateComponents)
    let r ← Act.read
    match r.epochRefusal request.expectedEpoch request.lineage.text decision with
    | some refused => finishIsolation refused
    | none =>
      let kept := r.isolations.filter fun directive => directive.lineage != request.lineage
      Act.modify fun r => { r with isolations := kept }
      let decision := { decision with scope := namedScope .domain request.lineage.text }
      if kept.length = r.isolations.length then
        concludeIsolation (r.conclude decision .denied .isolationRejectedUnknownSubject
          request.lineage.text "no isolation directive applied to this lineage")
      else
        concludeIsolation (r.conclude decision .granted .revalidationGranted request.lineage.text
          "isolation directive cleared")

/-! ## Retirement -/

/-- The checks of `retire` after the attempt was recorded: the latest record of the lineage and the
sequence of the retirement. -/
def retireCheck (r : PartitionRuntime) (request : RetireRequest) (decision : Decision) :
    Except Decision (LineageRecord × LineageSequence) :=
  match r.epochRefusal request.expectedEpoch request.lineage.text decision with
  | some refused => .error refused
  | none =>
    match r.lineage.latest request.lineage with
    | none =>
      .error (r.conclude decision .denied .subjectUnknown request.lineage.text
        "the lineage is not present in durable lineage")
    | some latest =>
      if latest.event = .retire then
        .error (r.conclude decision .observed .partitionRetired request.lineage.text
          "the lineage is already retired")
      else
        match r.state.lineageSequence.next with
        | none =>
          .error (r.conclude decision .indeterminate .arithmeticRefused request.lineage.text
            "the lineage sequence is exhausted")
        | some sequence => .ok (latest, sequence)

/-- The lineage record of a retirement. -/
def retireRecord (r : PartitionRuntime) (latest : LineageRecord) (lineage : LineageId)
    (decision : DecisionId) (sequence : LineageSequence) : LineageRecord :=
  let record : LineageRecord :=
    { sequence := sequence
      lineage := lineage
      generation := latest.generation
      membership := latest.membership
      members := latest.members
      event := .retire
      epoch := r.state.epoch
      boot := r.state.boot
      decision := decision
      tick := r.state.tick }
  { record with digest := computeLineageDigest record }

/-- The fencing loop of `retire`: every current grant of the lineage. -/
def fenceLineage (lineage : LineageId) (decision : Decision) (p : Partition) :
    RuntimeAct Decision := do
  if p.lineage ≠ lineage then pure decision
  else if !p.granted then pure decision
  else
    let fence ← issueFence p p.authoritySequence .partitionRetired
    pure { decision with
      fencesIssued := decision.fencesIssued ++ [fence.id]
      fencedPartitions := decision.fencedPartitions ++ [p.id] }

/-- The effect of `retire` once every check has passed. -/
def commitRetire (request : RetireRequest) (latest : LineageRecord) (sequence : LineageSequence)
    (decision : Decision) : RuntimeAct Decision := do
  let r ← Act.read
  let decision ← assignDecisionIdentity (r.conclude decision .granted .partitionRetired
    request.lineage.text "the lineage is retired and every grant derived from it is fenced")
  let r ← Act.read
  let record := r.retireRecord latest request.lineage decision.id sequence
  let committed ← Act.total (commitRecord .lineageRecord (encodeLineage record))
  if !committed then
    finalizeDecision (r.conclude decision .indeterminate .storeIoFailure request.lineage.text
      "the retirement record could not be committed durably")
  else
    match r.lineage.append record with
    | none =>
      finalizeDecision (r.conclude decision .invalid .invalidRequest request.lineage.text
        "the lineage store refused the retirement record")
    | some lineage =>
      Act.modify fun r => { r with
        lineage := lineage
        state := { r.state with lineageSequence := sequence } }
      let decision ← Act.forEach (fenceLineage request.lineage) decision r.partitions
      Act.modify (dropInterrupted fun l => l == request.lineage)
      finalizeDecision decision

/-- `retire`. -/
def retire (request : RetireRequest) : RuntimeAct Decision := do
  let r ← Act.read
  let decision := r.makeDecision .retire .invalid (namedScope .domain request.lineage.text)
  match r.admissionCheck request.attempt decision with
  | some refused => finalizeDecision refused
  | none =>
    Act.modify (recordAttempt request.attempt .retire)
    let r ← Act.read
    match r.retireCheck request decision with
    | .error refused => finalizeDecision refused
    | .ok (latest, sequence) => commitRetire request latest sequence decision

/-! ## Revalidation -/

/-- What the revalidation loop accumulates. -/
structure Revalidation where
  decision : Decision
  restored : List PartitionId := []
  stillInterrupted : List PartitionId := []

/-- The first loop of `revalidate`: the first interruption of the partition's lineage decides. -/
def revalidatePartition (acc : Revalidation) (p : Partition) : RuntimeAct Revalidation := do
  let r ← Act.read
  match r.interrupted.find? fun entry => entry.lineage == p.lineage with
  | none => pure acc
  | some entry =>
    if !p.granted then
      pure { acc with
        stillInterrupted := acc.stillInterrupted ++ [p.id]
        decision := r.explain acc.decision .revalidationDenied p.id.text
          (ascii "current evidence does not support restoring the interrupted authority") }
    else
      let decision := r.explain acc.decision .revalidationGranted p.id.text
        (ascii "authority was re-derived from fresh evidence under epoch " ++ r.state.epoch.render)
      let fence ← issueFence p entry.authoritySequence .authorityInterruptedByRestart
      pure { acc with
        restored := acc.restored ++ [p.id]
        decision := { decision with
          fencesIssued := decision.fencesIssued ++ [fence.id]
          fencedPartitions := decision.fencedPartitions ++ [p.id] } }

/-- The second loop of `revalidate`: interrupted lineages that are not in the decomposition. -/
def explainAbsent (r : PartitionRuntime) (refreshed : List Partition) (restored : List PartitionId)
    (decision : Decision) : Decision :=
  r.interrupted.foldl (fun decision entry =>
    if restored.contains entry.partition || refreshed.any fun p => p.lineage == entry.lineage then
      decision
    else r.explain decision .revalidationIndeterminate entry.partition.text
      (ascii "the interrupted lineage is not present in the current decomposition")) decision

/-- The third loop of `revalidate`: is an interruption lifted? -/
def isRestored (refreshed : List Partition) (restored : List PartitionId)
    (entry : InterruptedAuthority) : Bool :=
  restored.contains entry.partition
    || refreshed.any fun p => p.lineage == entry.lineage && p.granted

/-- The verdict of `revalidate`. -/
def revalidationVerdict (r : PartitionRuntime) (reachability : ReachabilitySummary)
    (restored : List PartitionId) (interruptedBefore : Nat) (decision : Decision) : Decision :=
  if !reachability.valid || reachability.freshBundleCount == 0 then
    r.conclude decision .indeterminate .revalidationIndeterminate (ascii "fabric")
      "no fresh reachability evidence is available; authority cannot be revalidated"
  else if restored ≠ [] then { decision with verdict := .granted }
  else if interruptedBefore = 0 then
    r.conclude decision .observed .revalidationGranted (ascii "fabric")
      "no authority was interrupted; current authority stands"
  else { decision with verdict := .denied }

/-- The `finish` lambda of `revalidate`. -/
def finishRevalidation (decision : Decision) (partitions : List Partition)
    (restored stillInterrupted : List PartitionId) : RuntimeAct RevalidationOutcome := do
  let finalised ← finalizeDecision decision
  pure
    { verdict := decision.verdict
      decision := finalised
      partitions := partitions
      restored := restored
      stillInterrupted := stillInterrupted }

/-- The checks of `revalidate` after the attempt was recorded. -/
def revalidateCheck (r : PartitionRuntime) (request : RevalidationRequest) (decision : Decision) :
    Option Decision :=
  (r.epochRefusal request.expectedEpoch (ascii "revalidate") decision).or <|
    if !r.rosterSet then
      some (r.conclude decision .invalid .subjectUnknown (ascii "fabric")
        "no authoritative roster has been adopted")
    else none

/-- The effect of `revalidate` once every check has passed. -/
def restoreAuthority (decision : Decision) : RuntimeAct RevalidationOutcome := do
  let r ← Act.read
  let interruptedBefore := r.interrupted.length
  let refreshed ← assessLocked true
  let acc ← Act.forEach revalidatePartition { decision := decision } refreshed.partitions
  let r ← Act.read
  let decision := r.explainAbsent refreshed.partitions acc.restored acc.decision
  Act.modify fun r => { r with
    interrupted := r.interrupted.filter fun entry =>
      !isRestored refreshed.partitions acc.restored entry }
  let decision := r.revalidationVerdict refreshed.reachability acc.restored interruptedBefore
    decision
  finishRevalidation { decision with authority := refreshed.decision.authority }
    refreshed.partitions acc.restored acc.stillInterrupted

/-- `revalidate`. -/
def revalidate (request : RevalidationRequest) : RuntimeAct RevalidationOutcome := do
  let r ← Act.read
  let decision := r.makeDecision .revalidate .invalid fabricScope
  match r.admissionCheck request.attempt decision with
  | some refused => finishRevalidation refused [] [] []
  | none =>
    Act.modify (recordAttempt request.attempt .revalidate)
    let r ← Act.read
    match r.revalidateCheck request decision with
    | some refused => finishRevalidation refused [] [] []
    | none => restoreAuthority decision

/-! ## Application state -/

/-- The checks of `record_acknowledgement`. -/
def acknowledgementCheck (r : PartitionRuntime) (ack : AuthorityAcknowledgement)
    (decision : Decision) : Option Decision :=
  if r.closed then
    some (r.explain decision .invalidRequest (ascii "runtime") (ascii "the runtime is closed"))
  else
    match r.partitionById ack.partition with
    | none =>
      some (r.explain decision .subjectUnknown ack.partition.text
        (ascii "no partition with this identity holds a grant in the current assessment"))
    | some partition =>
      if !partition.granted then
        some (r.explain decision .authorityDeniedFailClosed ack.partition.text
          (ascii "the partition holds no authority to acknowledge"))
      else if r.acknowledgements.any fun existing =>
          existing.attempt == ack.attempt && existing.partition == ack.partition then
        some (r.explain decision .attemptDuplicate ack.partition.text
          (ascii "this attempt has already been acknowledged"))
      else if !partition.authority.authorized.containsAll ack.applied then
        some (r.explain decision .authorityDeniedFailClosed ack.partition.text
          (ascii "the acknowledgement claims capabilities that were never authorized"))
      else if r.acknowledgements.length ≥ r.limits.maxAttemptRecords then
        some (r.explain decision .capacityExhausted ack.partition.text
          (ascii "the acknowledgement table is full"))
      else none

/-- `record_acknowledgement`. -/
def recordAcknowledgement (ack : AuthorityAcknowledgement) : RuntimeAct Decision := do
  let r ← Act.read
  let decision := r.makeDecision .acknowledgeAuthority .invalid (partitionScope ack.partition)
  match r.acknowledgementCheck ack decision with
  | some refused => finalizeDecision refused
  | none =>
    Act.modify fun r => { r with acknowledgements := r.acknowledgements ++ [ack] }
    finalizeDecision (r.conclude decision .observed .deterministicOrdering ack.partition.text
      (if ack.accepted then
        "the subject reported applying the authorization; this is a report, not a verified effect"
      else "the subject reported refusing the authorization"))

/-- The checks of `record_verified_effect`. -/
def effectCheck (r : PartitionRuntime) (effect : VerifiedEffect) (decision : Decision) :
    Option Decision :=
  if r.closed then
    some (r.explain decision .invalidRequest (ascii "runtime") (ascii "the runtime is closed"))
  else
    match r.partitionById effect.partition with
    | none =>
      some (r.explain decision .subjectUnknown effect.partition.text
        (ascii "no partition with this identity exists in the current assessment"))
    | some partition =>
      if !r.acknowledgements.any fun existing =>
          existing.attempt == effect.attempt && existing.partition == effect.partition
            && existing.accepted then
        some (r.explain decision .attemptUnknown effect.partition.text
          (ascii ("no accepted acknowledgement exists for this attempt; a verified effect cannot "
            ++ "skip acknowledgement")))
      else if !partition.authority.authorized.containsAll effect.confirmed then
        some (r.explain decision .authorityDeniedFailClosed effect.partition.text
          (ascii "the observed effect exceeds the authorized capability set"))
      else if r.verifiedEffects.any fun existing =>
          existing.partition == effect.partition && existing.attempt == effect.attempt then
        some (r.explain decision .attemptDuplicate effect.partition.text
          (ascii "this effect has already been verified"))
      else if r.verifiedEffects.length ≥ r.limits.maxAttemptRecords then
        some (r.explain decision .capacityExhausted effect.partition.text
          (ascii "the verified effect table is full"))
      else none

/-- `record_verified_effect`. -/
def recordVerifiedEffect (effect : VerifiedEffect) : RuntimeAct Decision := do
  let r ← Act.read
  let decision := r.makeDecision .verifyEffect .invalid (partitionScope effect.partition)
  match r.effectCheck effect decision with
  | some refused => finalizeDecision refused
  | none =>
    Act.modify fun r => { r with verifiedEffects := r.verifiedEffects ++ [effect] }
    finalizeDecision (r.conclude decision .observed .deterministicOrdering effect.partition.text
      "an independent observation confirmed the authorized effect")

/-- `application_state`. -/
def applicationState (r : PartitionRuntime) (partition : PartitionId) :
    AuthorityApplicationState :=
  match r.partitionById partition with
  | none =>
    if r.interrupted.any fun entry => entry.partition == partition then .interrupted else .revoked
  | some current =>
    if !current.granted then
      if r.isInterrupted current.lineage then .interrupted else .notApplicable
    else if r.verifiedEffects.any fun effect => effect.partition == partition then
      .verifiedByObservation
    else if r.acknowledgements.any fun ack => ack.partition == partition && ack.accepted then
      .acknowledgedBySubject
    else .authorizationIssued

end PartitionRuntime

end FabricPartition
