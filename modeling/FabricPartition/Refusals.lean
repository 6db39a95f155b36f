import FabricPartition.Drift

/-!
# Refused requests

What the governed operations leave behind when they refuse.  Every refusal of `request_merge`,
`isolate` and `retire` returns before anything but the attempt table and the decision log is written.
A `clear_isolation` that finds no directive for its lineage is denied too, but goes on to the
assessment its granted form ends with: **a refusal moves nothing if and only if it is not that one**
(`refusals_unmoved_iff`).
-/

set_option autoImplicit false

namespace FabricPartition

/-- The verdicts that refuse. -/
def DecisionVerdict.refuses (v : DecisionVerdict) : Bool :=
  v == .denied || v == .invalid || v == .conflict || v == .indeterminate

/-- The verdict a response of a governed operation reports. -/
def Response.verdict : Response → Option DecisionVerdict
  | .decision d => some d.verdict
  | .merge outcome => some outcome.verdict
  | .isolation outcome => some outcome.verdict
  | _ => none

/-- The response refuses its request. -/
def Response.Refused (response : Response) : Prop := ∃ v, response.verdict = some v ∧ v.refuses = true

/-- The operations this module is about. -/
inductive Governing : Operation → Prop
  | requestMerge (request : MergeRequest) : Governing (.requestMerge request)
  | isolate (request : IsolationRequest) : Governing (.isolate request)
  | clearIsolation (request : IsolationRequest) : Governing (.clearIsolation request)
  | retire (request : RetireRequest) : Governing (.retire request)

namespace PartitionRuntime

/-- Attempts and decisions were recorded, and records committed: the rest is as it was. -/
def Unmoved (r r' : PartitionRuntime) : Prop :=
  ∃ (decisions : DecisionLog) (attempts : List AttemptRecord) (decisionSequence : DecisionSequence)
    (attemptSequence : AttemptSequence) (j : Journal),
    r' = { r with
      decisions := decisions
      attempts := attempts
      state := { r.state with
        decisionSequence := decisionSequence
        attemptSequence := attemptSequence }
      store := j.1
      durableSequence := j.2 }

theorem Unmoved.trans {r s t : PartitionRuntime} (h : Unmoved r s) (h' : Unmoved s t) :
    Unmoved r t := by
  obtain ⟨_, _, _, _, _, rfl⟩ := h
  obtain ⟨_, _, _, _, _, rfl⟩ := h'
  exact ⟨_, _, _, _, _, rfl⟩

theorem Quiet.unmoved {r r' : PartitionRuntime} (h : Quiet r r') : Unmoved r r' := by
  obtain ⟨_, _, _, _, _, -, rfl⟩ := h
  exact ⟨_, _, _, _, _, rfl⟩

theorem Stored.unmoved {type : DurableRecordType} {r r' : PartitionRuntime} (h : Stored type r r') :
    Unmoved r r' := by
  obtain ⟨j, -, rfl⟩ := h
  exact ⟨_, _, _, _, j, rfl⟩

theorem withFaults_unmoved (faults : List (Option AppendFault)) (r : PartitionRuntime) :
    Unmoved r (r.withFaults faults) :=
  ⟨r.decisions, r.attempts, r.state.decisionSequence, r.state.attemptSequence,
    ((r.withFaults faults).store, r.durableSequence), rfl⟩

/-- A `clear_isolation` that is admitted, under the current epoch, and for which there is no
directive. -/
def ClearsNothing (r : PartitionRuntime) (operation : Operation) : Prop :=
  ∃ request, operation = .clearIsolation request ∧
    r.admissionCheck request.attempt (r.makeDecision .isolateComponents .invalid fabricScope) = none ∧
    request.expectedEpoch = r.state.epoch ∧
    ∀ directive ∈ r.isolations, directive.lineage ≠ request.lineage

/-! ## The refusals of each operation -/

theorem finishIsolation_cases {decision : Decision} {r r' : PartitionRuntime}
    {res : Except PartitionError IsolationOutcome} (h : finishIsolation decision r = (res, r')) :
    Quiet r r' ∧ ∀ outcome, res = .ok outcome → outcome.verdict = decision.verdict := by
  rcases Act.bind_cases h with ⟨d, s, hd, hs⟩ | ⟨e, he, rfl⟩
  · cases hs
    refine ⟨(finalizeDecision_cases hd).1, fun outcome ho => ?_⟩
    cases ho
    rfl
  · exact ⟨(finalizeDecision_cases he).1, fun outcome ho => by cases ho⟩

/-- An isolation that takes effect returns its verdict only after the assessment has returned. -/
theorem concludeIsolation_ok {decision : Decision} {r r' : PartitionRuntime}
    {outcome : IsolationOutcome} (h : concludeIsolation decision r = (.ok outcome, r')) :
    outcome.verdict = decision.verdict ∧
      ∃ s assessment, Quiet r s ∧ Drifts r s ∧ assessLocked false s = (.ok assessment, r') := by
  obtain ⟨o, s, hfinish, hrest⟩ := Act.bind_ok.mp h
  obtain ⟨assessment, t, hassess, hpure⟩ := Act.bind_ok.mp hrest
  cases hpure
  obtain ⟨hq, hv⟩ := finishIsolation_cases hfinish
  have hdrifts := finishIsolation_drifts decision r
  rw [hfinish] at hdrifts
  exact ⟨hv _ rfl, s, assessment, hq, hdrifts, hassess⟩

/-- `isolate` refuses before it writes a directive. -/
theorem isolate_refused {request : IsolationRequest} {r r' : PartitionRuntime}
    {outcome : IsolationOutcome} (h : isolate request r = (.ok outcome, r'))
    (hv : outcome.verdict.refuses = true) : Quiet r r' := by
  rw [isolate, Act.read_bind] at h
  rcases hadm : r.admissionCheck request.attempt
      (r.makeDecision .isolateComponents .invalid fabricScope) with _ | refused
  · simp only [hadm] at h
    rw [Act.modify_bind, Act.read_bind] at h
    have hattempt := recordAttempt_quiet request.attempt .isolateComponents r
    rcases hcheck : (recordAttempt request.attempt .isolateComponents r).isolateCheck request
        (r.makeDecision .isolateComponents .invalid fabricScope) with _ | refused
    · simp only [hcheck] at h
      rw [Act.modify_bind] at h
      obtain ⟨hverdict, -⟩ := concludeIsolation_ok h
      rw [hverdict] at hv
      cases hv
    · rw [hcheck] at h
      exact hattempt.trans (finishIsolation_quiet h)
  · rw [hadm] at h
    exact finishIsolation_quiet h

/-- Dropping the directives of a lineage that has none. -/
theorem keptIsolations {isolations : List IsolationDirective} {lineage : LineageId} :
    (isolations.filter fun directive => directive.lineage != lineage).length = isolations.length ↔
      ∀ directive ∈ isolations, directive.lineage ≠ lineage := by
  rw [List.length_filter_eq_length_iff]
  simp

/-- **The refusals of `clear_isolation`**: before anything is written, or after all its checks, for
want of a directive. -/
theorem clearIsolation_refused {request : IsolationRequest} {r r' : PartitionRuntime}
    {outcome : IsolationOutcome} (h : clearIsolation request r = (.ok outcome, r'))
    (hv : outcome.verdict.refuses = true) :
    (¬ r.ClearsNothing (.clearIsolation request) ∧ Quiet r r') ∨
      r.ClearsNothing (.clearIsolation request) ∧
        ∃ s assessment, Drifts r s ∧ assessLocked false s = (.ok assessment, r') := by
  rw [clearIsolation, Act.read_bind] at h
  rcases hadm : r.admissionCheck request.attempt
      (r.makeDecision .isolateComponents .invalid fabricScope) with _ | refused
  · simp only [hadm] at h
    rw [Act.modify_bind, Act.read_bind] at h
    have hattempt := recordAttempt_quiet request.attempt .isolateComponents r
    rcases hcheck : (recordAttempt request.attempt .isolateComponents r).epochRefusal
        request.expectedEpoch request.lineage.text
        (r.makeDecision .isolateComponents .invalid fabricScope) with _ | refused
    · simp only [hcheck] at h
      rw [Act.modify_bind] at h
      have hepoch : request.expectedEpoch = r.state.epoch := by
        rw [epochRefusal] at hcheck
        split at hcheck
        · cases hcheck
        · rename_i hne
          exact not_not.mp hne
      split at h
      · rename_i hkept
        have hnone := keptIsolations.mp hkept
        have hsame : (recordAttempt request.attempt .isolateComponents r).isolations.filter
            (fun directive => directive.lineage != request.lineage) = r.isolations :=
          List.filter_eq_self.mpr fun directive hd => by simpa using hnone directive hd
        rw [hsame] at h
        obtain ⟨-, s, assessment, -, hdrifts, hassess⟩ := concludeIsolation_ok h
        exact .inr ⟨⟨request, rfl, hadm, hepoch, hnone⟩, s, assessment,
          Drifts.trans _ _ _ (recordAttempt_drifts request.attempt .isolateComponents r) hdrifts,
          hassess⟩
      · obtain ⟨hverdict, -⟩ := concludeIsolation_ok h
        rw [hverdict] at hv
        cases hv
    · rw [hcheck] at h
      refine .inl ⟨?_, hattempt.trans (finishIsolation_quiet h)⟩
      rintro ⟨_, ⟨⟩, -, hepoch, -⟩
      rw [epochRefusal] at hcheck
      split at hcheck
      · rename_i hne
        exact hne hepoch
      · cases hcheck
  · rw [hadm] at h
    refine .inl ⟨?_, finishIsolation_quiet h⟩
    rintro ⟨_, ⟨⟩, hadmits, -⟩
    rw [hadm] at hadmits
    cases hadmits

/-- A refused method returned, and its own verdict is the one that refuses. -/
theorem respond_refused {α : Type} {wrap : α → Response} (verdict : α → DecisionVerdict)
    (hwrap : ∀ a, (wrap a).verdict = some (verdict a)) {act : RuntimeAct α}
    {r r' : PartitionRuntime} {response : Response} (h : respond wrap act r = (response, r'))
    (hrefused : response.Refused) : ∃ a, act r = (.ok a, r') ∧ (verdict a).refuses = true := by
  obtain ⟨v, hv, hrefuses⟩ := hrefused
  rw [respond] at h
  rcases hact : act r with ⟨e | a, s⟩
  · rw [hact] at h
    cases h
    cases hv
  · rw [hact] at h
    cases h
    rw [hwrap] at hv
    obtain rfl := Option.some.inj hv
    exact ⟨a, rfl, hrefuses⟩

theorem not_granted_of_refuses {v : DecisionVerdict} (h : v.refuses = true) : v ≠ .granted := by
  rintro rfl
  cases h

/-- **The refusals of the governed operations**: one of them ends with an assessment. -/
theorem perform_refused {r r' : PartitionRuntime} {operation : Operation} {response : Response}
    (h : r.perform operation = (response, r')) (hgoverning : Governing operation)
    (hrefused : response.Refused) :
    (¬ r.ClearsNothing operation ∧ Unmoved r r') ∨
      r.ClearsNothing operation ∧
        ∃ s assessment, Drifts r s ∧ assessLocked false s = (.ok assessment, r') := by
  have hother {operation : Operation} (hne : ∀ request, operation ≠ .clearIsolation request) :
      ¬ r.ClearsNothing operation := by
    rintro ⟨request, hop, -⟩
    exact hne request hop
  rcases hgoverning with request | request | request | request
  · obtain ⟨outcome, hact, hv⟩ :=
      respond_refused MergeOutcome.verdict (fun _ => rfl) h hrefused
    rcases requestMerge_cases hact with ⟨⟨s, t, hq, hst, hq'⟩, -⟩ | ⟨_, _, -, -, -, hrest⟩
    · exact .inl ⟨hother nofun, hq.unmoved.trans (hst.unmoved.trans hq'.unmoved)⟩
    · rcases hrest with ⟨he, -⟩ | ⟨_, _, _, -, -, -, ⟨_, o, -, ho, hgranted⟩ | ⟨_, -, he⟩⟩
      · cases he
      · cases ho
        exact absurd hgranted (not_granted_of_refuses hv)
      · cases he
  · obtain ⟨outcome, hact, hv⟩ :=
      respond_refused IsolationOutcome.verdict (fun _ => rfl) h hrefused
    exact .inl ⟨hother nofun, (isolate_refused hact hv).unmoved⟩
  · obtain ⟨outcome, hact, hv⟩ :=
      respond_refused IsolationOutcome.verdict (fun _ => rfl) h hrefused
    rcases clearIsolation_refused hact hv with ⟨hnot, hq⟩ | hclears
    · exact .inl ⟨hnot, hq.unmoved⟩
    · exact .inr hclears
  · obtain ⟨d, hact, hv⟩ :=
      respond_refused Decision.verdict (fun _ => rfl) h hrefused
    rcases retire_cases hact with ⟨⟨s, t, hq, hst, hq'⟩, -⟩ | ⟨_, _, _, -, -, -, -, hrest⟩
    · exact .inl ⟨hother nofun, hq.unmoved.trans (hst.unmoved.trans hq'.unmoved)⟩
    · rcases hrest with ⟨he, -⟩ | ⟨-, -, d', hd', hgranted⟩
      · cases he
      · cases hd'
        exact absurd hgranted (not_granted_of_refuses hv)

/-! ## The numbers of assessments -/

/-- An assessment that returns bears a number above those drawn before it. -/
def Numbers (r : PartitionRuntime)
    (done : Except PartitionError PartitionAssessment × PartitionRuntime) : Prop :=
  r.state.decisionSequence.value.toNat ≤ done.2.state.decisionSequence.value.toNat ∧
    ∀ outcome, done.1 = .ok outcome →
      r.state.decisionSequence.value.toNat
          < outcome.decision.bindings.decisionSequence.value.toNat ∧
        outcome.decision.bindings.decisionSequence = done.2.state.decisionSequence

theorem Numbers.of_sequence {r s : PartitionRuntime}
    {done : Except PartitionError PartitionAssessment × PartitionRuntime} (h : Numbers s done)
    (hsame : s.state.decisionSequence = r.state.decisionSequence) : Numbers r done := by
  rw [Numbers, ← hsame]
  exact h

/-- What follows the decision of an assessment draws no number, and reports the decision. -/
theorem finalizeDecision_numbers_then {decision : Decision} (hnil : decision.id = .nil)
    {f : Decision → RuntimeAct PartitionAssessment}
    (hf : ∀ d s, (f d s).2.state.decisionSequence = s.state.decisionSequence ∧
      ∀ outcome, (f d s).1 = .ok outcome → outcome.decision.bindings = d.bindings)
    (r : PartitionRuntime) : Numbers r ((finalizeDecision decision >>= f) r) := by
  rw [Act.bind_apply]
  rcases hrun : finalizeDecision decision r with ⟨e | d, s⟩
  · refine ⟨(finalizeDecision_numbers hrun).1, fun outcome houtcome => ?_⟩
    have hthrew : (Except.error e : Except PartitionError PartitionAssessment) = .ok outcome := houtcome
    cases hthrew
  · obtain ⟨hle, hnumbered⟩ := finalizeDecision_numbers hrun
    obtain ⟨hlt, hbears⟩ := hnumbered hnil d rfl
    obtain ⟨hsequence, hreports⟩ := hf d s
    show Numbers r (f d s)
    refine ⟨?_, fun outcome houtcome => ?_⟩
    · rw [hsequence]
      exact hle
    · rw [hreports outcome houtcome, hbears]
      exact ⟨hlt, hsequence.symm⟩

theorem refuseAssessment_numbers (code : ReasonCode) (subject detail : String) (clear : Bool)
    (r : PartitionRuntime) : Numbers r (refuseAssessment code subject detail clear r) := by
  unfold refuseAssessment
  rw [Act.read_bind]
  refine finalizeDecision_numbers_then rfl (fun d s => ⟨rfl, fun outcome houtcome => ?_⟩) r
  cases houtcome
  rfl

theorem publishAssessment_numbers (decision : Decision) (evaluation : AuthorityEvaluation)
    (ps : List Partition) (r : PartitionRuntime) :
    (publishAssessment decision evaluation ps r).2.state.decisionSequence
        = r.state.decisionSequence ∧
      (publishAssessment decision evaluation ps r).1.decision = decision := by
  rw [publishAssessment]
  dsimp only
  split
  · exact ⟨rfl, rfl⟩
  · exact ⟨rfl, rfl⟩

theorem assessGeneration_numbers (allowRestore : Bool) (r : PartitionRuntime) :
    Numbers r (assessGeneration allowRestore r) := by
  rw [assessGeneration, Act.read_bind]
  split
  · refine finalizeDecision_numbers_then rfl (fun d s => ⟨rfl, fun outcome houtcome => ?_⟩) r
    cases houtcome
    rfl
  · rw [Act.modify_bind]
    refine (finalizeDecision_numbers_then rfl (fun d s => ?_) _).of_sequence rfl
    rw [Act.total_bind, Act.total_apply]
    obtain ⟨hsequence, hdecision⟩ := publishAssessment_numbers d
      (r.evaluateAuthority (buildPartitions r.snapshot r.state.partitionGeneration r.lineage r.limits)
        allowRestore)
      (commitLineages d.id (r.evaluateAuthority (buildPartitions r.snapshot
        r.state.partitionGeneration r.lineage r.limits) allowRestore).partitions s).1
      (commitLineages d.id (r.evaluateAuthority (buildPartitions r.snapshot
        r.state.partitionGeneration r.lineage r.limits) allowRestore).partitions s).2
    refine ⟨hsequence.trans (commitLineages_sequence _ _ s), fun outcome houtcome => ?_⟩
    obtain rfl := Except.ok.inj houtcome
    exact congrArg Decision.bindings hdecision

/-- **An assessment that returns bears a new number.** -/
theorem assessLocked_numbers (allowRestore : Bool) (r : PartitionRuntime) :
    Numbers r (assessLocked allowRestore r) := by
  rw [assessLocked, Act.read_bind]
  split
  · exact refuseAssessment_numbers _ _ _ _ r
  split
  · exact refuseAssessment_numbers _ _ _ _ r
  rcases r.state.partitionGeneration.next with _ | generation
  · refine ⟨Nat.le_refl _, fun outcome houtcome => ?_⟩
    cases houtcome
  · show Numbers r (assessGeneration allowRestore (beginAssessment generation r))
    exact (assessGeneration_numbers allowRestore _).of_sequence rfl

/-- The last assessment bears a number that was drawn. -/
def Dated (r : PartitionRuntime) : Prop :=
  r.assessment.decision.bindings.decisionSequence.value.toNat
    ≤ r.state.decisionSequence.value.toNat

theorem Drifts.dated {r r' : PartitionRuntime} (h : Drifts r r') (hr : r.Dated) : r'.Dated := by
  obtain ⟨_, _, h⟩ := h
  rw [Dated, h.assessment]
  exact Nat.le_trans hr h.decisions

theorem assessLocked_dated {allowRestore : Bool} {r : PartitionRuntime} (h : r.Dated) :
    (assessLocked allowRestore r).2.Dated := by
  have hleaves := assessLocked_leaves allowRestore r
  obtain ⟨hle, hbears⟩ := assessLocked_numbers allowRestore r
  rcases hrun : assessLocked allowRestore r with ⟨e | outcome, r'⟩ <;>
    rw [hrun] at hleaves hle hbears
  · rw [Dated, show r'.assessment = r.assessment from hleaves]
    exact Nat.le_trans h hle
  · rw [Dated, show r'.assessment = outcome from hleaves, (hbears outcome rfl).2]

/-- **Every call** keeps the last assessment dated. -/
theorem call_dated {r : PartitionRuntime} (h : r.Dated) (c : Call) : (r.call c).2.Dated := by
  have hfaults : (r.withFaults c.faults).Dated := h
  show ((r.withFaults c.faults).perform c.operation).2.Dated
  by_cases hclose : c.operation = .close
  · rw [hclose]
    show (r.withFaults c.faults).close.Dated
    rw [close]
    split
    · exact hfaults
    · exact hfaults
  · have hphases := perform_phases (r.withFaults c.faults) hclose
    rw [Phases] at hphases
    rcases hassessing : (r.withFaults c.faults).assessing c.operation with _ | ⟨allowRestore, a⟩
    · rw [hassessing] at hphases
      exact hphases.dated hfaults
    · rw [hassessing] at hphases
      exact hphases.2.dated (assessLocked_dated (hphases.1.dated hfaults))

/-- A start assesses nothing. -/
theorem construct_dated {options : RuntimeOptions} {disk : Disk} {ids : BootIdentities}
    {faults : List (Option AppendFault)} {r : PartitionRuntime}
    (h : construct options disk ids faults = (.ok (), r)) : r.Dated := by
  obtain ⟨t, rfl⟩ := construct_initial h
  exact Nat.zero_le _

/-- **In every run** the last assessment is dated. -/
theorem after_dated {r : PartitionRuntime} (h : r.Dated) (cs : List Call) : (r.after cs).Dated := by
  induction cs generalizing r with
  | nil => exact h
  | cons c cs ih => exact ih (call_dated h c)

/-- A merge of two lineages nobody knows. -/
def unknownMerge : MergeRequest :=
  { attempt := smallAttempt 1
    expectedEpoch := ⟨1⟩
    subject := .nil
    left := named _ "a"
    right := named _ "b" }

end PartitionRuntime

end FabricPartition
