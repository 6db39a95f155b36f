import FabricPartition.Grading
import FabricPartition.Refusals

/-!
# How long an isolation lasts

An isolation is stored with the tick at which it expires: the current tick plus the duration, in 64
bits, zero standing for never.  The directive is consulted by every evaluation until it is dropped,
and only `clear_isolation` drops directives.

* `inForce_expiry_iff` — the directive covers the requested duration exactly when the sum of the two
  does not pass `2 ^ 64`.  A sum of `2 ^ 64` itself is stored as zero, which is later than asked for
  and not earlier.
* `isolation_lasts` — over a run: from an isolation whose sum stays in range on, every assessment
  within the duration isolates the lineage and authorizes nothing, up to the first `clear_isolation`
  that lifts it.

A `clear_isolation` drops its directives before it draws a decision, so one that is thrown out of has
dropped them without lifting anything.  It leaves a counter that is used up, and no assessment
returns partitions from then on: `Standing` carries this beside the directive.
-/

set_option autoImplicit false

namespace FabricPartition

/-- Is the directive in force at a tick? -/
def IsolationDirective.inForce (directive : IsolationDirective) (tick : UInt64) : Bool :=
  !(directive.expiresAtTick != 0 && decide (tick ≥ directive.expiresAtTick))

namespace PartitionRuntime

theorem isIsolated_of_mem {r : PartitionRuntime} {directive : IsolationDirective}
    (h : directive ∈ r.isolations) (hforce : directive.inForce r.state.tick = true) :
    r.isIsolated directive.lineage = true := by
  rw [isIsolated, List.any_eq_true]
  exact ⟨directive, h, by simpa [IsolationDirective.inForce] using hforce⟩

/-- The directive a request to isolate adds. -/
def isolationDirective (r : PartitionRuntime) (request : IsolationRequest) : IsolationDirective :=
  ⟨request.lineage, r.isolationExpiry request, request.cause⟩

/-- The expiry of an isolation is a tick. -/
def Expressible (r : PartitionRuntime) (request : IsolationRequest) : Prop :=
  request.durationTicks = 0 ∨ r.state.tick.toNat + request.durationTicks.toNat ≤ 2 ^ 64

/-- A tick is within the duration of a request. -/
def WithinDuration (r : PartitionRuntime) (request : IsolationRequest) (tick : UInt64) : Prop :=
  request.durationTicks = 0 ∨ tick.toNat < r.state.tick.toNat + request.durationTicks.toNat

/-- **The directive covers the requested duration exactly when its expiry is a tick**: past the
range, the expiry wraps to a tick that has gone by. -/
theorem inForce_expiry_iff (r : PartitionRuntime) (request : IsolationRequest) :
    (∀ tick, r.WithinDuration request tick → (r.isolationDirective request).inForce tick = true) ↔
      r.Expressible request := by
  by_cases hzero : request.durationTicks = 0
  · refine ⟨fun _ => .inl hzero, fun _ tick _ => ?_⟩
    simp [IsolationDirective.inForce, isolationDirective, isolationExpiry, hzero]
  have hpos : 0 < request.durationTicks.toNat := by
    rw [Nat.pos_iff_ne_zero]
    exact fun h => hzero (UInt64.toNat_inj.mp h)
  have hexpiry : (r.isolationDirective request).expiresAtTick
      = r.state.tick + request.durationTicks := by
    show r.isolationExpiry request = _
    rw [isolationExpiry, if_neg hzero]
  have hsum := UInt64.toNat_add r.state.tick request.durationTicks
  have htick := r.state.tick.toNat_lt
  have hduration := request.durationTicks.toNat_lt
  have hforce : ∀ tick, (r.isolationDirective request).inForce tick = true ↔
      (r.state.tick + request.durationTicks).toNat = 0 ∨
        tick.toNat < (r.state.tick + request.durationTicks).toNat := by
    intro tick
    rw [IsolationDirective.inForce, hexpiry]
    simp [UInt64.le_iff_toNat_le, ← UInt64.toNat_inj]
  constructor
  · intro h
    by_contra hrange
    have hover : 2 ^ 64 < r.state.tick.toNat + request.durationTicks.toNat := by
      rw [Expressible] at hrange
      omega
    have := (hforce _).mp (h r.state.tick (.inr (by omega)))
    omega
  · rintro (hd | hrange) tick hwithin
    · exact absurd hd hzero
    · rw [hforce]
      have hlt := hwithin.resolve_left hzero
      omega

/-- At the second tick, the longest duration wraps to an expiry at the first. -/
example :
    let r := { smallRuntime with state := { smallRuntime.state with tick := 2 } }
    let directive := r.isolationDirective
      { attempt := smallAttempt 1, expectedEpoch := .zero, lineage := .nil
        durationTicks := 0xFFFFFFFFFFFFFFFF }
    directive.expiresAtTick = 1 ∧ directive.inForce 2 = false := by
  decide +kernel

/-! ## Exhausted counters -/

/-- One of the counters an assessment draws from is used up. -/
def Exhausted (r : PartitionRuntime) : Prop :=
  r.state.decisionSequence.value.toNat = 2 ^ 64 - 1 ∨ r.state.partitionGeneration.next = none

/-- The computation throws only where a counter is used up. -/
def Tires {α : Type} (m : RuntimeAct α) : Prop :=
  ∀ r e r', m r = (.error e, r') → r'.Exhausted

namespace Tires

variable {α β : Type}

theorem pure (a : α) : Tires (Pure.pure a) := fun _ _ _ h => by cases h

theorem modify (f : PartitionRuntime → PartitionRuntime) : Tires (Act.modify f) :=
  fun _ _ _ h => by cases h

theorem total (f : PartitionRuntime → α × PartitionRuntime) : Tires (Act.total f) :=
  fun _ _ _ h => by cases h

theorem bind {m : RuntimeAct α} {f : α → RuntimeAct β} (hm : Tires m) (hf : ∀ a, Tires (f a)) :
    Tires (m >>= f) := by
  intro r e r' h
  rcases Act.bind_cases h with ⟨a, s, -, hs⟩ | ⟨e', he, -⟩
  · exact hf a s e r' hs
  · exact hm r e' r' he

theorem read_then {f : PartitionRuntime → RuntimeAct α} (h : ∀ r, Tires (f r)) :
    Tires (Act.read >>= f) := fun r e r' hr => h r r e r' hr

end Tires

theorem finalizeDecision_tires (decision : Decision) : Tires (finalizeDecision decision) := by
  refine .bind ?_ fun d => .total _
  intro r e r' h
  rw [assignDecisionIdentity, Act.read_bind] at h
  split at h
  · cases h
  · rcases hnext : r.state.decisionSequence.next with _ | sequence
    · rw [hnext] at h
      cases h
      exact .inl (Counter.next_eq_none hnext)
    · rw [hnext] at h
      cases h

theorem refuseAssessment_tires (code : ReasonCode) (subject detail : String) (clear : Bool) :
    Tires (refuseAssessment code subject detail clear) :=
  .read_then fun _ => .bind (finalizeDecision_tires _) fun _ => .read_then fun _ =>
    .bind (.modify _) fun _ => .pure _

theorem assessLocked_tires (allowRestore : Bool) : Tires (assessLocked allowRestore) := by
  intro r e r' h
  rw [assessLocked, Act.read_bind] at h
  split at h
  · exact refuseAssessment_tires _ _ _ _ r e r' h
  split at h
  · exact refuseAssessment_tires _ _ _ _ r e r' h
  rcases hnext : r.state.partitionGeneration.next with _ | generation
  · rw [hnext] at h
    cases h
    exact .inr hnext
  · rw [hnext] at h
    revert h
    refine (Tires.bind (.modify _) fun _ => .read_then fun s => ?_) r e r'
    split
    · exact .bind (finalizeDecision_tires _) fun _ => .bind (.modify _) fun _ => .pure _
    · exact .bind (.modify _) fun _ => .bind (finalizeDecision_tires _) fun _ =>
        .bind (.total _) fun _ => .total _

theorem finishIsolation_tires (decision : Decision) : Tires (finishIsolation decision) :=
  .bind (finalizeDecision_tires _) fun _ => .pure _

theorem concludeIsolation_tires (decision : Decision) : Tires (concludeIsolation decision) :=
  .bind (finishIsolation_tires _) fun _ => .bind (assessLocked_tires _) fun _ => .pure _

theorem Drifts.exhausted {r r' : PartitionRuntime} (h : Drifts r r') (hr : r.Exhausted) :
    r'.Exhausted := by
  obtain ⟨_, _, hdrift⟩ := h
  rcases hr with hdecisions | hgeneration
  · have hle := hdrift.decisions
    have hlt := r'.state.decisionSequence.value.toNat_lt
    exact .inl (by omega)
  · exact .inr (by rw [hdrift.generation, hgeneration])

/-- No assessment replenishes a counter. -/
theorem assessLocked_exhausted {allowRestore : Bool} {r : PartitionRuntime} (hr : r.Exhausted) :
    (assessLocked allowRestore r).2.Exhausted := by
  rcases hr with hdecisions | hgeneration
  · have hle := (assessLocked_numbers allowRestore r).1
    have hlt := (assessLocked allowRestore r).2.state.decisionSequence.value.toNat_lt
    exact .inl (by omega)
  · refine .inr ?_
    rcases assessLocked_cases (Prod.eta (assessLocked allowRestore r)).symm with
      ⟨-, s, _, ⟨_, _, _, _, _, -, rfl⟩, hafter, -⟩ | ⟨-, hsame⟩ | ⟨generation, -, -, hnext, -⟩
    · rw [hafter]
      exact hgeneration
    · rw [hsame]
      exact hgeneration
    · rw [hgeneration] at hnext
      cases hnext

/-- An assessment that returns although a counter is used up returns no partitions. -/
theorem assessLocked_of_exhausted {allowRestore : Bool} {r : PartitionRuntime} (hr : r.Exhausted)
    {outcome : PartitionAssessment} (h : (assessLocked allowRestore r).1 = .ok outcome) :
    outcome.partitions = [] := by
  rcases hr with hdecisions | hgeneration
  · have hlt := ((assessLocked_numbers allowRestore r).2 outcome h).1
    have hbound := outcome.decision.bindings.decisionSequence.value.toNat_lt
    omega
  · rcases assessLocked_cases (Prod.ext h rfl) with
      ⟨-, _, _, -, -, -, ⟨a, ha, hnil⟩ | herr⟩ | ⟨herr, -⟩ | ⟨generation, -, -, hnext, -⟩
    · cases ha
      exact hnil
    · cases herr
    · cases herr
    · rw [hgeneration] at hnext
      cases hnext

/-! ## The directives -/

/-- A directive is not dropped. -/
def Upholds (directive : IsolationDirective) (r r' : PartitionRuntime) : Prop :=
  directive ∈ r.isolations → directive ∈ r'.isolations

section Upholds

variable {directive : IsolationDirective}

theorem Upholds.refl (r : PartitionRuntime) : Upholds directive r r := id

theorem Upholds.trans (r s t : PartitionRuntime) (h : Upholds directive r s)
    (h' : Upholds directive s t) : Upholds directive r t := h' ∘ h

theorem Upholds.of_eq {r r' : PartitionRuntime} (h : r'.isolations = r.isolations) :
    Upholds directive r r' := by
  rw [Upholds, h]
  exact id

theorem Quiet.upholds {r r' : PartitionRuntime} (h : Quiet r r') : Upholds directive r r' :=
  .of_eq h.consulted.isolations

theorem Stored.upholds {type : DurableRecordType} {r r' : PartitionRuntime}
    (h : Stored type r r') : Upholds directive r r' := by
  obtain ⟨_, -, rfl⟩ := h
  exact id

theorem Fenced.upholds {sequences : List AuthoritySequence} {r r' : PartitionRuntime}
    (h : Fenced sequences r r') : Upholds directive r r' := by
  obtain ⟨_, _, _, -, -, -, rfl⟩ := h
  exact id

theorem Interrupted.upholds {ps : List Partition} {r r' : PartitionRuntime}
    (h : Interrupted ps r r') : Upholds directive r r' := by
  obtain ⟨_, _, -, -, hf⟩ := h
  exact hf.upholds

theorem finalizeDecision_upholds (decision : Decision) :
    Act.Within (Upholds directive) (finalizeDecision decision) := fun r =>
  (finalizeDecision_cases (Prod.eta (finalizeDecision decision r)).symm).1.upholds

theorem assessLocked_upholds (allowRestore : Bool) :
    Act.Within (Upholds directive) (assessLocked allowRestore) := fun r =>
  .of_eq (assessLocked_consulted (Prod.eta (assessLocked allowRestore r)).symm).isolations

theorem adoptTopology_upholds (definition : TopologyDefinition) :
    Act.Within (Upholds directive) (adoptTopology definition) := by
  intro r
  rcases adoptTopology_cases (Prod.eta (adoptTopology definition r)).symm with
    ⟨s, hst, hq, -⟩ | ⟨roster, s, -, -, hcommit, hrest⟩
  · exact .trans _ _ _ hst.upholds hq.upholds
  · have hst := commitRecord_stored .topologyDefinition (encodeTopology definition) r
    rw [hcommit] at hst
    refine .trans _ _ _ hst.upholds ?_
    rcases hrest with ⟨-, hq, -⟩ | ⟨-, qs, t, -, hint, ⟨hr', -⟩ | ⟨-, hq, -⟩⟩
    · exact hq.upholds
    · rw [hr']
      exact hint.upholds
    · exact .trans _ _ _ hint.upholds (hq.upholds)

theorem setPolicy_upholds (policy : PartitionPolicy) :
    Act.Within (Upholds directive) (setPolicy policy) := by
  intro r
  rcases setPolicy_cases (Prod.eta (setPolicy policy r)).symm with
    ⟨s, hst, hq, -⟩ | ⟨canonical, s, qs, t, -, -, hcommit, -, hint, hrest⟩
  · exact .trans _ _ _ hst.upholds hq.upholds
  · have hst := commitRecord_stored .policyDefinition (encodePolicy canonical) r
    rw [hcommit] at hst
    refine .trans _ _ _ hst.upholds (.trans _ _ _ hint.upholds ?_)
    rcases hrest with ⟨hr', -⟩ | ⟨-, hq, -⟩
    · rw [hr']
      exact .refl t
    · exact hq.upholds

theorem retire_upholds (request : RetireRequest) :
    Act.Within (Upholds directive) (retire request) := by
  intro r
  rcases retire_cases (Prod.eta (retire request r)).symm with
    ⟨⟨s, t, hq, hst, hq'⟩, -⟩ | ⟨u, v, sequences, -, hrec, -, hf, hrest⟩
  · exact .trans _ _ _ hq.upholds (.trans _ _ _ hst.upholds hq'.upholds)
  · obtain ⟨s, c, latest, decision, sequence, hq, -, -, -, hcommit, -, rfl⟩ := hrec
    have hst := commitRecord_stored .lineageRecord
      (encodeLineage (s.retireRecord latest request.lineage decision sequence)) s
    rw [hcommit] at hst
    refine .trans _ _ _ hq.upholds (.trans _ _ _ hst.upholds (.trans _ v _ hf.upholds ?_))
    rcases hrest with ⟨-, hr'⟩ | ⟨-, hq', -⟩
    · rw [hr']
      exact .refl v
    · exact hq'.upholds

theorem fenceSubject_upholds (subject : Partition) (decision : Decision) :
    Act.Within (Upholds directive) (fenceSubject subject decision) := by
  intro r
  rcases fenceSubject_cases (Prod.eta (fenceSubject subject decision r)).symm with
    ⟨_, -, -, -, hf⟩ | ⟨-, hsame⟩
  · exact hf.upholds
  · rw [hsame]
    exact .refl r

theorem issueFence_upholds (p : Partition) (sequence : AuthoritySequence) (cause : ReasonCode) :
    Act.Within (Upholds directive) (issueFence p sequence cause) := by
  intro r
  rcases issueFence_cases (Prod.eta (issueFence p sequence cause r)).symm with
    ⟨-, hf⟩ | ⟨-, hsame⟩
  · exact hf.upholds
  · rw [hsame]
    exact .refl r

theorem finishMerge_upholds (decision : Decision) :
    Act.Within (Upholds directive) (finishMerge decision) :=
  .bind Upholds.trans (finalizeDecision_upholds _) fun _ => .pure Upholds.refl _

theorem finishIsolation_upholds (decision : Decision) :
    Act.Within (Upholds directive) (finishIsolation decision) :=
  .bind Upholds.trans (finalizeDecision_upholds _) fun _ => .pure Upholds.refl _

theorem finishRevalidation_upholds (decision : Decision) (ps : List Partition)
    (restored still : List PartitionId) :
    Act.Within (Upholds directive) (finishRevalidation decision ps restored still) :=
  .bind Upholds.trans (finalizeDecision_upholds _) fun _ => .pure Upholds.refl _

/-- A write to other members. -/
theorem modify_upholds {f : PartitionRuntime → PartitionRuntime}
    (h : ∀ r, (f r).isolations = r.isolations) :
    Act.Within (Upholds directive) (Act.modify f : RuntimeAct Unit) := fun r => .of_eq (h r)

theorem mergeOpening_upholds (request : MergeRequest) (subject : Partition) (decision : Decision) :
    Act.Within (Upholds directive) (mergeOpening request subject decision) := by
  refine .read_then fun r => .bind Upholds.trans
    (fun r => (assignDecisionIdentity_cases (Prod.eta _).symm).1.upholds) fun d => .read_then fun r => ?_
  split
  · exact .bind Upholds.trans (finishMerge_upholds _) fun _ => .pure Upholds.refl _
  · refine .bind Upholds.trans (fun r => (commitRecord_stored _ _ r).upholds) fun committed => ?_
    split
    · exact .bind Upholds.trans (finishMerge_upholds _) fun _ => .pure Upholds.refl _
    · split
      · exact .bind Upholds.trans (finishMerge_upholds _) fun _ => .pure Upholds.refl _
      · refine .bind Upholds.trans (modify_upholds fun r => rfl) fun _ => ?_
        refine .bind Upholds.trans (fenceSubject_upholds _ _) fun d => ?_
        refine .bind Upholds.trans (modify_upholds fun r => rfl) fun _ => ?_
        exact .bind Upholds.trans (finalizeDecision_upholds _) fun _ => .pure Upholds.refl _

theorem requestMergeOpening_upholds (request : MergeRequest) :
    Act.Within (Upholds directive) (requestMergeOpening request) := by
  refine .read_then fun r => ?_
  dsimp only
  split
  · exact .bind Upholds.trans (finishMerge_upholds _) fun _ => .pure Upholds.refl _
  · refine .bind Upholds.trans (modify_upholds fun r => rfl) fun _ => .read_then fun r => ?_
    split
    · exact .bind Upholds.trans (finishMerge_upholds _) fun _ => .pure Upholds.refl _
    · exact mergeOpening_upholds _ _ _

theorem isolationOpening_upholds (decision : Decision) (goesOn : Bool) :
    Act.Within (Upholds directive) (isolationOpening decision goesOn) :=
  .bind Upholds.trans (finishIsolation_upholds _) fun _ => .pure Upholds.refl _

/-- An isolation adds to the directives. -/
theorem isolateOpening_upholds (request : IsolationRequest) :
    Act.Within (Upholds directive) (isolateOpening request) := by
  refine .read_then fun r => ?_
  dsimp only
  split
  · exact isolationOpening_upholds _ _
  · refine .bind Upholds.trans (modify_upholds fun r => rfl) fun _ => .read_then fun r => ?_
    split
    · exact isolationOpening_upholds _ _
    · exact .bind Upholds.trans (fun r => List.mem_append_left _) fun _ =>
        isolationOpening_upholds _ _

theorem revalidateOpening_upholds (request : RevalidationRequest) :
    Act.Within (Upholds directive) (revalidateOpening request) := by
  refine .read_then fun r => ?_
  dsimp only
  split
  · exact .bind Upholds.trans (finishRevalidation_upholds _ _ _ _) fun _ => .pure Upholds.refl _
  · refine .bind Upholds.trans (modify_upholds fun r => rfl) fun _ => .read_then fun r => ?_
    split
    · exact .bind Upholds.trans (finishRevalidation_upholds _ _ _ _) fun _ => .pure Upholds.refl _
    · exact .pure Upholds.refl _

theorem revalidatePartition_upholds (acc : Revalidation) (p : Partition) :
    Act.Within (Upholds directive) (revalidatePartition acc p) := by
  refine .read_then fun r => ?_
  split
  · exact .pure Upholds.refl _
  · split
    · exact .pure Upholds.refl _
    · exact .bind Upholds.trans (issueFence_upholds _ _ _) fun _ => .pure Upholds.refl _

theorem reassertAuthority_upholds (decision : Decision) (n : Nat) (refreshed : PartitionAssessment) :
    Act.Within (Upholds directive) (reassertAuthority decision n refreshed) := by
  refine .bind Upholds.trans
    (.forEach Upholds.refl Upholds.trans revalidatePartition_upholds _ _) fun acc => .read_then fun r => ?_
  exact .bind Upholds.trans (modify_upholds fun r => rfl) fun _ => finishRevalidation_upholds _ _ _ _

/-- A directive outlives an operation, and is there at the assessment the operation makes. -/
def UpheldBy (directive : IsolationDirective) (r : PartitionRuntime) (operation : Operation) : Prop :=
  Upholds directive r (r.perform operation).2 ∧
    ∀ allowRestore x, r.assessing operation = some (allowRestore, x) → Upholds directive r x

/-- An operation that assesses is its opening, the assessment, and what follows. -/
theorem upheldBy_of_resumes {r : PartitionRuntime} {operation : Operation} {allowRestore : Bool}
    {opening : RuntimeAct Bool}
    (hassessing : r.assessing operation = handedOver allowRestore (opening r))
    (hupholds : Upholds directive r (opening r).2)
    (hresumes : Resumes (Upholds directive) allowRestore (opening r) (r.perform operation).2) :
    UpheldBy directive r operation := by
  rw [UpheldBy, hassessing]
  rcases hopen : opening r with ⟨_ | _ | _, a⟩
  · rw [hopen] at hresumes hupholds
    rw [show (r.perform operation).2 = a from hresumes]
    exact ⟨hupholds, fun _ _ h => by cases h⟩
  · rw [hopen] at hresumes hupholds
    rw [show (r.perform operation).2 = a from hresumes]
    exact ⟨hupholds, fun _ _ h => by cases h⟩
  · rw [hopen] at hresumes hupholds
    refine ⟨.trans _ _ _ hupholds (.trans _ _ _ (assessLocked_upholds allowRestore a) hresumes), ?_⟩
    intro _ x h
    cases h
    exact hupholds

/-- An operation that does not assess. -/
theorem upheldBy_of_none {r : PartitionRuntime} {operation : Operation}
    (hnone : r.assessing operation = none) (h : Upholds directive r (r.perform operation).2) :
    UpheldBy directive r operation := ⟨h, fun _ _ hsome => by rw [hnone] at hsome; cases hsome⟩

/-- **Only `clear_isolation` drops a directive.** -/
theorem upheldBy_perform (r : PartitionRuntime) {operation : Operation}
    (h : ∀ request, operation ≠ .clearIsolation request) : UpheldBy directive r operation := by
  cases operation with
  | advanceTicks delta =>
    refine upheldBy_of_none rfl (.of_eq ?_)
    rcases advanceTicks_cases (Prod.eta (advanceTicks delta r)).symm with hsame | ⟨tick, hsame⟩
    · rw [perform, hsame]
    · rw [perform, hsame]
  | adoptTopology definition =>
    refine upheldBy_of_none rfl ?_
    rw [perform, respond_snd]
    exact adoptTopology_upholds definition r
  | setPolicy policy =>
    refine upheldBy_of_none rfl ?_
    rw [perform, respond_snd]
    exact setPolicy_upholds policy r
  | ingestEvidence evidence =>
    refine upheldBy_of_none rfl ?_
    rw [perform, respond_snd]
    rcases ingestEvidence_cases (Prod.eta (ingestEvidence evidence r)).symm with hq | hq
    · exact hq.upholds
    · exact hq.upholds
  | assess =>
    refine @upheldBy_of_resumes directive r .assess false (pure true) rfl (.refl r) ?_
    rw [perform, respond_snd]
    exact Upholds.refl _
  | requestMerge request =>
    refine upheldBy_of_resumes rfl (requestMergeOpening_upholds request r) ?_
    rw [perform, respond_snd]
    exact requestMerge_continues Upholds.refl request r
  | isolate request =>
    refine upheldBy_of_resumes rfl (isolateOpening_upholds request r) ?_
    rw [perform, respond_snd]
    exact isolate_continues Upholds.refl request r
  | clearIsolation request => exact absurd rfl (h request)
  | retire request =>
    refine upheldBy_of_none rfl ?_
    rw [perform, respond_snd]
    exact retire_upholds request r
  | revalidate request =>
    refine upheldBy_of_resumes rfl (revalidateOpening_upholds request r) ?_
    rw [perform, respond_snd]
    exact revalidate_continues Upholds.refl request (fun _ _ _ => reassertAuthority_upholds _ _ _) r
  | recordAcknowledgement ack =>
    refine upheldBy_of_none rfl ?_
    rw [perform, respond_snd]
    rcases recordAcknowledgement_cases (Prod.eta (recordAcknowledgement ack r)).symm with hq | hq
    · exact hq.upholds
    · exact hq.upholds
  | recordVerifiedEffect effect =>
    refine upheldBy_of_none rfl ?_
    rw [perform, respond_snd]
    rcases recordVerifiedEffect_cases (Prod.eta (recordVerifiedEffect effect r)).symm with hq | hq
    · exact hq.upholds
    · exact hq.upholds
  | close =>
    refine upheldBy_of_none rfl (.of_eq ?_)
    rw [perform, close]
    split <;> rfl

theorem clearIsolationOpening_upholds {request : IsolationRequest}
    (hother : directive.lineage ≠ request.lineage) :
    Act.Within (Upholds directive) (clearIsolationOpening request) := by
  have hkept : ∀ r : PartitionRuntime, Upholds directive r { r with
      isolations := r.isolations.filter fun d => d.lineage != request.lineage } := fun r hmem =>
    List.mem_filter.mpr ⟨hmem, by simpa using hother⟩
  refine .read_then fun r => ?_
  dsimp only
  split
  · exact isolationOpening_upholds _ _
  · refine .bind Upholds.trans (modify_upholds fun r => rfl) fun _ s => ?_
    rw [Act.read_bind]
    rcases s.epochRefusal request.expectedEpoch request.lineage.text _ with _ | refused
    · refine .trans _ _ _ (hkept s) ?_
      dsimp only
      rw [Act.modify_bind]
      split
      · exact isolationOpening_upholds _ _ _
      · exact isolationOpening_upholds _ _ _
    · exact isolationOpening_upholds _ _ s

/-- A `clear_isolation` drops a directive only if it is about to lift it. -/
theorem clearIsolation_drops (directive : IsolationDirective) (request : IsolationRequest)
    (r : PartitionRuntime) :
    Upholds directive r (clearIsolationOpening request r).2 ∨
      directive.lineage = request.lineage ∧ ∃ decision s, decision.verdict = .granted ∧
        clearIsolation request r = concludeIsolation decision s ∧
        clearIsolationOpening request r = isolationOpening decision true s := by
  by_cases hother : directive.lineage ≠ request.lineage
  · exact .inl (clearIsolationOpening_upholds hother r)
  rw [not_not] at hother
  rw [clearIsolation, clearIsolationOpening, Act.read_bind, Act.read_bind]
  dsimp only
  rcases r.admissionCheck request.attempt _ with _ | refused
  · simp only [Act.modify_bind, Act.read_bind]
    rcases epochRefusal _ request.expectedEpoch request.lineage.text _ with _ | refused
    · simp only [Act.modify_bind]
      split
      · rename_i hkept
        exact .inl fun hmem => absurd hother (keptIsolations.mp hkept directive hmem)
      · exact .inr ⟨hother, _, _, rfl, rfl, rfl⟩
    · exact .inl (.trans _ _ _ (recordAttempt_quiet request.attempt .isolateComponents r).upholds
        (isolationOpening_upholds refused false _))
  · exact .inl (isolationOpening_upholds refused false r)

/-- **A `clear_isolation` that does not lift the directive** upholds it, or is thrown out of: then a
counter is used up, and its assessment does not return. -/
theorem clearIsolation_spares {request : IsolationRequest} {r : PartitionRuntime}
    (hgrants : directive.lineage = request.lineage →
      ∀ outcome, (clearIsolation request r).1 = .ok outcome → outcome.verdict ≠ .granted) :
    UpheldBy directive r (.clearIsolation request) ∨
      (clearIsolation request r).2.Exhausted ∧ ∀ allowRestore x outcome,
        r.assessing (.clearIsolation request) = some (allowRestore, x) →
          (assessLocked allowRestore x).1 ≠ .ok outcome := by
  rcases clearIsolation_drops directive request r with
    hupholds | ⟨hlineage, decision, s, hgranted, hmethod, hopening⟩
  · refine .inl (upheldBy_of_resumes rfl hupholds ?_)
    rw [perform, respond_snd]
    exact clearIsolation_continues Upholds.refl request r
  · replace hgrants := hgrants hlineage
    rw [hmethod] at hgrants ⊢
    refine .inr ⟨?_, fun allowRestore x outcome hassessing hok => ?_⟩
    · rcases hrun : concludeIsolation decision s with ⟨e | outcome, t⟩
      · exact concludeIsolation_tires decision s e t hrun
      · refine absurd ?_ (hgrants outcome (by rw [hrun]))
        rw [(concludeIsolation_ok hrun).1, hgranted]
    · have hhanded : handedOver false (isolationOpening decision true s) = some (allowRestore, x) := by
        rw [← hopening]
        exact hassessing
      rw [isolationOpening, Act.bind_apply] at hhanded
      rcases hfinish : finishIsolation decision s with ⟨e | finished, t⟩
      · rw [hfinish] at hhanded
        cases hhanded
      · rw [hfinish] at hhanded
        cases hhanded
        refine hgrants finished ?_ (by rw [(finishIsolation_cases hfinish).2 _ rfl, hgranted])
        rw [concludeIsolation, Act.bind_apply, hfinish]
        show ((assessLocked false >>= fun _ => pure finished : RuntimeAct _) x).1 = _
        rw [Act.bind_apply]
        revert hok
        rcases assessLocked false x with ⟨e | outcome, u⟩
        · exact fun hok => by cases hok
        · exact fun _ => rfl

theorem isolateCheck_verdict {r : PartitionRuntime} {request : IsolationRequest}
    {decision refused : Decision} (h : r.isolateCheck request decision = some refused) :
    refused.verdict ≠ .isolated := by
  rw [isolateCheck, epochRefusal] at h
  split at h
  · cases h
    simp [conclude, explain]
  · rw [Option.none_or] at h
    split at h
    · cases h
      simp [conclude, explain]
    · split at h
      · cases h
        simp [conclude, explain]
      · cases h

/-- An opening hands over the state it ends in. -/
theorem handedOver_eq {allowRestore flag : Bool} {x : PartitionRuntime}
    {opening : Except PartitionError Bool × PartitionRuntime}
    (h : handedOver allowRestore opening = some (flag, x)) : x = opening.2 := by
  obtain ⟨_ | _ | _, a⟩ := opening
  · cases h
  · cases h
  · cases h
    rfl

/-- **A successful `isolate` adds its directive** before it assesses. -/
theorem isolate_adds {request : IsolationRequest} {r r' : PartitionRuntime}
    {outcome : IsolationOutcome} (h : isolate request r = (.ok outcome, r'))
    (hverdict : outcome.verdict = .isolated) :
    r.isolationDirective request ∈ r'.isolations ∧
      ∀ allowRestore x, r.assessing (.isolate request) = some (allowRestore, x) →
        r.isolationDirective request ∈ x.isolations := by
  have hopening : r.assessing (.isolate request) = handedOver false (isolateOpening request r) := rfl
  rw [hopening]
  rw [isolate, Act.read_bind] at h
  rw [isolateOpening, Act.read_bind]
  dsimp only at h ⊢
  rcases hadm : r.admissionCheck request.attempt
      (r.makeDecision .isolateComponents .invalid fabricScope) with _ | refused
  · simp only [hadm] at h
    rw [Act.modify_bind, Act.read_bind] at h
    dsimp only
    rw [Act.modify_bind, Act.read_bind]
    rcases hcheck : (recordAttempt request.attempt .isolateComponents r).isolateCheck request
        (r.makeDecision .isolateComponents .invalid fabricScope) with _ | refused
    · simp only [hcheck] at h
      rw [Act.modify_bind] at h
      dsimp only
      rw [Act.modify_bind]
      have hadded : r.isolationDirective request ∈ r.isolations ++ [r.isolationDirective request] :=
        List.mem_append_right _ List.mem_cons_self
      refine ⟨?_, fun allowRestore x hx => ?_⟩
      · obtain ⟨-, s, assessment, hq, -, hassess⟩ := concludeIsolation_ok h
        rw [(assessLocked_consulted hassess).isolations]
        exact hq.upholds hadded
      · rw [handedOver_eq hx]
        exact isolationOpening_upholds _ true _ hadded
    · rw [hcheck] at h
      have hv := (finishIsolation_cases h).2 outcome rfl
      exact absurd (hv.symm.trans hverdict) (isolateCheck_verdict hcheck)
  · rw [hadm] at h
    have hv := (finishIsolation_cases h).2 outcome rfl
    rw [admissionCheck_verdict rfl hadm, hverdict] at hv
    cases hv

end Upholds

/-! ## What an isolated lineage is given -/

/-- **An isolated lineage is given nothing.** -/
theorem isolated_of_isIsolated {allowRestore : Bool} {x x' : PartitionRuntime}
    {outcome : PartitionAssessment} (h : assessLocked allowRestore x = (.ok outcome, x'))
    {lineage : LineageId} (hisolated : x.isIsolated lineage = true) {p : Partition}
    (hp : p ∈ outcome.partitions) (hlineage : p.lineage = lineage) :
    p.authority.authorityClass = .isolated ∧ p.authority.authorized = .none := by
  rcases assessLocked_graded h with hnil | ⟨hgraded, -⟩
  · rw [hnil] at hp
    cases hp
  · have hg := hgraded p hp
    have hpre : x.resolved.preliminaryClass allowRestore p = .isolated := by
      have hresolved : x.resolved.isIsolated p.lineage = true := by
        rw [hlineage]
        exact hisolated
      rw [preliminaryClass_eq, hresolved, Bool.true_or, if_pos rfl]
    have hclass : p.authority.authorityClass = .isolated := by
      rw [hg.authorityClass, finalClass, demoted, hpre]
      simp
    refine ⟨hclass, ?_⟩
    rcases hg.authorized with hauthorized | hauthorized
    · rw [hauthorized, hclass]
      rfl
    · exact hauthorized

end PartitionRuntime

/-! ## Runs -/

/-- Does the response report an isolation in force? -/
def Response.isolates : Response → Bool
  | .isolation outcome => outcome.verdict == .isolated
  | _ => false

/-- Does the response report that isolations were lifted? -/
def Response.lifts : Response → Bool
  | .isolation outcome => outcome.verdict == .granted
  | _ => false

/-- The step is a granted `clear_isolation` that names the lineage. -/
def Step.Lifts (s : Step) (lineage : LineageId) : Prop :=
  (∃ request, s.call.operation = .clearIsolation request ∧ request.lineage = lineage) ∧
    s.response.lifts = true

/-- The step makes an assessment, in a runtime and with an outcome. -/
def Step.Assesses (s : Step) (x : PartitionRuntime) (outcome : PartitionAssessment) : Prop :=
  ∃ allowRestore,
    (s.before.withFaults s.call.faults).assessing s.call.operation = some (allowRestore, x) ∧
      (PartitionRuntime.assessLocked allowRestore x).1 = .ok outcome

namespace PartitionRuntime

theorem call_exhausted {r : PartitionRuntime} (hr : r.Exhausted) (c : Call) :
    (r.call c).2.Exhausted ∧ ∀ allowRestore x,
      (r.withFaults c.faults).assessing c.operation = some (allowRestore, x) → x.Exhausted := by
  have hfaults : (r.withFaults c.faults).Exhausted := hr
  rw [call]
  generalize r.withFaults c.faults = b at hfaults ⊢
  generalize c.operation = operation
  by_cases hclose : operation = .close
  · subst hclose
    refine ⟨?_, fun _ _ h => by cases h⟩
    rw [perform, close]
    split
    · exact hfaults
    · exact hfaults
  · have hphases := perform_phases b hclose
    rw [Phases] at hphases
    rcases hassessing : b.assessing operation with _ | ⟨allowRestore, a⟩
    · rw [hassessing] at hphases
      exact ⟨hphases.exhausted hfaults, fun _ _ h => by cases h⟩
    · rw [hassessing] at hphases
      have ha := hphases.1.exhausted hfaults
      refine ⟨hphases.2.exhausted (assessLocked_exhausted ha), fun _ _ h => ?_⟩
      cases h
      exact ha

/-- The directive is there, or a counter is used up and no assessment returns partitions. -/
def Standing (directive : IsolationDirective) (r : PartitionRuntime) : Prop :=
  directive ∈ r.isolations ∨ r.Exhausted

/-- **One step**: a directive stands until a `clear_isolation` lifts it. -/
theorem step_standing {directive : IsolationDirective} {s : Step}
    (hstep : (s.response, s.after) = s.before.call s.call) (h : Standing directive s.before)
    (hlifts : ¬ s.Lifts directive.lineage) :
    Standing directive s.after ∧ ∀ x outcome, s.Assesses x outcome →
      outcome.partitions = [] ∨ directive ∈ x.isolations := by
  obtain ⟨r, c, response, r'⟩ := s
  obtain ⟨hresponse, hafter⟩ := Prod.ext_iff.mp hstep
  dsimp only at hresponse hafter h hlifts ⊢
  rcases h with hmem | hexhausted
  · have hupheld : UpheldBy directive (r.withFaults c.faults) c.operation ∨
        r'.Exhausted ∧ ∀ allowRestore x outcome,
          (r.withFaults c.faults).assessing c.operation = some (allowRestore, x) →
            (assessLocked allowRestore x).1 ≠ .ok outcome := by
      by_cases hclear : ∃ request, c.operation = .clearIsolation request
      · obtain ⟨request, hoperation⟩ := hclear
        rw [call, hoperation, perform] at hresponse hafter
        rw [hafter, hoperation, respond_snd]
        refine clearIsolation_spares fun hlineage outcome hok hgranted => ?_
        refine hlifts ⟨⟨request, hoperation, hlineage.symm⟩, ?_⟩
        rcases hrun : clearIsolation request (r.withFaults c.faults) with ⟨res, t⟩
        rw [hrun] at hok
        obtain rfl : res = .ok outcome := hok
        rw [hresponse, respond, hrun]
        show (outcome.verdict == .granted) = true
        rw [hgranted]
        rfl
      · exact .inl (upheldBy_perform _ fun request hoperation => hclear ⟨request, hoperation⟩)
    rcases hupheld with hupheld | ⟨hexhausted, hnone⟩
    · rw [hafter]
      refine ⟨.inl (hupheld.1 hmem), ?_⟩
      rintro x outcome ⟨allowRestore, hx, -⟩
      exact .inr (hupheld.2 _ _ hx hmem)
    · refine ⟨.inr hexhausted, ?_⟩
      rintro x outcome ⟨allowRestore, hx, hok⟩
      exact absurd hok (hnone _ _ _ hx)
  · obtain ⟨hcall, hassessing⟩ := call_exhausted hexhausted c
    rw [hafter]
    refine ⟨.inr hcall, ?_⟩
    rintro x outcome ⟨allowRestore, hx, hok⟩
    exact .inl (assessLocked_of_exhausted (hassessing _ _ hx) hok)

/-- **A run**: a directive stands through the steps that do not lift it. -/
theorem trace_standing {directive : IsolationDirective} {r : PartitionRuntime} {cs : List Call}
    (h : Standing directive r) {earlier later : List Step} {s : Step}
    (htrace : r.trace cs = earlier ++ s :: later)
    (hlifts : ∀ u ∈ earlier ++ [s], ¬ u.Lifts directive.lineage) :
    ∀ x outcome, s.Assesses x outcome → outcome.partitions = [] ∨ directive ∈ x.isolations := by
  induction earlier generalizing r cs with
  | nil =>
    rcases cs with _ | ⟨c, cs⟩
    · cases htrace
    · obtain ⟨rfl, -⟩ := List.cons.inj htrace
      exact (step_standing rfl h (hlifts _ (by simp))).2
  | cons u earlier ih =>
    rcases cs with _ | ⟨c, cs⟩
    · cases htrace
    · obtain ⟨rfl, hrest⟩ := List.cons.inj htrace
      have hafter := (step_standing rfl h (hlifts _ List.mem_cons_self)).1
      exact ih hafter hrest fun v hv => hlifts v (List.mem_cons_of_mem _ hv)

/-- **An isolation lasts as long as requested**: in every run that begins with it, every assessment
within the duration, up to the first step that lifts it, gives every partition of the lineage the
class isolated and no capability. -/
def IsolationLasts (r : PartitionRuntime) (request : IsolationRequest)
    (faults : List (Option AppendFault)) : Prop :=
  ∀ (cs : List Call) (earlier later : List Step) (s : Step) (x : PartitionRuntime)
    (assessment : PartitionAssessment),
    r.trace (⟨.isolate request, faults⟩ :: cs) = earlier ++ s :: later →
    (∀ u ∈ earlier ++ [s], ¬ u.Lifts request.lineage) → s.Assesses x assessment →
    r.WithinDuration request x.state.tick →
    ∀ p ∈ assessment.partitions, p.lineage = request.lineage →
      p.authority.authorityClass = .isolated ∧ p.authority.authorized = .none

theorem isolation_lasts {r : PartitionRuntime} {request : IsolationRequest}
    {faults : List (Option AppendFault)}
    (hisolates : (r.call ⟨.isolate request, faults⟩).1.isolates = true)
    (hexpressible : r.Expressible request) : r.IsolationLasts request faults := by
  intro cs earlier later s x assessment htrace hlifts hassesses hwithin p hp hlineage
  -- the directive is there when the assessment of the step begins, unless it returns nothing
  have hstanding : assessment.partitions = [] ∨ r.isolationDirective request ∈ x.isolations := by
    obtain ⟨outcome, houtcome, hverdict⟩ : ∃ outcome,
        (r.call ⟨.isolate request, faults⟩).1 = .isolation outcome ∧ outcome.verdict = .isolated := by
      revert hisolates
      rcases (r.call ⟨.isolate request, faults⟩).1 with _ | _ | _ | _ | outcome | _ | _ | _ <;>
        simp [Response.isolates]
    have hrun : isolate request (r.withFaults faults)
        = (.ok outcome, (r.call ⟨.isolate request, faults⟩).2) :=
      respond_ok (fun _ _ h => by cases h; rfl) (fun _ _ h => by cases h) houtcome
    obtain ⟨hafter, hassessing⟩ := isolate_adds hrun hverdict
    rcases earlier with _ | ⟨u, earlier⟩
    · obtain ⟨rfl, -⟩ := List.cons.inj htrace
      obtain ⟨allowRestore, hx, -⟩ := hassesses
      exact .inr (hassessing _ _ hx)
    · obtain ⟨-, hrest⟩ := List.cons.inj htrace
      exact trace_standing (.inl hafter) hrest
        (fun v hv => hlifts v (List.mem_cons_of_mem _ hv)) x assessment hassesses
  rcases hstanding with hnil | hmem
  · rw [hnil] at hp
    cases hp
  · have hforce := (inForce_expiry_iff r request).mpr hexpressible x.state.tick hwithin
    obtain ⟨allowRestore, -, hok⟩ := hassesses
    exact isolated_of_isIsolated (Prod.ext hok rfl) (isIsolated_of_mem hmem hforce) hp hlineage

/-- The fabric found apart, some ticks on. -/
def partedAt (ticks : UInt64) : PartitionRuntime :=
  smallRuntime.after (⟨.advanceTicks ticks, []⟩ :: partingUnder singlePolicy)

/-- The longest duration, requested five ticks into the incarnation, has expired at once. -/
theorem longest_isolation_expires :
    let r := partedAt 5
    let request := isolateFirst 1 0xFFFFFFFFFFFFFFFF r
    (r.call ⟨.isolate request, []⟩).1.isolates = true ∧ ¬ r.IsolationLasts request [] := by
  intro r request
  generalize hcall : r.call ⟨.isolate request, []⟩ = after
  have hrun : after.1.isolates = true ∧ request.durationTicks.toNat = 0xFFFFFFFFFFFFFFFF ∧
      0 < r.state.tick.toNat ∧
      ∃ outcome ∈ (assess (after.2.withFaults [])).1.toOption,
        ∃ p ∈ outcome.partitions, p.lineage = request.lineage ∧
          p.authority.authorityClass ≠ .isolated := by
    rw [← hcall]
    decide +kernel
  clear_value request r
  obtain ⟨hisolates, hduration, htick, outcome, hmem, p, hp, hlineage, hclass⟩ := hrun
  refine ⟨hisolates, fun hlasts => ?_⟩
  -- a request to assess follows, in the same tick
  generalize hassess : after.2.call ⟨.assess, []⟩ = assessed
  have htrace : r.trace [⟨.isolate request, []⟩, ⟨.assess, []⟩]
      = [⟨r, ⟨.isolate request, []⟩, after.1, after.2⟩,
        ⟨after.2, ⟨.assess, []⟩, assessed.1, assessed.2⟩] := by
    rw [trace, trace, hcall, hassess, trace]
  refine hclass (hlasts [⟨.assess, []⟩] [⟨r, ⟨.isolate request, []⟩, after.1, after.2⟩] []
    ⟨after.2, ⟨.assess, []⟩, assessed.1, assessed.2⟩ (after.2.withFaults []) outcome htrace ?_
    ⟨false, rfl, eq_ok_of_mem_toOption hmem⟩ (.inr ?_) p hp hlineage).1
  · intro u hu
    simp only [List.cons_append, List.nil_append, List.mem_cons, List.not_mem_nil, or_false] at hu
    rcases hu with rfl | rfl
    · rintro ⟨⟨_, hop, -⟩, -⟩
      cases hop
    · rintro ⟨⟨_, hop, -⟩, -⟩
      cases hop
  · have hlt := (after.2.withFaults []).state.tick.toNat_lt
    omega

theorem brief_isolation_lasts :
    let r := partedAt 5
    r.IsolationLasts (isolateFirst 1 7 r) [] ∧
      ∃ outcome ∈ (assess (r.call ⟨.isolate (isolateFirst 1 7 r), []⟩).2).1.toOption,
        ∃ p ∈ outcome.partitions, p.authority.authorityClass = .isolated := by
  intro r
  have hisolates : (r.call ⟨.isolate (isolateFirst 1 7 r), []⟩).1.isolates = true := by
    decide +kernel
  have hexpressible : r.Expressible (isolateFirst 1 7 r) := by
    refine .inr ?_
    decide +kernel
  refine ⟨isolation_lasts hisolates hexpressible, ?_⟩
  decide +kernel

end PartitionRuntime

end FabricPartition
