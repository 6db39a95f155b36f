import FabricPartition.Decomposition
import FabricPartition.Run

/-!
# A verified effect never outruns its acknowledgement

The subject of a grant may report that it applied it, and an observer may confirm that it took effect.
Both reports go to tables that only grow, `record_acknowledgement` and `record_verified_effect` being
the only methods that write them (`call_reports`).  What these two check of a report is what holds of
the tables in every run (`effects_acknowledged`).

The reports name a partition by its identity, and `application_state` looks them up by it.  A partition
of another assessment has another generation, so that another preimage is hashed into its identity:
unless the digests of two of them collide, a report is never taken for one about it.
-/

set_option autoImplicit false

namespace FabricPartition

namespace PartitionRuntime

/-! ## What the two reports are checked for -/

/-- The acknowledgement is of the attempt and the partition of the effect, and accepts. -/
def Acknowledges (ack : AuthorityAcknowledgement) (effect : VerifiedEffect) : Prop :=
  ack.attempt = effect.attempt ∧ ack.partition = effect.partition ∧ ack.accepted = true

/-- Two acknowledgements of one attempt and one partition. -/
def SameAck (ack ack' : AuthorityAcknowledgement) : Prop :=
  ack.attempt = ack'.attempt ∧ ack.partition = ack'.partition

/-- Two effects of one attempt and one partition. -/
def SameEffect (effect effect' : VerifiedEffect) : Prop :=
  effect.attempt = effect'.attempt ∧ effect.partition = effect'.partition

/-- The partition of the acknowledgement is there, there is room for it and none like it yet. -/
structure TakesAck (r : PartitionRuntime) (ack : AuthorityAcknowledgement) (p : Partition) :
    Prop where
  subject : r.partitionById ack.partition = some p
  fresh : ∀ existing ∈ r.acknowledgements, ¬ SameAck existing ack
  room : r.acknowledgements.length < r.limits.maxAttemptRecords

/-- The effect is acknowledged and within what its partition is authorised to do, there is room for it
and none like it yet. -/
structure TakesEffect (r : PartitionRuntime) (effect : VerifiedEffect) (p : Partition) : Prop where
  subject : r.partitionById effect.partition = some p
  acknowledged : ∃ ack ∈ r.acknowledgements, Acknowledges ack effect
  authorized : p.authority.authorized.containsAll effect.confirmed = true
  fresh : ∀ existing ∈ r.verifiedEffects, ¬ SameEffect existing effect
  room : r.verifiedEffects.length < r.limits.maxAttemptRecords

theorem acknowledgementCheck_none {r : PartitionRuntime} {ack : AuthorityAcknowledgement}
    {decision : Decision} (h : r.acknowledgementCheck ack decision = none) :
    ∃ p, r.TakesAck ack p := by
  rw [acknowledgementCheck] at h
  split at h
  · cases h
  split at h
  · cases h
  rename_i p hsubject
  split at h
  · cases h
  split at h
  · cases h
  rename_i hfresh
  split at h
  · cases h
  split at h
  · cases h
  rename_i hroom
  refine ⟨p, hsubject,
    fun existing hmem hsame => hfresh (List.any_eq_true.mpr ⟨existing, hmem, ?_⟩), by omega⟩
  rw [hsame.1, hsame.2, beq_self_eq_true, beq_self_eq_true]
  rfl

theorem effectCheck_none {r : PartitionRuntime} {effect : VerifiedEffect} {decision : Decision}
    (h : r.effectCheck effect decision = none) : ∃ p, r.TakesEffect effect p := by
  rw [effectCheck] at h
  split at h
  · cases h
  split at h
  · cases h
  rename_i p hsubject
  split at h
  · cases h
  rename_i hacknowledged
  split at h
  · cases h
  rename_i hauthorized
  split at h
  · cases h
  rename_i hfresh
  split at h
  · cases h
  rename_i hroom
  rw [Bool.not_eq_true', Bool.not_eq_false, List.any_eq_true] at hacknowledged
  obtain ⟨ack, hack, heq⟩ := hacknowledged
  simp only [Bool.and_eq_true, beq_iff_eq] at heq
  refine ⟨p, hsubject, ⟨ack, hack, heq.1.1, heq.1.2, heq.2⟩, by simpa using hauthorized,
    fun existing hmem hsame => hfresh (List.any_eq_true.mpr ⟨existing, hmem, ?_⟩), by omega⟩
  rw [hsame.1, hsame.2, beq_self_eq_true, beq_self_eq_true]
  rfl

/-! ## Who writes the tables -/

/-- The two tables, and the options that bound them. -/
def reports (r : PartitionRuntime) :=
  (r.options, r.acknowledgements, r.verifiedEffects)

theorem Quiet.reports {r r' : PartitionRuntime} (h : Quiet r r') : r'.reports = r.reports := by
  obtain ⟨_, _, _, _, _, -, rfl⟩ := h
  rfl

theorem finalizeDecision_reports (decision : Decision) (r : PartitionRuntime) :
    (finalizeDecision decision r).2.reports = r.reports :=
  (finalizeDecision_cases (Prod.eta (finalizeDecision decision r)).symm).1.reports

theorem Stored.reports {type : DurableRecordType} {r r' : PartitionRuntime} (h : Stored type r r') :
    r'.reports = r.reports := by
  obtain ⟨_, -, rfl⟩ := h
  rfl

theorem Fenced.reports {sequences : List AuthoritySequence} {r r' : PartitionRuntime}
    (h : Fenced sequences r r') : r'.reports = r.reports := by
  obtain ⟨_, _, _, -, -, -, rfl⟩ := h
  rfl

theorem Interrupted.reports {ps : List Partition} {r r' : PartitionRuntime}
    (h : Interrupted ps r r') : r'.reports = r.reports := by
  obtain ⟨_, _, -, -, hf⟩ := h
  exact hf.reports

theorem commitRecord_reports {type : DurableRecordType} {payload : Bytes} {r s : PartitionRuntime}
    {committed : Bool} (h : commitRecord type payload r = (committed, s)) :
    s.reports = r.reports := by
  have hstored := commitRecord_stored type payload r
  rw [h] at hstored
  exact hstored.reports

theorem MergeRecorded.reports {request : MergeRequest} {subject : Partition}
    {r u : PartitionRuntime} (h : MergeRecorded request subject r u) : u.reports = r.reports := by
  obtain ⟨s, c, _, _, hq, -, hcommit, -, rfl⟩ := h
  exact (commitRecord_reports hcommit).trans hq.reports

theorem RetireRecorded.reports {request : RetireRequest} {r u : PartitionRuntime}
    (h : RetireRecorded request r u) : u.reports = r.reports := by
  obtain ⟨s, c, _, _, _, hq, -, -, -, hcommit, -, rfl⟩ := h
  exact (commitRecord_reports hcommit).trans hq.reports

theorem assessLocked_reports {allowRestore : Bool} {r r' : PartitionRuntime}
    {res : Except PartitionError PartitionAssessment}
    (h : assessLocked allowRestore r = (res, r')) : r'.reports = r.reports := by
  rcases assessLocked_cases h with ⟨-, s, assessment, hq, rfl, -⟩ | ⟨-, rfl⟩ |
    ⟨generation, -, -, -, ⟨-, hq⟩ | ⟨outcome, -, hs⟩⟩
  · exact hq.reports
  · rfl
  · exact hq.reports
  · obtain ⟨-, -, _, _, _, _, _, _, _, _, _, -, rfl⟩ := hs.cases
    rfl

theorem Reassessed.reports {r r' : PartitionRuntime} (h : Reassessed r r') :
    r'.reports = r.reports := by
  obtain ⟨isolations, s, hq, rfl | ⟨res, ha⟩⟩ := h
  · exact hq.reports
  · exact (assessLocked_reports ha).trans hq.reports

theorem adoptTopology_reports (definition : TopologyDefinition) (r : PartitionRuntime) :
    (adoptTopology definition r).2.reports = r.reports := by
  rcases adoptTopology_cases (Prod.eta (adoptTopology definition r)).symm with
    ⟨s, hst, hq, -⟩ | ⟨roster, s, -, -, hcommit, hrest⟩
  · exact hq.reports.trans hst.reports
  · have hs := commitRecord_reports hcommit
    rcases hrest with ⟨-, hq, -⟩ | ⟨-, qs, t, -, hint, ⟨hr', -⟩ | ⟨-, hq, -⟩⟩
    · exact hq.reports.trans hs
    · rw [hr']
      exact hint.reports.trans hs
    · exact hq.reports.trans (hint.reports.trans hs)

theorem setPolicy_reports (policy : PartitionPolicy) (r : PartitionRuntime) :
    (setPolicy policy r).2.reports = r.reports := by
  rcases setPolicy_cases (Prod.eta (setPolicy policy r)).symm with
    ⟨s, hst, hq, -⟩ | ⟨canonical, s, qs, t, -, -, hcommit, -, hint, ⟨hr', -⟩ | ⟨-, hq, -⟩⟩
  · exact hq.reports.trans hst.reports
  · rw [hr']
    exact hint.reports.trans (commitRecord_reports hcommit)
  · exact hq.reports.trans (hint.reports.trans (commitRecord_reports hcommit))

theorem requestMerge_reports (request : MergeRequest) (r : PartitionRuntime) :
    (requestMerge request r).2.reports = r.reports := by
  rcases requestMerge_cases (Prod.eta (requestMerge request r)).symm with
    ⟨⟨s, t, hq, hst, hq'⟩, -⟩ | ⟨subject, u, -, -, hu, ⟨-, hr'⟩ | ⟨s, t, _, hf, hq, ha, -⟩⟩
  · exact hq'.reports.trans (hst.reports.trans hq.reports)
  · rw [hr']
    exact hu.reports
  · exact (assessLocked_reports ha).trans (hq.reports.trans (hf.reports.trans hu.reports))

theorem retire_reports (request : RetireRequest) (r : PartitionRuntime) :
    (retire request r).2.reports = r.reports := by
  rcases retire_cases (Prod.eta (retire request r)).symm with
    ⟨⟨s, t, hq, hst, hq'⟩, -⟩ | ⟨u, v, _, -, hu, -, hf, ⟨-, hr'⟩ | ⟨-, hq, -⟩⟩
  · exact hq'.reports.trans (hst.reports.trans hq.reports)
  · rw [hr']
    exact hf.reports.trans hu.reports
  · exact hq.reports.trans (hf.reports.trans hu.reports)

theorem revalidate_reports (request : RevalidationRequest) (r : PartitionRuntime) :
    (revalidate request r).2.reports = r.reports := by
  rcases revalidate_cases (Prod.eta (revalidate request r)).symm with
    ⟨hq, -⟩ | ⟨s, t, _, -, -, hq, ha, ⟨_, -, -, hr'⟩ |
      ⟨refreshed, _, u, -, -, hf, ⟨-, hr'⟩ | ⟨hq', -⟩⟩⟩
  · exact hq.reports
  all_goals have hassessed := (assessLocked_reports ha).trans hq.reports
  · rw [hr']
    exact hassessed
  · rw [hr']
    exact hf.reports.trans hassessed
  · exact hq'.reports.trans (hf.reports.trans hassessed)

/-- What an operation does to the tables: nothing, or it adds the report it was given, checked. -/
inductive Reports (r : PartitionRuntime) (r' : PartitionRuntime) : Operation → Prop
  | none {operation : Operation} (h : r'.reports = r.reports) : Reports r r' operation
  | acknowledged {ack : AuthorityAcknowledgement} {p : Partition} (htakes : r.TakesAck ack p)
      (h : r'.reports = (r.options, r.acknowledgements ++ [ack], r.verifiedEffects)) :
      Reports r r' (.recordAcknowledgement ack)
  | verified {effect : VerifiedEffect} {p : Partition} (htakes : r.TakesEffect effect p)
      (h : r'.reports = (r.options, r.acknowledgements, r.verifiedEffects ++ [effect])) :
      Reports r r' (.recordVerifiedEffect effect)

theorem recordAcknowledgement_reports (ack : AuthorityAcknowledgement) (r : PartitionRuntime) :
    Reports r (recordAcknowledgement ack r).2 (.recordAcknowledgement ack) := by
  rw [recordAcknowledgement, Act.read_bind]
  rcases hcheck : r.acknowledgementCheck ack
      (r.makeDecision .acknowledgeAuthority .invalid (partitionScope ack.partition)) with _ | refused
  · dsimp only
    rw [Act.modify_bind]
    obtain ⟨p, htakes⟩ := acknowledgementCheck_none hcheck
    exact .acknowledged htakes (finalizeDecision_reports _ _)
  · exact .none (finalizeDecision_reports _ _)

theorem recordVerifiedEffect_reports (effect : VerifiedEffect) (r : PartitionRuntime) :
    Reports r (recordVerifiedEffect effect r).2 (.recordVerifiedEffect effect) := by
  rw [recordVerifiedEffect, Act.read_bind]
  rcases hcheck : r.effectCheck effect
      (r.makeDecision .verifyEffect .invalid (partitionScope effect.partition)) with _ | refused
  · dsimp only
    rw [Act.modify_bind]
    obtain ⟨p, htakes⟩ := effectCheck_none hcheck
    exact .verified htakes (finalizeDecision_reports _ _)
  · exact .none (finalizeDecision_reports _ _)

/-- **Only the two reporting methods write the tables.** -/
theorem perform_reports (r : PartitionRuntime) (operation : Operation) :
    Reports r (r.perform operation).2 operation := by
  rcases operation with delta | definition | policy | evidence | _ | request | request | request |
    request | request | ack | effect | _
  · rw [perform]
    rcases advanceTicks_cases (Prod.eta (advanceTicks delta r)).symm with h | ⟨tick, h⟩ <;> rw [h] <;>
      exact .none rfl
  · rw [perform, respond_snd]
    exact .none (adoptTopology_reports definition r)
  · rw [perform, respond_snd]
    exact .none (setPolicy_reports policy r)
  · rw [perform, respond_snd]
    rcases ingestEvidence_cases (Prod.eta (ingestEvidence evidence r)).symm with hq | hq <;>
      exact .none hq.reports
  · rw [perform, respond_snd]
    exact .none (assessLocked_reports (Prod.eta (assess r)).symm)
  · rw [perform, respond_snd]
    exact .none (requestMerge_reports request r)
  · rw [perform, respond_snd]
    rcases isolate_cases (Prod.eta (isolate request r)).symm with hq | h
    · exact .none hq.reports
    · exact .none h.reports
  · rw [perform, respond_snd]
    rcases clearIsolation_cases (Prod.eta (clearIsolation request r)).symm with hq | h
    · exact .none hq.reports
    · exact .none h.reports
  · rw [perform, respond_snd]
    exact .none (retire_reports request r)
  · rw [perform, respond_snd]
    exact .none (revalidate_reports request r)
  · rw [perform, respond_snd]
    exact recordAcknowledgement_reports ack r
  · rw [perform, respond_snd]
    exact recordVerifiedEffect_reports effect r
  · rw [perform, close]
    split <;> exact .none rfl

/-- **One call.**  A step of a run adds at most the report it was given. -/
theorem call_reports (r : PartitionRuntime) (c : Call) : Reports r (r.call c).2 c.operation := by
  obtain ⟨operation, faults⟩ := c
  rcases perform_reports (r.withFaults faults) operation with h | ⟨htakes, h⟩ | ⟨htakes, h⟩
  · exact .none h
  · exact .acknowledged ⟨htakes.subject, htakes.fresh, htakes.room⟩ h
  · exact .verified ⟨htakes.subject, htakes.acknowledged, htakes.authorized, htakes.fresh,
      htakes.room⟩ h

/-! ## The partitions of an assessment -/

/-- Every partition bears the number of the assessment in force, which the counter has reached, and the
identity that is computed for it. -/
structure Stamped (r : PartitionRuntime) : Prop where
  generation : ∀ p ∈ r.partitions, p.generation = r.assessment.generation
  reached : r.assessment.generation.value.toNat ≤ r.state.partitionGeneration.value.toNat
  identity : ∀ p ∈ r.partitions, p.id = computePartitionId p.lineage p.generation p.membership

/-- Another assessment is in force, with a higher number, or the partitions are the same. -/
def Renumbers (r r' : PartitionRuntime) : Prop :=
  r.assessment.generation.value.toNat < r'.assessment.generation.value.toNat ∨
    r'.assessment.generation = r.assessment.generation ∧
      r'.partitions.map Partition.id = r.partitions.map Partition.id

theorem Renumbers.refl (r : PartitionRuntime) : Renumbers r r := .inr ⟨rfl, rfl⟩

theorem Surveyed.stamped {allowRestore : Bool} {generation : PartitionGeneration}
    {r r' : PartitionRuntime} {outcome : PartitionAssessment}
    (h : Surveyed allowRestore generation r r' outcome) :
    Stamped r' ∧ r'.assessment.generation = generation := by
  have hbuilt : ∀ q ∈ outcome.partitions, q.generation = generation ∧
      q.id = computePartitionId q.lineage q.generation q.membership := by
    intro q hq
    obtain ⟨p, hp, _, _, _, _, _, rfl⟩ := h.built hq
    exact ⟨hp.generation_eq, hp.id_eq⟩
  obtain ⟨hgen, -, _, _, _, _, _, _, _, _, _, -, rfl⟩ := h.cases
  refine ⟨⟨fun p hp => (hbuilt p hp).1.trans hgen.symm, ?_, fun p hp => (hbuilt p hp).2⟩, hgen⟩
  show outcome.generation.value.toNat ≤ generation.value.toNat
  rw [hgen]

/-- **Every move keeps the partitions stamped**, and replaces them under a higher number only. -/
theorem Move.stamped {r s s' : PartitionRuntime} (hmove : Move s s')
    (h : Stamped s ∧ Renumbers r s) : Stamped s' ∧ Renumbers r s' := by
  obtain ⟨hd, hn⟩ := h
  cases hmove with
  | quiet hq =>
    obtain ⟨_, _, _, _, _, -, rfl⟩ := hq
    exact ⟨⟨hd.generation, hd.reached, hd.identity⟩, hn⟩
  | stored hst =>
    obtain ⟨_, -, rfl⟩ := hst
    exact ⟨⟨hd.generation, hd.reached, hd.identity⟩, hn⟩
  | superseded =>
    refine ⟨⟨fun p hp => ?_, hd.reached, fun p hp => ?_⟩, ?_⟩
    · obtain ⟨q, hq, rfl⟩ := List.mem_map.mp hp
      exact hd.generation q hq
    · obtain ⟨q, hq, rfl⟩ := List.mem_map.mp hp
      exact hd.identity q hq
    · rcases hn with hlt | ⟨hgen, hids⟩
      · exact .inl hlt
      · exact .inr ⟨hgen, by rw [← hids, List.map_map]; rfl⟩
  | interrupted _ hint =>
    obtain ⟨_, _, -, -, _, _, _, -, -, -, rfl⟩ := hint
    exact ⟨⟨hd.generation, hd.reached, hd.identity⟩, hn⟩
  | fenced _ hf =>
    obtain ⟨_, _, _, -, -, -, rfl⟩ := hf
    exact ⟨⟨hd.generation, hd.reached, hd.identity⟩, hn⟩
  | refused hgen =>
    refine ⟨⟨fun p hp => (hd.generation p hp).trans hgen.symm, ?_, hd.identity⟩, ?_⟩
    · show (PartitionAssessment.generation _).value.toNat ≤ _
      rw [hgen]
      exact hd.reached
    · rcases hn with hlt | ⟨hsame, hids⟩
      · refine .inl ?_
        show _ < (PartitionAssessment.generation _).value.toNat
        rwa [hgen]
      · exact .inr ⟨hgen.trans hsame, hids⟩
  | @abandoned allowRestore generation _ _ hnext hq =>
    have hsucc := Counter.next_toNat hnext
    have hreached := hd.reached
    obtain ⟨_, _, _, _, _, -, rfl⟩ := hq
    refine ⟨⟨hd.generation, ?_, hd.identity⟩, hn⟩
    show s.assessment.generation.value.toNat ≤ generation.value.toNat
    omega
  | surveyed _ hnext hs =>
    obtain ⟨hstamped, hgen⟩ := hs.stamped
    have hsucc := Counter.next_toNat hnext
    have hreached := hd.reached
    refine ⟨hstamped, .inl ?_⟩
    rw [hgen]
    rcases hn with hlt | ⟨hsame, -⟩
    · omega
    · rw [← hsame]
      omega
  | faults | clock | evidence | policy | roster | isolations | forgot | recorded | acknowledged
  | verified | closed => exact ⟨⟨hd.generation, hd.reached, hd.identity⟩, hn⟩

/-- A start leaves nothing to stamp. -/
theorem construct_stamped {options : RuntimeOptions} {disk : Disk} {ids : BootIdentities}
    {faults : List (Option AppendFault)} {r : PartitionRuntime}
    (hstart : construct options disk ids faults = (.ok (), r)) : Stamped r := by
  have hpartitions : r.partitions = [] := by
    have hbooted := (construct_booted options disk ids faults).partitions
    rw [hstart] at hbooted
    exact hbooted
  obtain ⟨t, rfl⟩ := construct_initial hstart
  refine ⟨fun p hp => ?_, Nat.le_refl _, fun p hp => ?_⟩ <;> rw [hpartitions] at hp <;> cases hp

theorem stamped_after {r : PartitionRuntime} (hr : Stamped r) (cs : List Call) : Stamped (r.after cs) :=
  (after_invariant (P := fun s => Stamped s ∧ Renumbers s s)
    (fun _ s' hmove h => ⟨(hmove.stamped h).1, .refl s'⟩) ⟨hr, .refl r⟩ cs).1

theorem call_renumbers {r : PartitionRuntime} (hr : Stamped r) (c : Call) :
    Renumbers r (r.call c).2 :=
  ((call_evolves r c).invariant (P := fun s => Stamped s ∧ Renumbers r s)
    (fun _ _ hmove h => hmove.stamped h) ⟨hr, .refl r⟩).2

/-! ## The tables in a run -/

/-- No report is made twice, and both tables keep within their bound. -/
structure TablesSound (r : PartitionRuntime) : Prop where
  acks : r.acknowledgements.Pairwise fun ack ack' => ¬ SameAck ack ack'
  effects : r.verifiedEffects.Pairwise fun effect effect' => ¬ SameEffect effect effect'
  acksBound : r.acknowledgements.length ≤ r.limits.maxAttemptRecords
  effectsBound : r.verifiedEffects.length ≤ r.limits.maxAttemptRecords

/-- The step records an acknowledgement for a partition, having checked it. -/
structure RecordsAck (s : Step) (ack : AuthorityAcknowledgement) (p : Partition) : Prop where
  operation : s.call.operation = .recordAcknowledgement ack
  takes : s.before.TakesAck ack p
  appended : s.after.acknowledgements = s.before.acknowledgements ++ [ack]

/-- The step records an effect for a partition, having checked it. -/
structure RecordsEffect (s : Step) (effect : VerifiedEffect) (p : Partition) : Prop where
  operation : s.call.operation = .recordVerifiedEffect effect
  takes : s.before.TakesEffect effect p
  appended : s.after.verifiedEffects = s.before.verifiedEffects ++ [effect]

theorem reports_eq_iff {r : PartitionRuntime} {options : RuntimeOptions}
    {acks : List AuthorityAcknowledgement} {effects : List VerifiedEffect} :
    r.reports = (options, acks, effects) ↔
      r.options = options ∧ r.acknowledgements = acks ∧ r.verifiedEffects = effects := by
  rw [reports, Prod.mk.injEq, Prod.mk.injEq]

/-- Adding what is not there yet keeps a table without repetitions. -/
theorem pairwise_concat {α : Type} {R : α → α → Prop} {xs : List α} {x : α}
    (h : xs.Pairwise R) (hx : ∀ y ∈ xs, R y x) : (xs ++ [x]).Pairwise R :=
  List.pairwise_append.mpr ⟨h, List.pairwise_singleton _ _, fun y hy z hz => by
    rw [List.mem_singleton.mp hz]
    exact hx y hy⟩

/-- **One call keeps the tables sound.** -/
theorem TablesSound.call {r : PartitionRuntime} (h : TablesSound r) (c : Call) :
    TablesSound (r.call c).2 := by
  have hreports := call_reports r c
  generalize (r.call c).2 = r' at hreports
  obtain ⟨operation, faults⟩ := c
  rcases hreports with heq | ⟨htakes, heq⟩ | ⟨htakes, heq⟩ <;>
    obtain ⟨hoptions, hacks, heffects⟩ := reports_eq_iff.mp heq
  · have hlimits : r'.limits = r.limits := congrArg RuntimeOptions.limits hoptions
    refine ⟨?_, ?_, ?_, ?_⟩
    · rw [hacks]
      exact h.acks
    · rw [heffects]
      exact h.effects
    · rw [hacks, hlimits]
      exact h.acksBound
    · rw [heffects, hlimits]
      exact h.effectsBound
  · have hlimits : r'.limits = r.limits := congrArg RuntimeOptions.limits hoptions
    refine ⟨?_, ?_, ?_, ?_⟩
    · rw [hacks]
      exact pairwise_concat h.acks htakes.fresh
    · rw [heffects]
      exact h.effects
    · rw [hacks, hlimits, List.length_append]
      exact htakes.room
    · rw [heffects, hlimits]
      exact h.effectsBound
  · have hlimits : r'.limits = r.limits := congrArg RuntimeOptions.limits hoptions
    refine ⟨?_, ?_, ?_, ?_⟩
    · rw [hacks]
      exact h.acks
    · rw [heffects]
      exact pairwise_concat h.effects htakes.fresh
    · rw [hacks, hlimits]
      exact h.acksBound
    · rw [heffects, hlimits, List.length_append]
      exact htakes.room

theorem TablesSound.after {r : PartitionRuntime} (h : TablesSound r) (cs : List Call) :
    TablesSound (r.after cs) := by
  induction cs generalizing r with
  | nil => exact h
  | cons c cs ih => exact ih (h.call c)

/-- Reports are never taken back. -/
theorem acknowledgements_subset_call (r : PartitionRuntime) (c : Call) :
    r.acknowledgements ⊆ (r.call c).2.acknowledgements := by
  have hreports := call_reports r c
  generalize (r.call c).2 = r' at hreports ⊢
  obtain ⟨operation, faults⟩ := c
  rcases hreports with heq | ⟨-, heq⟩ | ⟨-, heq⟩ <;>
    obtain ⟨-, hacks, -⟩ := reports_eq_iff.mp heq <;> rw [hacks]
  · exact List.Subset.refl _
  · exact List.subset_append_left _ _
  · exact List.Subset.refl _

/-- An effect in the table after a call was there before, or the call recorded it. -/
theorem mem_verifiedEffects_call {r : PartitionRuntime} {c : Call} {effect : VerifiedEffect}
    (h : effect ∈ (r.call c).2.verifiedEffects) :
    effect ∈ r.verifiedEffects ∨ ∃ p, RecordsEffect ⟨r, c, (r.call c).1, (r.call c).2⟩ effect p := by
  have hreports := call_reports r c
  generalize r.call c = out at hreports h ⊢
  obtain ⟨response, r'⟩ := out
  obtain ⟨operation, faults⟩ := c
  rcases hreports with heq | ⟨-, heq⟩ | ⟨htakes, heq⟩ <;>
    obtain ⟨-, -, heffects⟩ := reports_eq_iff.mp heq <;> dsimp only at h heffects <;>
    rw [heffects] at h
  · exact .inl h
  · exact .inl h
  · rcases List.mem_append.mp h with h | h
    · exact .inl h
    · obtain rfl := List.mem_singleton.mp h
      exact .inr ⟨_, rfl, htakes, heffects⟩

/-- **Every effect was recorded by a step**, which found the acknowledgement that is still there. -/
theorem exists_records {r : PartitionRuntime} (hempty : r.verifiedEffects = []) (cs : List Call) :
    ∀ effect ∈ (r.after cs).verifiedEffects, ∃ s ∈ r.trace cs, ∃ p, RecordsEffect s effect p ∧
      ∃ ack ∈ s.before.acknowledgements, Acknowledges ack effect ∧
        ack ∈ (r.after cs).acknowledgements := by
  induction cs using List.reverseRecOn with
  | nil =>
    intro effect heffect
    rw [after, hempty] at heffect
    cases heffect
  | append_singleton cs c ih =>
    intro effect heffect
    rw [after_append] at heffect ⊢
    rw [trace_append]
    have hkeeps := acknowledgements_subset_call (r.after cs) c
    rcases mem_verifiedEffects_call (r := r.after cs) heffect with heffect | ⟨p, hrecords⟩
    · obtain ⟨s, hs, p, hrecords, ack, hbefore, hacknowledges, hack⟩ := ih effect heffect
      exact ⟨s, List.mem_append_left _ hs, p, hrecords, ack, hbefore, hacknowledges, hkeeps hack⟩
    · obtain ⟨ack, hack, hacknowledges⟩ := hrecords.takes.acknowledged
      exact ⟨_, List.mem_append_right _ (List.mem_singleton_self _), p, hrecords, ack, hack,
        hacknowledges, hkeeps hack⟩

/-! ## Earlier assessments -/

/-- A partition of one of the states of a run. -/
def Held (r : PartitionRuntime) (cs : List Call) (p : Partition) : Prop :=
  ∃ ds, ds <+: cs ∧ p ∈ (r.after ds).partitions

/-- The digests tell the identities apart: no two partitions of the run have one identity computed
from two preimages. -/
def DistinctIdentities (r : PartitionRuntime) (cs : List Call) : Prop :=
  ∀ p q, Held r cs p → Held r cs q →
    computePartitionId p.lineage p.generation p.membership
      = computePartitionId q.lineage q.generation q.membership →
    identityPreimage p = identityPreimage q

/-- The step was made while an earlier assessment than the last one of the run was in force. -/
def Earlier (r : PartitionRuntime) (cs : List Call) (s : Step) : Prop :=
  s ∈ r.trace cs ∧
    s.before.assessment.generation.value.toNat < (r.after cs).assessment.generation.value.toNat

/-- A partition an earlier step has found has the identity of none that is there at the end. -/
theorem Earlier.ne_id {r : PartitionRuntime} (hr : Stamped r) {cs : List Call}
    (hdistinct : DistinctIdentities r cs) {s : Step} (h : Earlier r cs s) {id : PartitionId} {q : Partition}
    (hsubject : s.before.partitionById id = some q) {p : Partition}
    (hp : p ∈ (r.after cs).partitions) : id ≠ p.id := by
  intro heq
  obtain ⟨hs, hlt⟩ := h
  obtain ⟨ds, es, hcs, hbefore⟩ := exists_before_of_mem_trace hs
  have hq : q ∈ s.before.partitions := List.mem_of_find?_eq_some hsubject
  have hqid : q.id = id := by simpa using List.find?_some hsubject
  have hstampedq : Stamped s.before := hbefore ▸ stamped_after hr ds
  have hstampedp := stamped_after hr cs
  have hpreimage := hdistinct p q ⟨cs, List.prefix_refl _, hp⟩
    ⟨ds, ⟨_, hcs.symm⟩, hbefore ▸ hq⟩ (by
      rw [← hstampedp.identity p hp, ← hstampedq.identity q hq, hqid, heq])
  have hgeneration : p.generation = q.generation := congrArg (fun x => x.2.1) hpreimage
  rw [hstampedp.generation p hp, hstampedq.generation q hq] at hgeneration
  rw [hgeneration] at hlt
  exact Nat.lt_irrefl _ hlt

/-- The runtime with some of its reports only. -/
def keeping (r : PartitionRuntime) (keepAck : AuthorityAcknowledgement → Bool)
    (keepEffect : VerifiedEffect → Bool) : PartitionRuntime :=
  { r with
    acknowledgements := r.acknowledgements.filter keepAck
    verifiedEffects := r.verifiedEffects.filter keepEffect }

/-- What is dropped does not show in a search that would not have stopped at it. -/
theorem any_filter_of_imp {α : Type} {xs : List α} {keep test : α → Bool}
    (h : ∀ x ∈ xs, test x = true → keep x = true) : (xs.filter keep).any test = xs.any test := by
  rw [Bool.eq_iff_iff, List.any_eq_true, List.any_eq_true]
  refine ⟨fun ⟨x, hmem, htest⟩ => ⟨x, List.mem_of_mem_filter hmem, htest⟩, ?_⟩
  rintro ⟨x, hmem, htest⟩
  exact ⟨x, List.mem_filter.mpr ⟨hmem, h x hmem htest⟩, htest⟩

/-- **Dropping reports of earlier assessments changes no application state.** -/
theorem applicationState_keeping {r : PartitionRuntime} (hr : Stamped r) {cs : List Call}
    (hdistinct : DistinctIdentities r cs) {keepAck : AuthorityAcknowledgement → Bool}
    {keepEffect : VerifiedEffect → Bool}
    (hacks : ∀ ack ∈ (r.after cs).acknowledgements, keepAck ack = false →
      ∃ s p, RecordsAck s ack p ∧ Earlier r cs s)
    (heffects : ∀ effect ∈ (r.after cs).verifiedEffects, keepEffect effect = false →
      ∃ s p, RecordsEffect s effect p ∧ Earlier r cs s)
    {p : Partition} (hp : p ∈ (r.after cs).partitions) :
    ((r.after cs).keeping keepAck keepEffect).applicationState p.id
      = (r.after cs).applicationState p.id := by
  have hack : ((r.after cs).acknowledgements.filter keepAck).any
      (fun ack => ack.partition == p.id && ack.accepted)
      = (r.after cs).acknowledgements.any fun ack => ack.partition == p.id && ack.accepted := by
    refine any_filter_of_imp fun ack hmem htest => ?_
    by_contra hdropped
    obtain ⟨s, q, hrecords, hearlier⟩ := hacks ack hmem (by simpa using hdropped)
    rw [Bool.and_eq_true, beq_iff_eq] at htest
    exact hearlier.ne_id hr hdistinct hrecords.takes.subject hp htest.1
  have heffect : ((r.after cs).verifiedEffects.filter keepEffect).any
      (fun effect => effect.partition == p.id)
      = (r.after cs).verifiedEffects.any fun effect => effect.partition == p.id := by
    refine any_filter_of_imp fun effect hmem htest => ?_
    by_contra hdropped
    obtain ⟨s, q, hrecords, hearlier⟩ := heffects effect hmem (by simpa using hdropped)
    exact hearlier.ne_id hr hdistinct hrecords.takes.subject hp (by simpa using htest)
  unfold applicationState isInterrupted partitionById keeping
  simp only [hack, heffect]

/-! ## Runs -/

/-- What holds of the reports at the end of a run. -/
structure EffectsAcknowledged (r : PartitionRuntime) (cs : List Call) : Prop where
  /-- No attempt is reported twice for a partition, and the tables keep within their bound. -/
  tables : TablesSound (r.after cs)
  /-- Every effect was recorded by a step that found it acknowledged, and within the authority of its
  partition; the acknowledgement is still there. -/
  recorded : ∀ effect ∈ (r.after cs).verifiedEffects, ∃ s ∈ r.trace cs, ∃ p, RecordsEffect s effect p ∧
    ∃ ack ∈ s.before.acknowledgements, Acknowledges ack effect ∧
      ack ∈ (r.after cs).acknowledgements
  /-- The partitions are those of the assessment in force, and are replaced under a higher number. -/
  stamped : Stamped (r.after cs)
  renumbered : ∀ s ∈ r.trace cs, Renumbers s.before s.after
  /-- The reports of earlier assessments make no difference to a partition. -/
  stale : DistinctIdentities r cs → ∀ keepAck keepEffect,
    (∀ ack ∈ (r.after cs).acknowledgements, keepAck ack = false →
      ∃ s p, RecordsAck s ack p ∧ Earlier r cs s) →
    (∀ effect ∈ (r.after cs).verifiedEffects, keepEffect effect = false →
      ∃ s p, RecordsEffect s effect p ∧ Earlier r cs s) →
    ∀ p ∈ (r.after cs).partitions,
      ((r.after cs).keeping keepAck keepEffect).applicationState p.id
        = (r.after cs).applicationState p.id

/-- **A verified effect never outruns its acknowledgement.** -/
theorem effects_acknowledged {options : RuntimeOptions} {disk : Disk} {ids : BootIdentities}
    {faults : List (Option AppendFault)} {r : PartitionRuntime}
    (hstart : construct options disk ids faults = (.ok (), r)) (cs : List Call) :
    EffectsAcknowledged r cs := by
  have hstamped := construct_stamped hstart
  have hbooted := construct_booted options disk ids faults
  rw [hstart] at hbooted
  have hacks : r.acknowledgements = [] := hbooted.acknowledgements
  have heffects : r.verifiedEffects = [] := hbooted.verifiedEffects
  have hsound : TablesSound r := by
    refine ⟨?_, ?_, ?_, ?_⟩ <;> simp [hacks, heffects]
  exact
    { tables := hsound.after cs
      recorded := exists_records heffects cs
      stamped := stamped_after hstamped cs
      renumbered := fun s hs => by
        obtain ⟨ds, -, -, hbefore⟩ := exists_before_of_mem_trace hs
        rw [show s.after = (s.before.call s.call).2 from congrArg Prod.snd (mem_trace hs), hbefore]
        exact call_renumbers (stamped_after hstamped ds) s.call
      stale := fun hdistinct _ _ hacks heffects p hp =>
        applicationState_keeping hstamped hdistinct hacks heffects hp }

/-- A component is granted authority, reports that it applied it, and is seen to have done so; then it
is assessed again. -/
def reporting : List Call :=
  let granted := [⟨.adoptTopology (smallTopology 1 ["a"]), []⟩, ⟨.assess, []⟩]
  let id := ((smallRuntime.after granted).partitions.map Partition.id).headD .nil
  granted ++ [
    ⟨.recordAcknowledgement { attempt := named _ "m1", partition := id, accepted := true }, []⟩,
    ⟨.recordVerifiedEffect { attempt := named _ "m1", partition := id }, []⟩,
    ⟨.assess, []⟩]

theorem held_iff {r : PartitionRuntime} {cs : List Call} {p : Partition} :
    Held r cs p ↔ p ∈ cs.inits.flatMap fun ds => (r.after ds).partitions := by
  rw [List.mem_flatMap]
  simp only [List.mem_inits]
  exact Iff.rfl

/-- The effect is in the table, so is its acknowledgement, and it makes no difference to the partition
of the second assessment. -/
theorem reported_effect_acknowledged :
    (∃ effect ∈ (smallRuntime.after reporting).verifiedEffects,
      ∃ ack ∈ (smallRuntime.after reporting).acknowledgements, Acknowledges ack effect) ∧
    ∀ p ∈ (smallRuntime.after reporting).partitions,
      ((smallRuntime.after reporting).keeping (fun _ => true) fun _ => false).applicationState p.id
        = (smallRuntime.after reporting).applicationState p.id := by
  have hall := effects_acknowledged smallRuntime_started reporting
  have hlength : (smallRuntime.after reporting).verifiedEffects.length = 1 := by decide +kernel
  have hlater : ∀ s ∈ smallRuntime.trace reporting, s.before.assessment.generation.value.toNat
      < (smallRuntime.after reporting).assessment.generation.value.toNat := by decide +kernel
  have hids : ∀ p ∈ reporting.inits.flatMap fun ds => (smallRuntime.after ds).partitions,
      ∀ q ∈ reporting.inits.flatMap fun ds => (smallRuntime.after ds).partitions,
        computePartitionId p.lineage p.generation p.membership
            = computePartitionId q.lineage q.generation q.membership →
          identityPreimage p = identityPreimage q := by decide +kernel
  refine ⟨?_, hall.stale (fun p q hp hq => hids p (held_iff.mp hp) q (held_iff.mp hq))
    (fun _ => true) (fun _ => false) (fun _ _ h => nomatch h) fun effect heffect _ => ?_⟩
  · obtain ⟨effect, heffect⟩ := List.exists_mem_of_length_pos (by omega :
      0 < (smallRuntime.after reporting).verifiedEffects.length)
    obtain ⟨_, -, _, -, ack, -, hacknowledges, hack⟩ := hall.recorded effect heffect
    exact ⟨effect, heffect, ack, hack, hacknowledges⟩
  · obtain ⟨s, hs, p, hrecords, -⟩ := hall.recorded effect heffect
    exact ⟨s, p, hrecords, hs, hlater s hs⟩

end PartitionRuntime

end FabricPartition
