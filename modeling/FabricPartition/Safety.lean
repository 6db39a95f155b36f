import FabricPartition.Decomposition
import FabricPartition.Revalidation

/-!
# Safety of the grants in force

Between two assessments the runtime is asked for all kinds of things, some of which replace the policy
or the roster, and any append may fail.  What it shows as its current partitions is at all times the
whole result of one assessment, made under a policy and of a roster that were in force together.

* `Safe` — what a list of partitions owes to the policy and the roster it was assessed under;
* `current_partitions_safe` — the current partitions are safe in every reachable state;
* `one_primary` — where no policy ever allows several authoritative partitions, there is one at most;
* `grants_ascend` — the numbers of the grants of an incarnation go up from one assessment to the next.
-/

set_option autoImplicit false

namespace FabricPartition

namespace PartitionRuntime

/-- **Safe grants** under a policy, over a roster: every component is in exactly one partition, one
partition is primary at most unless several may be, a grant is what the policy gives the class, and the
grants are numbered upwards. -/
structure Safe (policy : PartitionPolicy) (roster : ComponentRoster) (ps : List Partition) :
    Prop where
  exact : (ps.map Partition.members).flatten.Perm roster.components
  single : policy.allowMultipleAuthoritativePartitions = false →
    ps.countP (fun p => p.authority.authorityClass == .primary) ≤ 1
  capable : ∀ p ∈ ps, p.granted = true →
    p.authority.authorized = capabilitiesForClass policy p.authority.authorityClass
  numbered : (grantSequences ps).Pairwise (· < ·)

theorem redressed_refl (ps : List Partition) : List.Forall₂ Redressed ps ps :=
  List.forall₂_same.mpr fun p _ => ⟨p.lifecycle, p.reasons, rfl⟩

theorem redressed_trans {ps qs ss : List Partition} (h : List.Forall₂ Redressed ps qs)
    (h' : List.Forall₂ Redressed qs ss) : List.Forall₂ Redressed ps ss :=
  (forall₂_comp h h').imp fun p s ⟨q, ⟨_, _, hq⟩, lifecycle, reasons, hs⟩ =>
    ⟨lifecycle, reasons, by rw [hs, hq]⟩

/-- Lifecycles and reasons do not matter to safety. -/
theorem Safe.redressed {policy : PartitionPolicy} {roster : ComponentRoster}
    {ps qs : List Partition} (h : Safe policy roster ps) (hqs : List.Forall₂ Redressed ps qs) :
    Safe policy roster qs where
  exact := by
    have hmembers : ps.map Partition.members = qs.map Partition.members :=
      PartitionRuntime.map_eq_of_forall₂ (hqs.imp fun p q ⟨_, _, hq⟩ => by rw [hq])
    rw [← hmembers]
    exact h.exact
  single hmultiple := by
    let primary : Partition → Bool := fun p => p.authority.authorityClass == .primary
    have hcount : ps.countP primary = qs.countP primary :=
      countP_of_forall₂ (hqs.imp fun p q ⟨_, _, hq⟩ => by rw [hq])
    exact hcount.symm.trans_le (h.single hmultiple)
  capable q hq hgranted := by
    obtain ⟨p, hp, _, _, rfl⟩ := exists_of_forall₂ hqs hq
    exact h.capable p hp hgranted
  numbered := by
    rw [grantSequences_redressed hqs]
    exact h.numbered

/-! ## What an assessment publishes -/

/-- Together the partitions hold the components of the roster, each once — if there are any. -/
theorem buildPartitions_exact {roster : ComponentRoster} {evidence : List ReachabilityEvidence}
    {policy : Option PartitionPolicy} {tick : UInt64} {bounds limits : Limits}
    {generation : PartitionGeneration} {store : LineageStore} {ps : List Partition}
    (h : ps = buildPartitions (buildReachabilitySnapshot roster evidence policy tick bounds)
      generation store limits) :
    ps = [] ∨ (ps.map Partition.members).flatten.Perm roster.components := by
  by_cases hset : roster.set = true
  · by_cases hsize : roster.size = 0
    · left
      have hnone : roster.components.length = 0 := hsize
      simp [h, buildPartitions, buildReachabilitySnapshot, hset, hsize, hnone]
    · have hlabelled := buildReachabilitySnapshot_labelled roster evidence policy tick bounds
      obtain ⟨-, hcomponents, -, -⟩ := snapshot_components hset hsize evidence policy tick bounds
      generalize buildReachabilitySnapshot roster evidence policy tick bounds = s at *
      rw [← hcomponents]
      have hbuilt : ps = [] ∨
          ps = (s.groups.map (buildPartition s generation store limits)).insertionSort
            fun lhs rhs => partitionCanonicalLess rhs lhs = false := by
        rw [h, buildPartitions]
        split_ifs <;> simp
      refine hbuilt.imp_right fun hps => ?_
      have hperm := List.perm_insertionSort (fun lhs rhs => partitionCanonicalLess rhs lhs = false)
        (s.groups.map (buildPartition s generation store limits))
      rw [← hps] at hperm
      have hgroups : (s.groups.map (buildPartition s generation store limits)).map Partition.members
          = s.groups.map s.membersAt := by
        rw [List.map_map]
        rfl
      refine ((hperm.map Partition.members).flatten).trans ?_
      rw [hgroups]
      exact hlabelled.flatten_groups_perm
  · left
    simp [h, buildPartitions, buildReachabilitySnapshot, hset]

/-- **An evaluation is safe** under the policy and over the roster it was made from. -/
theorem evaluateAuthority_safe {r : PartitionRuntime} {allowRestore : Bool} {ps : List Partition}
    (hexact : (ps.map Partition.members).flatten.Perm r.roster.components) :
    Safe r.policy r.roster (r.evaluateAuthority ps allowRestore).partitions where
  exact := by
    have hmembers : ps.map Partition.members
        = (r.evaluateAuthority ps allowRestore).partitions.map Partition.members :=
      PartitionRuntime.map_eq_of_forall₂ ((r.evaluateAuthority_dresses ps allowRestore).imp
        fun p q ⟨_, _, _, _, _, hq⟩ => by rw [hq])
    rw [← hmembers]
    exact hexact
  single hmultiple := by
    have hgraded := r.evaluateAuthority_graded ps allowRestore
    rw [← countP_of_forall₂ (f := fun p => r.finalClass allowRestore ps p == .primary)
      (hgraded.imp fun p q h => by rw [h.authorityClass])]
    exact r.countP_finalClass_le allowRestore ps hmultiple
  capable q hq hgranted := by
    obtain ⟨p, -, hg⟩ := exists_of_forall₂ (r.evaluateAuthority_graded ps allowRestore) hq
    refine hg.authorized.resolve_right fun hnone => ?_
    rw [Partition.granted, hnone] at hgranted
    cases hgranted
  numbered := r.evaluateAuthority_increasing ps allowRestore

/-- What a completed assessment publishes is safe, or nothing. -/
theorem Surveyed.safe {allowRestore : Bool} {generation : PartitionGeneration}
    {r r' : PartitionRuntime} {outcome : PartitionAssessment}
    (h : Surveyed allowRestore generation r r' outcome) :
    r'.partitions = [] ∨ Safe r.policy r.roster r'.partitions := by
  obtain ⟨-, hall, _, _, _, _, _, _, _, _, _, -, rfl⟩ := h.cases
  show outcome.partitions = [] ∨ Safe r.policy r.roster outcome.partitions
  let b := beginAssessment generation r
  let built := buildPartitions b.snapshot b.state.partitionGeneration b.lineage b.limits
  have hbuilt : built = [] ∨ (built.map Partition.members).flatten.Perm r.roster.components :=
    buildPartitions_exact rfl
  rcases hbuilt with hnil | hperm
  · left
    have hdresses : List.Forall₂ Partition.Dresses built
      (PartitionRuntime.planned allowRestore generation r).partitions :=
      b.evaluateAuthority_dresses built allowRestore
    rw [hnil, List.forall₂_nil_left_iff] at hdresses
    rwa [hdresses, List.forall₂_nil_left_iff] at hall
  · right
    have hsafe : Safe r.policy r.roster
        (PartitionRuntime.planned allowRestore generation r).partitions :=
      @evaluateAuthority_safe b allowRestore built hperm
    exact hsafe.redressed hall

/-! ## Between the assessments -/

/-- The members a grant rests on stand still, and so do the partitions, but for their lifecycles. -/
structure Rests (r r' : PartitionRuntime) : Prop where
  policy : r'.policy = r.policy
  roster : r'.roster = r.roster
  partitions : r'.partitions = r.partitions
  authority : r.state.authoritySequence.value.toNat ≤ r'.state.authoritySequence.value.toNat

namespace Rests

variable {r s t : PartitionRuntime}

theorem refl (r : PartitionRuntime) : Rests r r := ⟨rfl, rfl, rfl, le_rfl⟩

theorem trans (h : Rests r s) (h' : Rests s t) : Rests r t where
  policy := h'.policy.trans h.policy
  roster := h'.roster.trans h.roster
  partitions := h'.partitions.trans h.partitions
  authority := h.authority.trans h'.authority

/-- The interruptions do not matter. -/
theorem interruptions (h : Rests r s) {interrupted : List InterruptedAuthority}
    (h' : Rests { s with interrupted := interrupted } t) : Rests r t :=
  ⟨h'.policy.trans h.policy, h'.roster.trans h.roster, h'.partitions.trans h.partitions,
    h.authority.trans h'.authority⟩

end Rests

theorem Quiet.settled {r r' : PartitionRuntime} (h : Quiet r r') : Rests r r' := by
  obtain ⟨_, _, _, _, _, -, rfl⟩ := h
  exact ⟨rfl, rfl, rfl, le_rfl⟩

theorem Stored.settled {type : DurableRecordType} {r r' : PartitionRuntime} (h : Stored type r r') :
    Rests r r' := by
  obtain ⟨_, -, rfl⟩ := h
  exact ⟨rfl, rfl, rfl, le_rfl⟩

theorem Fenced.settled {sequences : List AuthoritySequence} {r r' : PartitionRuntime}
    (h : Fenced sequences r r') : Rests r r' := by
  obtain ⟨_, _, _, -, -, -, rfl⟩ := h
  exact ⟨rfl, rfl, rfl, le_rfl⟩

theorem Interrupted.settled {ps : List Partition} {r r' : PartitionRuntime}
    (h : Interrupted ps r r') : Rests r r' := by
  obtain ⟨_, _, hle, -, _, _, _, -, -, -, rfl⟩ := h
  exact ⟨rfl, rfl, rfl, hle⟩

theorem MergeRecorded.settled {request : MergeRequest} {subject : Partition}
    {r u : PartitionRuntime} (h : MergeRecorded request subject r u) : Rests r u := by
  obtain ⟨s, c, decision, sequence, hq, -, hcommit, -, rfl⟩ := h
  have hstored := commitRecord_stored .lineageRecord
    (encodeLineage (s.mergeRecord request subject decision sequence)) s
  rw [hcommit] at hstored
  exact (hq.settled.trans hstored.settled).trans ⟨rfl, rfl, rfl, le_rfl⟩

theorem RetireRecorded.settled {request : RetireRequest} {r u : PartitionRuntime}
    (h : RetireRecorded request r u) : Rests r u := by
  obtain ⟨s, c, latest, decision, sequence, hq, -, -, -, hcommit, -, rfl⟩ := h
  have hstored := commitRecord_stored .lineageRecord
    (encodeLineage (s.retireRecord latest request.lineage decision sequence)) s
  rw [hcommit] at hstored
  exact (hq.settled.trans hstored.settled).trans ⟨rfl, rfl, rfl, le_rfl⟩

/-- What a method did to the partitions: it left them, or it published those of a completed assessment
under the policy and of the roster it found. -/
def Publishes (r r' : PartitionRuntime) : Prop :=
  Rests r r' ∨ ∃ allowRestore generation a t outcome, Rests r a ∧
    Surveyed allowRestore generation a t outcome ∧ Rests t r'

theorem Publishes.then_settled {r s t : PartitionRuntime} (h : Publishes r s) (h' : Rests s t) :
    Publishes r t := by
  rcases h with h | ⟨allowRestore, generation, a, u, outcome, ha, hs, hu⟩
  · exact .inl (h.trans h')
  · exact .inr ⟨allowRestore, generation, a, u, outcome, ha, hs, hu.trans h'⟩

/-- One assessment, on a runtime that has settled. -/
theorem Rests.assesses {allowRestore : Bool} {r a r' : PartitionRuntime}
    {res : Except PartitionError PartitionAssessment} (h : Rests r a)
    (hassess : assessLocked allowRestore a = (res, r')) : Publishes r r' := by
  rcases assessLocked_cases hassess with ⟨-, s, assessment, hq, rfl, -⟩ | ⟨-, rfl⟩ |
    ⟨generation, -, -, hnext, ⟨-, hq⟩ | ⟨outcome, -, hs⟩⟩
  · exact .inl ((h.trans hq.settled).trans ⟨rfl, rfl, rfl, le_rfl⟩)
  · exact .inl h
  · have hbegun : Rests a (begun allowRestore generation a) :=
      ⟨rfl, rfl, rfl, ((beginAssessment generation a).evaluateAuthority_sequence _ allowRestore).1⟩
    exact .inl ((h.trans hbegun).trans hq.settled)
  · exact .inr ⟨allowRestore, generation, a, r', outcome, h, hs, .refl r'⟩

theorem Reassessed.publishes {r r' : PartitionRuntime} (h : Reassessed r r') : Publishes r r' := by
  obtain ⟨isolations, s, hq, hrest⟩ := h
  have hsettled : Rests r s :=
    ⟨hq.settled.policy, hq.settled.roster, hq.settled.partitions, hq.settled.authority⟩
  rcases hrest with rfl | ⟨res, hassess⟩
  · exact .inl hsettled
  · exact hsettled.assesses hassess

theorem requestMerge_publishes (request : MergeRequest) (r : PartitionRuntime) :
    Publishes r (requestMerge request r).2 := by
  rcases requestMerge_cases (Prod.eta (requestMerge request r)).symm with
    ⟨⟨s, t, hq, hstored, hq'⟩, -⟩ |
    ⟨subject, u, -, -, hrecorded, ⟨-, hr'⟩ | ⟨s, t, res, hfenced, hq, hassess, -⟩⟩
  · exact .inl ((hq.settled.trans hstored.settled).trans hq'.settled)
  · rw [hr']
    exact .inl hrecorded.settled
  · exact ((hrecorded.settled.trans hfenced.settled).interruptions hq.settled).assesses hassess

theorem retire_publishes (request : RetireRequest) (r : PartitionRuntime) :
    Rests r (retire request r).2 := by
  rcases retire_cases (Prod.eta (retire request r)).symm with
    ⟨⟨s, t, hq, hstored, hq'⟩, -⟩ |
    ⟨u, v, sequences, -, hrecorded, -, hfenced, ⟨-, hr'⟩ | ⟨-, hq, -⟩⟩
  · exact (hq.settled.trans hstored.settled).trans hq'.settled
  · rw [hr']
    exact hrecorded.settled.trans hfenced.settled
  · exact (hrecorded.settled.trans hfenced.settled).interruptions hq.settled

theorem revalidate_publishes (request : RevalidationRequest) (r : PartitionRuntime) :
    Publishes r (revalidate request r).2 := by
  rcases revalidate_cases (Prod.eta (revalidate request r)).symm with
    ⟨hq, -⟩ | ⟨s, t, res, -, -, hq, hassess, ⟨_, -, -, hr'⟩ |
      ⟨refreshed, sequences, u, -, -, hfenced, ⟨-, hr'⟩ | ⟨hq', -⟩⟩⟩
  · exact .inl hq.settled
  · rw [hr']
    exact hq.settled.assesses hassess
  · rw [hr']
    exact (hq.settled.assesses hassess).then_settled hfenced.settled
  · exact (hq.settled.assesses hassess).then_settled
      (hfenced.settled.interruptions hq'.settled)

/-- What a call does to the partitions: they are redressed, or replaced by those of an assessment. -/
inductive Carries (r r' : PartitionRuntime) : Prop
  | kept (hpartitions : List.Forall₂ Redressed r.partitions r'.partitions)
      (hauthority : r.state.authoritySequence.value.toNat ≤ r'.state.authoritySequence.value.toNat)
  | assessed {allowRestore : Bool} {generation : PartitionGeneration} {a t : PartitionRuntime}
      {outcome : PartitionAssessment} (hopening : Rests r a)
      (hsurvey : Surveyed allowRestore generation a t outcome) (hending : Rests t r')

theorem Rests.carries {r r' : PartitionRuntime} (h : Rests r r') : Carries r r' :=
  .kept (by rw [h.partitions]; exact redressed_refl _) h.authority

theorem Publishes.carries {r r' : PartitionRuntime} (h : Publishes r r') : Carries r r' := by
  rcases h with h | ⟨_, _, _, _, _, ha, hs, ht⟩
  · exact h.carries
  · exact .assessed ha hs ht

theorem adoptTopology_carries (definition : TopologyDefinition) (r : PartitionRuntime) :
    Carries r (adoptTopology definition r).2 := by
  rcases adoptTopology_cases (Prod.eta (adoptTopology definition r)).symm with
    ⟨s, hst, hq, -⟩ | ⟨roster, s, -, -, hcommit, hrest⟩
  · exact (hst.settled.trans hq.settled).carries
  · have hstored := commitRecord_stored .topologyDefinition (encodeTopology definition) r
    rw [hcommit] at hstored
    have hfirst := hstored.settled
    rcases hrest with ⟨-, hq, -⟩ | ⟨-, qs, t, -, hint, ⟨hr', -⟩ | ⟨-, hq, -⟩⟩
    · refine .kept ?_ (hfirst.authority.trans hq.settled.authority)
      rw [hq.settled.partitions]
      show List.Forall₂ Redressed r.partitions s.partitions
      rw [hfirst.partitions]
      exact redressed_refl _
    · rw [hr']
      exact (hfirst.trans hint.settled).carries
    · have hmid := hfirst.trans hint.settled
      refine .kept ?_ (hmid.authority.trans hq.settled.authority)
      rw [hq.settled.partitions]
      show List.Forall₂ Redressed r.partitions
        (t.partitions.map fun p => { p with lifecycle := .superseded })
      rw [hmid.partitions, List.forall₂_map_right_iff]
      exact List.forall₂_same.mpr fun p _ => ⟨.superseded, p.reasons, rfl⟩

theorem setPolicy_carries (policy : PartitionPolicy) (r : PartitionRuntime) :
    Carries r (setPolicy policy r).2 := by
  rcases setPolicy_cases (Prod.eta (setPolicy policy r)).symm with
    ⟨s, hst, hq, -⟩ | ⟨canonical, s, qs, t, -, -, hcommit, -, hint, ⟨hr', -⟩ | ⟨-, hq, -⟩⟩
  · exact (hst.settled.trans hq.settled).carries
  all_goals
    have hstored := commitRecord_stored .policyDefinition (encodePolicy canonical) r
    rw [hcommit] at hstored
    have hmid := hstored.settled.trans hint.settled
  · rw [hr']
    exact hmid.carries
  · refine .kept ?_ (hmid.authority.trans hq.settled.authority)
    rw [hq.settled.partitions]
    show List.Forall₂ Redressed r.partitions t.partitions
    rw [hmid.partitions]
    exact redressed_refl _

theorem ingestEvidence_settled (evidence : ReachabilityEvidence) (r : PartitionRuntime) :
    Rests r (ingestEvidence evidence r).2 := by
  rcases ingestEvidence_cases (Prod.eta (ingestEvidence evidence r)).symm with hq | hq
  · exact hq.settled
  · exact ⟨hq.settled.policy, hq.settled.roster, hq.settled.partitions, hq.settled.authority⟩

/-- **What an operation does to the partitions.** -/
theorem perform_carries (r : PartitionRuntime) (operation : Operation) :
    Carries r (r.perform operation).2 := by
  cases operation with
  | advanceTicks delta =>
    refine Rests.carries ?_
    rw [perform]
    rcases advanceTicks_cases (Prod.eta (advanceTicks delta r)).symm with h | ⟨tick, h⟩ <;> rw [h]
    · exact .refl r
    · exact ⟨rfl, rfl, rfl, le_rfl⟩
  | adoptTopology definition =>
    rw [perform, respond_snd]
    exact adoptTopology_carries definition r
  | setPolicy policy =>
    rw [perform, respond_snd]
    exact setPolicy_carries policy r
  | ingestEvidence evidence =>
    rw [perform, respond_snd]
    exact (ingestEvidence_settled evidence r).carries
  | assess =>
    rw [perform, respond_snd]
    exact ((Rests.refl r).assesses (Prod.eta (assessLocked false r)).symm).carries
  | requestMerge request =>
    rw [perform, respond_snd]
    exact (requestMerge_publishes request r).carries
  | isolate request =>
    rw [perform, respond_snd]
    rcases isolate_cases (Prod.eta (isolate request r)).symm with hq | hre
    · exact hq.settled.carries
    · exact hre.publishes.carries
  | clearIsolation request =>
    rw [perform, respond_snd]
    rcases clearIsolation_cases (Prod.eta (clearIsolation request r)).symm with hq | hre
    · exact hq.settled.carries
    · exact hre.publishes.carries
  | retire request =>
    rw [perform, respond_snd]
    exact (retire_publishes request r).carries
  | revalidate request =>
    rw [perform, respond_snd]
    exact (revalidate_publishes request r).carries
  | recordAcknowledgement ack =>
    rw [perform, respond_snd]
    rcases recordAcknowledgement_cases (Prod.eta (recordAcknowledgement ack r)).symm with hq | hq
    · exact hq.settled.carries
    · exact Rests.carries
        ⟨hq.settled.policy, hq.settled.roster, hq.settled.partitions, hq.settled.authority⟩
  | recordVerifiedEffect effect =>
    rw [perform, respond_snd]
    rcases recordVerifiedEffect_cases (Prod.eta (recordVerifiedEffect effect r)).symm with hq | hq
    · exact hq.settled.carries
    · exact Rests.carries
        ⟨hq.settled.policy, hq.settled.roster, hq.settled.partitions, hq.settled.authority⟩
  | close =>
    refine Rests.carries ?_
    rw [perform, close]
    split <;> exact ⟨rfl, rfl, rfl, le_rfl⟩

theorem call_carries (r : PartitionRuntime) (c : Call) : Carries r (r.call c).2 := by
  have hperform := perform_carries (r.withFaults c.faults) c.operation
  rcases hperform with ⟨hpartitions, hauthority⟩ | ⟨hopening, hsurvey, hending⟩
  · exact .kept hpartitions hauthority
  · exact .assessed ⟨hopening.policy, hopening.roster, hopening.partitions, hopening.authority⟩
      hsurvey hending

/-! ## Runs -/

theorem construct_partitions {options : RuntimeOptions} {disk : Disk} {ids : BootIdentities}
    {faults : List (Option AppendFault)} {r : PartitionRuntime}
    (hstart : construct options disk ids faults = (.ok (), r)) : r.partitions = [] := by
  have hbooted := construct_booted options disk ids faults
  rw [hstart] at hbooted
  exact hbooted.partitions

/-- A run that begins without partitions has those of one assessment, or none. -/
theorem after_safe {r : PartitionRuntime} (hinit : r.partitions = []) (cs : List Call) :
    (r.after cs).partitions = [] ∨ ∃ ds c es, cs = ds ++ c :: es ∧
      Safe (r.after ds).policy (r.after ds).roster (r.after cs).partitions := by
  induction cs using List.reverseRecOn with
  | nil => exact .inl hinit
  | append_singleton cs c ih =>
    rw [after_append]
    show ((r.after cs).call c).2.partitions = [] ∨
      ∃ ds d es, _ ∧ Safe _ _ ((r.after cs).call c).2.partitions
    rcases call_carries (r.after cs) c with ⟨hpartitions, -⟩ | ⟨hopening, hsurvey, hending⟩
    · rcases ih with hnil | ⟨ds, d, es, hcs, hsafe⟩
      · rw [hnil, List.forall₂_nil_left_iff] at hpartitions
        exact .inl hpartitions
      · exact .inr ⟨ds, d, es ++ [c], by simp [hcs], hsafe.redressed hpartitions⟩
    · rw [hending.partitions]
      refine hsurvey.safe.imp_right fun hsafe => ?_
      rw [hopening.policy, hopening.roster] at hsafe
      exact ⟨cs, c, [], rfl, hsafe⟩

/-- The numbers of the current grants are drawn from the authority counter. -/
def Drawn (r : PartitionRuntime) : Prop :=
  ∀ n ∈ grantSequences r.partitions, n ≤ r.state.authoritySequence.value.toNat

/-- A later state has the same grants, or ones that are all numbered above the earlier counter. -/
def Succeeds (r r' : PartitionRuntime) : Prop :=
  r.state.authoritySequence.value.toNat ≤ r'.state.authoritySequence.value.toNat ∧
    (List.Forall₂ Redressed r.partitions r'.partitions ∨
      ∀ n ∈ grantSequences r'.partitions, r.state.authoritySequence.value.toNat < n ∧
        n ≤ r'.state.authoritySequence.value.toNat)

theorem Succeeds.refl (r : PartitionRuntime) : Succeeds r r := ⟨le_rfl, .inl (redressed_refl _)⟩

theorem Succeeds.trans {r s t : PartitionRuntime} (h : Succeeds r s) (h' : Succeeds s t) :
    Succeeds r t := by
  obtain ⟨hle, hgrants⟩ := h
  obtain ⟨hle', hgrants' | habove'⟩ := h'
  · refine ⟨hle.trans hle', hgrants.imp (redressed_trans · hgrants') fun habove n hn => ?_⟩
    rw [grantSequences_redressed hgrants'] at hn
    exact ⟨(habove n hn).1, (habove n hn).2.trans hle'⟩
  · exact ⟨hle.trans hle', .inr fun n hn => ⟨hle.trans_lt (habove' n hn).1, (habove' n hn).2⟩⟩

theorem Succeeds.drawn {r r' : PartitionRuntime} (h : Succeeds r r') (hr : Drawn r) : Drawn r' := by
  obtain ⟨hle, hgrants | habove⟩ := h
  · intro n hn
    rw [grantSequences_redressed hgrants] at hn
    exact (hr n hn).trans hle
  · exact fun n hn => (habove n hn).2

/-- The numbers a completed assessment gives are above the counter it found. -/
theorem Surveyed.succeeds {allowRestore : Bool} {generation : PartitionGeneration}
    {r r' : PartitionRuntime} {outcome : PartitionAssessment}
    (h : Surveyed allowRestore generation r r' outcome) : Succeeds r r' := by
  have hsequenced : ∀ q ∈ outcome.partitions,
      Sequenced r.state.authoritySequence r'.state.authoritySequence q := fun q hq => h.sequenced hq
  obtain ⟨-, -, _, _, _, _, _, _, _, _, _, -, rfl⟩ := h.cases
  refine ⟨((beginAssessment generation r).evaluateAuthority_sequence _ allowRestore).1, .inr ?_⟩
  intro n hn
  obtain ⟨q, hq, rfl⟩ := List.mem_map.mp hn
  obtain ⟨hq, hgranted⟩ := List.mem_filter.mp hq
  have hnumber := hsequenced q hq
  rwa [Sequenced, if_pos hgranted] at hnumber

theorem Rests.succeeds {r r' : PartitionRuntime} (h : Rests r r') : Succeeds r r' :=
  ⟨h.authority, .inl (by rw [h.partitions]; exact redressed_refl _)⟩

/-- **One call** keeps the grants, or numbers all of them anew. -/
theorem Carries.succeeds {r r' : PartitionRuntime} (h : Carries r r') : Succeeds r r' := by
  rcases h with ⟨hpartitions, hauthority⟩ | ⟨hopening, hsurvey, hending⟩
  · exact ⟨hauthority, .inl hpartitions⟩
  · exact hopening.succeeds.trans (hsurvey.succeeds.trans hending.succeeds)

/-- **Fencing numbers only go up.**  Between any two points in the life of an incarnation, the current
grants are the same ones, or every grant of the later point has a number above that of every grant of
the earlier one. -/
theorem grants_ascend {options : RuntimeOptions} {disk : Disk} {ids : BootIdentities}
    {faults : List (Option AppendFault)} {r : PartitionRuntime}
    (hstart : construct options disk ids faults = (.ok (), r)) (cs ds : List Call) :
    List.Forall₂ Redressed (r.after cs).partitions (r.after (cs ++ ds)).partitions ∨
      ∀ n ∈ grantSequences (r.after cs).partitions,
        ∀ m ∈ grantSequences (r.after (cs ++ ds)).partitions, n < m := by
  have hrun : ∀ (s : PartitionRuntime) (es : List Call), Succeeds s (s.after es) := by
    intro s es
    induction es generalizing s with
    | nil => exact .refl s
    | cons c es ih => exact (call_carries s c).succeeds.trans (ih _)
  have hinit : Drawn r := by
    intro n hn
    rw [construct_partitions hstart] at hn
    cases hn
  have hdrawn : Drawn (r.after cs) := (hrun r cs).drawn hinit
  rw [after_append]
  obtain ⟨-, hsame | habove⟩ := hrun (r.after cs) ds
  · exact .inl hsame
  · exact .inr fun n hn m hm => (hdrawn n hn).trans_lt (habove m hm).1

theorem regranted_ascend :
    List.Forall₂ Redressed (durableRuntime.after (firstGrant [])).partitions
        (durableRuntime.after (firstGrant [] ++ firstGrant [])).partitions ∨
      ∀ n ∈ grantSequences (durableRuntime.after (firstGrant [])).partitions,
        ∀ m ∈ grantSequences (durableRuntime.after (firstGrant [] ++ firstGrant [])).partitions,
          n < m :=
  grants_ascend durableRuntime_started (firstGrant []) (firstGrant [])

/-! ## The policies of a run -/

theorem Publishes.policy {r r' : PartitionRuntime} (h : Publishes r r') : r'.policy = r.policy := by
  rcases h with h | ⟨_, _, a, t, outcome, ha, hs, ht⟩
  · exact h.policy
  · obtain ⟨-, -, _, _, _, _, _, _, _, _, _, -, rfl⟩ := hs.cases
    exact ht.policy.trans ha.policy

theorem adoptTopology_policy (definition : TopologyDefinition) (r : PartitionRuntime) :
    (adoptTopology definition r).2.policy = r.policy := by
  rcases adoptTopology_cases (Prod.eta (adoptTopology definition r)).symm with
    ⟨s, hst, hq, -⟩ | ⟨roster, s, -, -, hcommit, hrest⟩
  · exact hq.settled.policy.trans hst.settled.policy
  · have hstored := commitRecord_stored .topologyDefinition (encodeTopology definition) r
    rw [hcommit] at hstored
    rcases hrest with ⟨-, hq, -⟩ | ⟨-, qs, t, -, hint, ⟨hr', -⟩ | ⟨-, hq, -⟩⟩
    · exact hq.settled.policy.trans hstored.settled.policy
    · rw [hr']
      exact (hstored.settled.trans hint.settled).policy
    · exact hq.settled.policy.trans (hstored.settled.trans hint.settled).policy

theorem setPolicy_policy (policy : PartitionPolicy) (r : PartitionRuntime) :
    (setPolicy policy r).2.policy = r.policy ∨
      policy.canonicalised r.limits = some (setPolicy policy r).2.policy := by
  rcases setPolicy_cases (Prod.eta (setPolicy policy r)).symm with
    ⟨s, hst, hq, -⟩ | ⟨canonical, s, qs, t, hcanonical, -, hcommit, -, hint, ⟨hr', -⟩ | ⟨-, hq, -⟩⟩
  · exact .inl (hq.settled.policy.trans hst.settled.policy)
  · have hstored := commitRecord_stored .policyDefinition (encodePolicy canonical) r
    rw [hcommit] at hstored
    rw [hr']
    exact .inl (hstored.settled.trans hint.settled).policy
  · refine .inr ?_
    rw [hq.settled.policy]
    exact hcanonical

/-- **The policy in force is changed by `set_policy` only**, and to what that was given. -/
theorem perform_policy (r : PartitionRuntime) (operation : Operation) :
    (r.perform operation).2.policy = r.policy ∨
      ∃ policy, operation = .setPolicy policy ∧
        policy.canonicalised r.limits = some (r.perform operation).2.policy := by
  cases operation with
  | advanceTicks delta =>
    rw [perform]
    rcases advanceTicks_cases (Prod.eta (advanceTicks delta r)).symm with h | ⟨tick, h⟩ <;> rw [h] <;>
      exact .inl rfl
  | adoptTopology definition =>
    rw [perform, respond_snd]
    exact .inl (adoptTopology_policy definition r)
  | setPolicy policy =>
    rw [perform, respond_snd]
    exact (setPolicy_policy policy r).imp_right fun h => ⟨policy, rfl, h⟩
  | ingestEvidence evidence =>
    rw [perform, respond_snd]
    exact .inl (ingestEvidence_settled evidence r).policy
  | assess =>
    rw [perform, respond_snd]
    exact .inl ((Rests.refl r).assesses (Prod.eta (assessLocked false r)).symm).policy
  | requestMerge request =>
    rw [perform, respond_snd]
    exact .inl (requestMerge_publishes request r).policy
  | isolate request =>
    rw [perform, respond_snd]
    rcases isolate_cases (Prod.eta (isolate request r)).symm with hq | hre
    · exact .inl hq.settled.policy
    · exact .inl hre.publishes.policy
  | clearIsolation request =>
    rw [perform, respond_snd]
    rcases clearIsolation_cases (Prod.eta (clearIsolation request r)).symm with hq | hre
    · exact .inl hq.settled.policy
    · exact .inl hre.publishes.policy
  | retire request =>
    rw [perform, respond_snd]
    exact .inl (retire_publishes request r).policy
  | revalidate request =>
    rw [perform, respond_snd]
    exact .inl (revalidate_publishes request r).policy
  | recordAcknowledgement ack =>
    rw [perform, respond_snd]
    rcases recordAcknowledgement_cases (Prod.eta (recordAcknowledgement ack r)).symm with hq | hq <;>
      exact .inl hq.settled.policy
  | recordVerifiedEffect effect =>
    rw [perform, respond_snd]
    rcases recordVerifiedEffect_cases (Prod.eta (recordVerifiedEffect effect r)).symm with hq | hq <;>
      exact .inl hq.settled.policy
  | close =>
    rw [perform, close]
    split <;> exact .inl rfl

/-- No policy is set that allows several authoritative partitions. -/
def SingleAuthority (cs : List Call) : Prop :=
  ∀ c ∈ cs, ∀ policy, c.operation = .setPolicy policy →
    policy.allowMultipleAuthoritativePartitions = false

theorem canonicalised_multiple {p canonical : PartitionPolicy} {limits : Limits}
    (h : p.canonicalised limits = some canonical) :
    canonical.allowMultipleAuthoritativePartitions = p.allowMultipleAuthoritativePartitions := by
  rw [PartitionPolicy.canonicalised] at h
  dsimp only at h
  split_ifs at h
  cases h
  rfl

/-- A policy that allows one authoritative partition stays in force as long as only such are set. -/
theorem call_single {r : PartitionRuntime} {c : Call}
    (hr : r.policy.allowMultipleAuthoritativePartitions = false) (hc : SingleAuthority [c]) :
    (r.call c).2.policy.allowMultipleAuthoritativePartitions = false := by
  rcases perform_policy (r.withFaults c.faults) c.operation with hsame | ⟨policy, hset, hcanonical⟩
  · rw [call, hsame]
    exact hr
  · rw [call, canonicalised_multiple hcanonical]
    exact hc c (List.mem_singleton_self c) policy hset

/-- **One primary.**  An incarnation that starts under a policy with one authoritative partition, and
is given only such policies, never shows two primary partitions, whatever else is called and
whichever appends fail. -/
theorem one_primary {options : RuntimeOptions} {disk : Disk} {ids : BootIdentities}
    {faults : List (Option AppendFault)} {r : PartitionRuntime}
    (hstart : construct options disk ids faults = (.ok (), r))
    (hpolicy : r.policy.allowMultipleAuthoritativePartitions = false) {cs : List Call}
    (hcalls : SingleAuthority cs) :
    (r.after cs).partitions.countP (fun p => p.authority.authorityClass == .primary) ≤ 1 := by
  have hsingle : ∀ ds, SingleAuthority ds →
      (r.after ds).policy.allowMultipleAuthoritativePartitions = false := by
    intro ds
    induction ds using List.reverseRecOn with
    | nil => exact fun _ => hpolicy
    | append_singleton ds c ih =>
      intro hds
      rw [after_append]
      exact call_single (ih fun d hd => hds d (List.mem_append_left _ hd)) fun d hd =>
        hds d (List.mem_append_right _ hd)
  rcases after_safe (construct_partitions hstart) cs with hnil | ⟨ds, c, es, rfl, hsafe⟩
  · simp [hnil]
  · exact hsafe.single (hsingle ds fun d hd => hcalls d (List.mem_append_left _ hd))

theorem granted_one_primary :
    (durableRuntime.after (firstGrant [])).partitions.countP
      (fun p => p.authority.authorityClass == .primary) ≤ 1 :=
  one_primary durableRuntime_started (by decide +kernel) (by simp [SingleAuthority, firstGrant])

end PartitionRuntime

end FabricPartition
