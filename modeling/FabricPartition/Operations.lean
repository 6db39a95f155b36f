import FabricPartition.Restart
import FabricPartition.Survey

/-!
# The methods, taken apart

For each method of the runtime, the moves it can make and in which order, with what it returns.
Every lemma here is an inversion: from one call, whatever its outcome, to the moves behind it.  The
outcomes that matter to the laws of the runtime — a granted merge, a granted retirement, a policy or
a topology that takes effect — carry the checks that let them through.
-/

set_option autoImplicit false

namespace FabricPartition

namespace PartitionRuntime

/-- Only the journal moved, by records of one type. -/
def Stored (type : DurableRecordType) (r r' : PartitionRuntime) : Prop :=
  ∃ j : Journal, Journaled (OfType type) r.journal j ∧
    r' = { r with store := j.1, durableSequence := j.2 }

theorem Stored.refl (type : DurableRecordType) (r : PartitionRuntime) : Stored type r r :=
  ⟨r.journal, .refl, rfl⟩

theorem commitRecord_stored (type : DurableRecordType) (payload : Bytes) (r : PartitionRuntime) :
    Stored type r (commitRecord type payload r).2 := ⟨_, .single rfl, rfl⟩

/-! ## Inputs -/

theorem advanceTicks_cases {delta : UInt64} {r r' : PartitionRuntime} {done : Bool}
    (h : advanceTicks delta r = (done, r')) :
    r' = r ∨ ∃ tick, r' = { r with state := { r.state with tick := tick } } := by
  rw [advanceTicks] at h
  split at h
  · cases h
    exact .inl rfl
  · generalize checkedAdd r.state.tick delta = next at h
    cases next with
    | none =>
      cases h
      exact .inl rfl
    | some next =>
      cases h
      exact .inr ⟨next, rfl⟩

/-- A decision that did not take effect: it is not a grant. -/
def NotGranted (res : Except PartitionError Decision) : Prop :=
  ∀ d, res = .ok d → d.verdict ≠ .granted

theorem finalizeDecision_notGranted {decision : Decision} {r r' : PartitionRuntime}
    {res : Except PartitionError Decision} (h : finalizeDecision decision r = (res, r'))
    (hv : decision.verdict ≠ .granted) : Quiet r r' ∧ NotGranted res := by
  obtain ⟨hq, ⟨d, rfl, hd⟩ | ⟨rfl, -⟩⟩ := finalizeDecision_cases h
  · refine ⟨hq, ?_⟩
    rintro d' hd'
    cases hd'
    rwa [hd]
  · exact ⟨hq, fun d hd => by cases hd⟩

theorem adoptionCheck_error {r : PartitionRuntime} {definition : TopologyDefinition}
    {decision refused : Decision} (h : r.adoptionCheck definition decision = .error refused) :
    refused.verdict ≠ .granted := by
  rw [adoptionCheck] at h
  split at h
  · cases h
    simp [conclude, explain]
  · split at h
    · cases h
      simp [conclude, explain]
    · split at h
      · cases h
        simp [conclude, explain]
      · split at h
        · split at h <;> cases h <;> simp [conclude, explain]
        · cases h

theorem adoptionCheck_ok {r : PartitionRuntime} {definition : TopologyDefinition}
    {decision : Decision} {roster : ComponentRoster}
    (h : r.adoptionCheck definition decision = .ok roster) :
    r.closed = false ∧ ComponentRoster.create definition r.limits = some roster := by
  rw [adoptionCheck] at h
  by_cases hclosed : r.closed = true
  · rw [if_pos hclosed] at h
    cases h
  rw [if_neg hclosed] at h
  refine ⟨by simpa using hclosed, ?_⟩
  cases hcreate : ComponentRoster.create definition r.limits with
  | none =>
    rw [hcreate] at h
    cases h
  | some roster' =>
    simp only [hcreate] at h
    split at h
    · cases h
    · split at h
      · split at h <;> cases h
      · cases h
        rfl

/-- A decision that took effect: it is a grant, unless its identity could not be drawn. -/
def TookEffect (res : Except PartitionError Decision) : Prop :=
  (∃ d, res = .ok d ∧ d.verdict = .granted) ∨ res = .error .decisionExhausted

theorem finalizeDecision_tookEffect {decision : Decision} {r r' : PartitionRuntime}
    {res : Except PartitionError Decision} (h : finalizeDecision decision r = (res, r'))
    (hv : decision.verdict = .granted) : Quiet r r' ∧ TookEffect res := by
  obtain ⟨hq, ⟨d, rfl, hd⟩ | ⟨rfl, -⟩⟩ := finalizeDecision_cases h
  · exact ⟨hq, .inl ⟨d, rfl, by rw [hd, hv]⟩⟩
  · exact ⟨hq, .inr rfl⟩

/-- Superseding the partitions: nothing without a roster; with one, the grants are interrupted and
the partitions marked, unless the fences run out on the way. -/
theorem supersedePartitions_cases {r r' : PartitionRuntime} {res : Except PartitionError Unit}
    (h : supersedePartitions r = (res, r')) :
    (r.rosterSet = false ∧ r' = r ∧ res = .ok ()) ∨
    r.rosterSet = true ∧ ∃ qs t, qs <+: r.partitions.filter Partition.granted ∧
      Interrupted qs r t ∧
      (r' = t ∧ res = .error .fenceExhausted ∨
        (qs = r.partitions.filter Partition.granted ∨ t.state.authoritySequence.next = none) ∧
        r' = { t with
          partitions := t.partitions.map fun p => { p with lifecycle := .superseded } } ∧
        res = .ok ()) := by
  rw [supersedePartitions, Act.read_bind] at h
  cases hroster : r.rosterSet with
  | false =>
    simp only [hroster, Bool.false_eq_true, if_false] at h
    cases h
    exact .inl ⟨rfl, rfl, rfl⟩
  | true =>
    simp only [hroster, if_true] at h
    refine .inr ⟨rfl, ?_⟩
    rcases Act.bind_cases h with ⟨_, t, hint, hmap⟩ | ⟨e, hint, rfl⟩
    · obtain ⟨qs, hqs, hinter, ⟨-, hall⟩ | herr⟩ := interruptAllAuthority_cases hint
      · cases hmap
        exact ⟨qs, t, hqs, hinter, .inr ⟨hall, rfl, rfl⟩⟩
      · cases herr
    · obtain ⟨qs, hqs, hinter, ⟨hok, -⟩ | herr⟩ := interruptAllAuthority_cases hint
      · cases hok
      · cases herr
        exact ⟨qs, r', hqs, hinter, .inl ⟨rfl, rfl⟩⟩

/-- **The runs of `adopt_topology`**: refused, or the roster is replaced — after the grants of the
old one were interrupted, if there was one. -/
theorem adoptTopology_cases {definition : TopologyDefinition} {r r' : PartitionRuntime}
    {res : Except PartitionError Decision} (h : adoptTopology definition r = (res, r')) :
    (∃ s, Stored .topologyDefinition r s ∧ Quiet s r' ∧ NotGranted res) ∨
    ∃ roster s, r.closed = false ∧ ComponentRoster.create definition r.limits = some roster ∧
      commitRecord .topologyDefinition (encodeTopology definition) r = (true, s) ∧
      ((r.rosterSet = false ∧ Quiet (installRoster definition roster s) r' ∧ TookEffect res) ∨
        r.rosterSet = true ∧ ∃ qs t, qs <+: r.partitions.filter Partition.granted ∧
          Interrupted qs s t ∧
          (r' = t ∧ res = .error .fenceExhausted ∨
            (qs = r.partitions.filter Partition.granted ∨
              t.state.authoritySequence.next = none) ∧
            Quiet (installRoster definition roster
              { t with partitions := t.partitions.map fun p => { p with lifecycle := .superseded } })
              r' ∧ TookEffect res)) := by
  rw [adoptTopology, Act.read_bind] at h
  dsimp only at h
  cases hcheck : r.adoptionCheck definition
      (r.makeDecision .adoptTopology .observed (namedScope .fabric (ascii "fabric"))) with
  | error refused =>
    rw [hcheck] at h
    obtain ⟨hq, hng⟩ := finalizeDecision_notGranted h (adoptionCheck_error hcheck)
    exact .inl ⟨r, .refl _ r, hq, hng⟩
  | ok roster =>
    simp only [hcheck] at h
    rw [Act.total_bind] at h
    have hstored := commitRecord_stored .topologyDefinition (encodeTopology definition) r
    have hset : (commitRecord .topologyDefinition (encodeTopology definition) r).2.rosterSet
      = r.rosterSet := rfl
    have hparts : (commitRecord .topologyDefinition (encodeTopology definition) r).2.partitions
      = r.partitions := rfl
    rcases hcommit : commitRecord .topologyDefinition (encodeTopology definition) r
      with ⟨_ | _, s⟩
    · simp only [hcommit, Bool.not_false, if_true] at h hstored
      obtain ⟨hq, hng⟩ := finalizeDecision_notGranted h (by simp [conclude, explain])
      exact .inl ⟨s, hstored, hq, hng⟩
    · simp only [hcommit, Bool.not_true, Bool.false_eq_true, if_false] at h hset hparts
      obtain ⟨hclosed, hcreate⟩ := adoptionCheck_ok hcheck
      refine .inr ⟨roster, s, hclosed, hcreate, rfl, ?_⟩
      rw [← hset, ← hparts]
      rcases Act.bind_cases h with ⟨_, t, hsup, hrest⟩ | ⟨e, hsup, rfl⟩
      · rw [Act.modify_bind] at hrest
        obtain ⟨hq, heff⟩ := finalizeDecision_tookEffect hrest rfl
        rcases supersedePartitions_cases hsup with ⟨hroster, rfl, -⟩ |
          ⟨hroster, qs, u, hqs, hint, ⟨-, he⟩ | ⟨hall, rfl, -⟩⟩
        · exact .inl ⟨hroster, hq, heff⟩
        · cases he
        · exact .inr ⟨hroster, qs, u, hqs, hint, .inr ⟨hall, hq, heff⟩⟩
      · rcases supersedePartitions_cases hsup with ⟨-, -, he⟩ |
          ⟨hroster, qs, u, hqs, hint, ⟨rfl, he⟩ | ⟨-, -, he⟩⟩
        · cases he
        · cases he
          exact .inr ⟨hroster, qs, _, hqs, hint, .inl ⟨rfl, rfl⟩⟩
        · cases he

/-- What the checks of an adoption establish about the generation. -/
theorem adoptionCheck_advances {r : PartitionRuntime} {definition : TopologyDefinition}
    {decision : Decision} {roster : ComponentRoster}
    (h : r.adoptionCheck definition decision = .ok roster) (hset : r.rosterSet = true) :
    r.topology.generation.value < definition.generation.value := by
  rw [adoptionCheck] at h
  split at h
  · cases h
  split at h
  · cases h
  split at h
  · cases h
  rename_i hlt
  split at h
  · split at h <;> cases h
  rename_i hne
  simp only [hset, Bool.true_and, decide_eq_true_eq, beq_iff_eq] at hlt hne
  exact UInt64.lt_of_le_of_ne (UInt64.not_lt.mp hlt) (Ne.symm hne)

/-- **The phases of `adopt_topology`**, by the step that ends it. -/
theorem adoptTopology_phases {definition : TopologyDefinition} {r r' : PartitionRuntime}
    {res : Except PartitionError Decision} (h : adoptTopology definition r = (res, r')) :
    (Quiet r r' ∧ ∃ refused, r.adoptionCheck definition (r.makeDecision .adoptTopology .observed
        (namedScope .fabric (ascii "fabric"))) = .error refused) ∨
    ∃ roster, r.adoptionCheck definition (r.makeDecision .adoptTopology .observed
        (namedScope .fabric (ascii "fabric"))) = .ok roster ∧
      ((∃ s, commitRecord .topologyDefinition (encodeTopology definition) r = (false, s) ∧
          Quiet s r') ∨
        ∃ s, commitRecord .topologyDefinition (encodeTopology definition) r = (true, s) ∧
          ((∃ e, supersedePartitions s = (.error e, r')) ∨
            ∃ t, supersedePartitions s = (.ok (), t) ∧
              Quiet (installRoster definition roster t) r')) := by
  rw [adoptTopology, Act.read_bind] at h
  dsimp only at h
  rcases hcheck : r.adoptionCheck definition (r.makeDecision .adoptTopology .observed
      (namedScope .fabric (ascii "fabric"))) with refused | roster
  · rw [hcheck] at h
    exact .inl ⟨(finalizeDecision_cases h).1, refused, rfl⟩
  · simp only [hcheck] at h
    rw [Act.total_bind] at h
    refine .inr ⟨roster, rfl, ?_⟩
    rcases hcommit : commitRecord .topologyDefinition (encodeTopology definition) r with ⟨_ | _, s⟩
    · simp only [hcommit, Bool.not_false, if_true] at h
      exact .inl ⟨s, rfl, (finalizeDecision_cases h).1⟩
    · simp only [hcommit, Bool.not_true, Bool.false_eq_true, if_false] at h
      refine .inr ⟨s, rfl, ?_⟩
      rcases Act.bind_cases h with ⟨_, t, hsup, hrest⟩ | ⟨e, hsup, rfl⟩
      · rw [Act.modify_bind] at hrest
        exact .inr ⟨t, hsup, (finalizeDecision_cases hrest).1⟩
      · exact .inl ⟨e, hsup⟩

theorem policyCheck_error {r : PartitionRuntime} {policy : PartitionPolicy}
    {decision refused : Decision} (h : r.policyCheck policy decision = .error refused) :
    refused.verdict ≠ .granted := by
  rw [policyCheck] at h
  split at h
  · cases h
    simp [conclude, explain]
  · split at h
    · cases h
      simp [conclude, explain]
    · split at h
      · cases h
        simp [conclude, explain]
      · cases h

/-- **The runs of `set_policy`**: refused, or the grants are interrupted and the policy replaced. -/
theorem setPolicy_cases {policy : PartitionPolicy} {r r' : PartitionRuntime}
    {res : Except PartitionError Decision} (h : setPolicy policy r = (res, r')) :
    (∃ s, Stored .policyDefinition r s ∧ Quiet s r' ∧ NotGranted res) ∨
    ∃ canonical s qs t, policy.canonicalised r.limits = some canonical ∧
      r.policy.generation.value < canonical.generation.value ∧
      commitRecord .policyDefinition (encodePolicy canonical) r = (true, s) ∧
      qs <+: r.partitions.filter Partition.granted ∧ Interrupted qs s t ∧
      (r' = t ∧ res = .error .fenceExhausted ∨
        (qs = r.partitions.filter Partition.granted ∨ t.state.authoritySequence.next = none) ∧
        Quiet { t with policy := canonical } r' ∧ TookEffect res) := by
  rw [setPolicy, Act.read_bind] at h
  dsimp only at h
  cases hcheck : r.policyCheck policy
      (r.makeDecision .setPolicy .observed (namedScope .fabric (ascii "policy"))) with
  | error refused =>
    rw [hcheck] at h
    obtain ⟨hq, hng⟩ := finalizeDecision_notGranted h (policyCheck_error hcheck)
    exact .inl ⟨r, .refl _ r, hq, hng⟩
  | ok canonical =>
    simp only [hcheck] at h
    rw [Act.total_bind] at h
    have hcanonical : policy.canonicalised r.limits = some canonical ∧
        r.policy.generation.value < canonical.generation.value := by
      rw [policyCheck] at hcheck
      split at hcheck
      · cases hcheck
      · split at hcheck
        · cases hcheck
        · rename_i hsome
          split at hcheck
          · cases hcheck
          · rename_i hlt
            cases hcheck
            exact ⟨hsome, by simpa using hlt⟩
    have hstored := commitRecord_stored .policyDefinition (encodePolicy canonical) r
    have hparts : (commitRecord .policyDefinition (encodePolicy canonical) r).2.partitions
      = r.partitions := rfl
    rcases hcommit : commitRecord .policyDefinition (encodePolicy canonical) r with ⟨_ | _, s⟩
    · simp only [hcommit, Bool.not_false, if_true] at h hstored
      obtain ⟨hq, hng⟩ := finalizeDecision_notGranted h (by simp [conclude, explain])
      exact .inl ⟨s, hstored, hq, hng⟩
    · simp only [hcommit, Bool.not_true, Bool.false_eq_true, if_false] at h hparts
      rw [← hparts]
      rcases Act.bind_cases h with ⟨_, t, hint, hrest⟩ | ⟨e, hint, rfl⟩
      · rw [Act.modify_bind] at hrest
        obtain ⟨hq, heff⟩ := finalizeDecision_tookEffect hrest (by simp [conclude, explain])
        obtain ⟨qs, hqs, hinter, ⟨-, hall⟩ | he⟩ := interruptAllAuthority_cases hint
        · exact .inr ⟨canonical, s, qs, t, hcanonical.1, hcanonical.2, hcommit, hqs, hinter,
            .inr ⟨hall, hq, heff⟩⟩
        · cases he
      · obtain ⟨qs, hqs, hinter, ⟨hok, -⟩ | he⟩ := interruptAllAuthority_cases hint
        · cases hok
        · cases he
          exact .inr ⟨canonical, s, qs, _, hcanonical.1, hcanonical.2, hcommit, hqs, hinter,
            .inl ⟨rfl, rfl⟩⟩

/-- `ingest_evidence` writes the ledger only. -/
theorem ingestEvidence_cases {evidence : ReachabilityEvidence} {r r' : PartitionRuntime}
    {res : Except PartitionError Decision} (h : ingestEvidence evidence r = (res, r')) :
    Quiet r r' ∨
      Quiet { r with ledger := (r.ledger.accept evidence r.roster r.policy r.state.tick).2 } r' := by
  rw [ingestEvidence, Act.read_bind] at h
  dsimp only at h
  split at h
  · exact .inl (finalizeDecision_cases h).1
  · split at h
    · exact .inl (finalizeDecision_cases h).1
    · rw [Act.modify_bind] at h
      exact .inr (finalizeDecision_cases h).1

/-! ## Merging -/

theorem checkAttempt_verdict {r : PartitionRuntime} {attempt : AttemptToken}
    {decision refused : Decision} (h : r.checkAttempt attempt decision = some refused) :
    refused.verdict = .invalid := by
  rw [checkAttempt] at h
  split at h
  · cases h
    rfl
  · split at h
    · cases h
      rfl
    · split at h
      · cases h
        rfl
      · cases h

theorem admissionCheck_verdict {r : PartitionRuntime} {attempt : AttemptToken}
    {decision refused : Decision} (hd : decision.verdict = .invalid)
    (h : r.admissionCheck attempt decision = some refused) : refused.verdict = .invalid := by
  rw [admissionCheck] at h
  split at h
  · cases h
    exact hd
  · exact checkAttempt_verdict h

theorem admissionCheck_none {r : PartitionRuntime} {attempt : AttemptToken} {decision : Decision}
    (h : r.admissionCheck attempt decision = none) : r.closed = false := by
  rw [admissionCheck] at h
  split at h
  · cases h
  · rename_i hclosed
    simpa using hclosed

/-- The checks of `request_merge` that a subject has passed. -/
structure Mergeable (r : PartitionRuntime) (request : MergeRequest) (subject : Partition) :
    Prop where
  found : r.partitionById request.subject = some subject
  generation : subject.generation = r.state.partitionGeneration
  left_mem : request.left ∈ subject.pendingMergeParents
  right_mem : request.right ∈ subject.pendingMergeParents
  ne : request.left ≠ request.right
  fresh : r.snapshot.anyEvidenceFresh = true
  confirmed : r.snapshot.confirmed = true

theorem Mergeable.mem {r : PartitionRuntime} {request : MergeRequest} {subject : Partition}
    (h : Mergeable r request subject) : subject ∈ r.partitions :=
  List.mem_of_find?_eq_some h.found

theorem Mergeable.of_quiet {r s : PartitionRuntime} {request : MergeRequest} {subject : Partition}
    (hq : Quiet r s) (h : Mergeable s request subject) : Mergeable r request subject := by
  obtain ⟨_, _, _, _, _, -, rfl⟩ := hq
  exact ⟨h.found, h.generation, h.left_mem, h.right_mem, h.ne, h.fresh, h.confirmed⟩

theorem mergeCheck_error {r : PartitionRuntime} {request : MergeRequest}
    {decision refused : Decision} (h : r.mergeCheck request decision = .error refused) :
    refused.verdict ≠ .granted := by
  rw [mergeCheck] at h
  split at h
  · cases h
    simp [explain]
  split at h
  · cases h
    simp [conclude, explain]
  split at h
  · cases h
    simp [conclude, explain]
  split at h
  · cases h
    simp [conclude, explain]
  split at h
  · cases h
    simp [conclude, explain]
  split at h
  · cases h
    simp [conclude, explain]
  split at h
  · cases h
    simp [conclude, explain]
  split at h
  split at h
  · cases h
    simp [conclude, explain]
  split at h
  · cases h
    simp [explain]
  · cases h

theorem mergeCheck_ok {r : PartitionRuntime} {request : MergeRequest} {decision : Decision}
    {subject : Partition} (h : r.mergeCheck request decision = .ok subject) :
    Mergeable r request subject := by
  rw [mergeCheck] at h
  split at h
  · cases h
  cases hfound : r.partitionById request.subject with
  | none =>
    rw [hfound] at h
    cases h
  | some found =>
    simp only [hfound] at h
    split at h
    · cases h
    rename_i hgen
    split at h
    · cases h
    split at h
    · cases h
    rename_i hparents
    split at h
    · cases h
    rename_i hfresh
    split at h
    · cases h
    rename_i hconfirmed
    split at h
    · cases h
    split at h
    · cases h
    cases h
    simp only [Bool.or_eq_true, Bool.not_eq_true', beq_iff_eq, not_or, Bool.not_eq_false,
      List.contains_iff_mem] at hparents
    exact ⟨hfound, by simpa using hgen, hparents.1.1, hparents.1.2, hparents.2,
      by simpa using hfresh, by simpa using hconfirmed⟩

/-- The merge record is committed and in the lineage store. -/
def MergeRecorded (request : MergeRequest) (subject : Partition) (r u : PartitionRuntime) : Prop :=
  ∃ (s c : PartitionRuntime) (decision : DecisionId) (sequence : LineageSequence),
    Quiet r s ∧ s.state.lineageSequence.next = some sequence ∧
    commitRecord .lineageRecord (encodeLineage (s.mergeRecord request subject decision sequence)) s
      = (true, c) ∧
    s.lineage.admits (s.mergeRecord request subject decision sequence) = true ∧
    u = { c with
      lineage := s.lineage.push (s.mergeRecord request subject decision sequence)
      state := { c.state with lineageSequence := sequence } }

theorem finishMerge_cases {decision : Decision} {r r' : PartitionRuntime}
    {res : Except PartitionError MergeOutcome} (h : finishMerge decision r = (res, r')) :
    Quiet r r' ∧ ∀ o, res = .ok o → o.verdict = decision.verdict := by
  rcases Act.bind_cases h with ⟨d, s, hd, hs⟩ | ⟨e, he, rfl⟩
  · cases hs
    refine ⟨(finalizeDecision_cases hd).1, fun o ho => ?_⟩
    cases ho
    rfl
  · exact ⟨(finalizeDecision_cases he).1, fun o ho => by cases ho⟩

/-- Fencing the subject: one fence if it holds a grant. -/
theorem fenceSubject_cases {subject : Partition} {decision : Decision} {r r' : PartitionRuntime}
    {res : Except PartitionError Decision} (h : fenceSubject subject decision r = (res, r')) :
    (∃ d, res = .ok d ∧ d.verdict = decision.verdict ∧ d.id = decision.id ∧
      Fenced (if subject.granted then [subject.authoritySequence] else []) r r') ∨
    res = .error .fenceExhausted ∧ r' = r := by
  rw [fenceSubject] at h
  by_cases hg : subject.granted = true
  · simp only [hg, Bool.not_true, Bool.false_eq_true, if_false] at h
    rcases Act.bind_cases h with ⟨f, s, hf, hs⟩ | ⟨e, he, rfl⟩
    · cases hs
      rcases issueFence_cases hf with ⟨-, hfenced⟩ | ⟨he, -⟩
      · exact .inl ⟨_, rfl, rfl, rfl, by rwa [if_pos hg]⟩
      · cases he
    · rcases issueFence_cases he with ⟨⟨f, hf⟩, -⟩ | ⟨hex, rfl⟩
      · cases hf
      · cases hex
        exact .inr ⟨rfl, rfl⟩
  · simp only [hg, Bool.not_false, if_true] at h
    cases h
    exact .inl ⟨_, rfl, rfl, rfl, by rw [if_neg hg]; exact .refl _⟩

/-- After a recorded merge: the subject is fenced, the parents' interruptions are dropped, and the
fabric is assessed again. -/
theorem completeMerge_cases {request : MergeRequest} {subject : Partition} {decision : Decision}
    {r r' : PartitionRuntime} {res : Except PartitionError MergeOutcome}
    (h : completeMerge request subject decision r = (res, r')) (hid : decision.id ≠ .nil) :
    (res = .error .fenceExhausted ∧ r' = r) ∨
    ∃ s t resA, Fenced (if subject.granted then [subject.authoritySequence] else []) r s ∧
      Quiet (dropInterrupted (fun l => l == request.left || l == request.right) s) t ∧
      assessLocked false t = (resA, r') ∧
      ((∃ a o, resA = .ok a ∧ res = .ok o ∧ o.verdict = decision.verdict) ∨
        ∃ e, resA = .error e ∧ res = .error e) := by
  rcases Act.bind_cases h with ⟨d, s, hd, hs⟩ | ⟨e, he, rfl⟩
  · rcases fenceSubject_cases hd with ⟨d', hd', hv, hdid, hfenced⟩ | ⟨he, -⟩
    · cases hd'
      rw [Act.modify_bind] at hs
      rcases Act.bind_cases hs with ⟨f, t, hf, ht⟩ | ⟨e, he, rfl⟩
      · refine .inr ⟨s, t, ?_⟩
        rcases Act.bind_cases ht with ⟨a, u, ha, hu⟩ | ⟨e, he, rfl⟩
        · cases hu
          exact ⟨_, hfenced, (finalizeDecision_cases hf).1, ha, .inl ⟨a, _, rfl, rfl, hv⟩⟩
        · exact ⟨_, hfenced, (finalizeDecision_cases hf).1, he, .inr ⟨e, rfl, rfl⟩⟩
      · obtain ⟨-, ⟨d', hd', -⟩ | ⟨-, hnil⟩⟩ := finalizeDecision_cases he
        · cases hd'
        · exact absurd (hdid.symm.trans hnil) hid
    · cases he
  · rcases fenceSubject_cases he with ⟨d', hd', -⟩ | ⟨hex, rfl⟩
    · cases hd'
    · cases hex
      exact .inl ⟨rfl, rfl⟩

/-- Everything `commit_merge` can come to. -/
theorem commitMerge_cases {request : MergeRequest} {subject : Partition} {decision : Decision}
    {r r' : PartitionRuntime} {res : Except PartitionError MergeOutcome}
    (h : commitMerge request subject decision r = (res, r')) :
    ((∃ s t, Quiet r s ∧ Stored .lineageRecord s t ∧ Quiet t r') ∧
      ∀ o, res = .ok o → o.verdict ≠ .granted) ∨
    ∃ u, MergeRecorded request subject r u ∧
      ((res = .error .fenceExhausted ∧ r' = u) ∨
      ∃ s t resA, Fenced (if subject.granted then [subject.authoritySequence] else []) u s ∧
        Quiet (dropInterrupted (fun l => l == request.left || l == request.right) s) t ∧
        assessLocked false t = (resA, r') ∧
        ((∃ a o, resA = .ok a ∧ res = .ok o ∧ o.verdict = .granted) ∨
          ∃ e, resA = .error e ∧ res = .error e)) := by
  have hfail : ∀ {d : Decision} {s t : PartitionRuntime}, Quiet r s → Stored .lineageRecord s t →
      d.verdict ≠ .granted → finishMerge d t = (res, r') →
      (∃ s t, Quiet r s ∧ Stored .lineageRecord s t ∧ Quiet t r') ∧
        ∀ o, res = .ok o → o.verdict ≠ .granted := by
    intro d s t hq hst hd hf
    obtain ⟨hq', hv⟩ := finishMerge_cases hf
    exact ⟨⟨s, t, hq, hst, hq'⟩, fun o ho => by rw [hv o ho]; exact hd⟩
  rw [commitMerge, Act.read_bind] at h
  dsimp only at h
  rcases Act.bind_cases h with ⟨d, s, hd, hs⟩ | ⟨e, he, rfl⟩
  · obtain ⟨hq, -, ⟨d', hd', hid, hv⟩ | ⟨he, -⟩⟩ := assignDecisionIdentity_cases hd
    · cases hd'
      rw [Act.read_bind] at hs
      cases hnext : s.state.lineageSequence.next with
      | none =>
        simp only [hnext] at hs
        exact .inl (hfail hq (.refl _ s) (by simp [conclude, explain]) hs)
      | some sequence =>
        simp only [hnext] at hs
        rw [Act.total_bind] at hs
        have hstored := commitRecord_stored .lineageRecord
          (encodeLineage (s.mergeRecord request subject d.id sequence)) s
        rcases hcommit : commitRecord .lineageRecord
          (encodeLineage (s.mergeRecord request subject d.id sequence)) s with ⟨_ | _, c⟩
        · simp only [hcommit, Bool.not_false, if_true] at hs hstored
          exact .inl (hfail hq hstored (by simp [conclude, explain]) hs)
        · simp only [hcommit, Bool.not_true, Bool.false_eq_true, if_false] at hs hstored
          by_cases hadmits : s.lineage.admits (s.mergeRecord request subject d.id sequence) = true
          · simp only [LineageStore.append, hadmits, if_true] at hs
            rw [Act.modify_bind] at hs
            refine .inr ⟨_, ⟨s, c, d.id, sequence, hq, hnext, hcommit, hadmits, rfl⟩, ?_⟩
            rcases completeMerge_cases hs hid with ⟨rfl, rfl⟩ | ⟨t, u, resA, hf, hq', ha, hres⟩
            · exact .inl ⟨rfl, rfl⟩
            · refine .inr ⟨t, u, resA, hf, hq', ha, ?_⟩
              rwa [hv] at hres
          · simp only [LineageStore.append, hadmits] at hs
            exact .inl (hfail hq hstored (by simp [conclude, explain]) hs)
    · cases he
  · obtain ⟨hq, -, ⟨d', hd', -⟩ | ⟨herr, -⟩⟩ := assignDecisionIdentity_cases he
    · cases hd'
    · exact .inl ⟨⟨r', r', hq, .refl _ _, .refl _⟩, fun o ho => by cases ho⟩

/-- **The runs of `request_merge`**: refused or failed, or recorded — and then the subject is fenced
and the fabric is assessed again, unless a counter runs out. -/
theorem requestMerge_cases {request : MergeRequest} {r r' : PartitionRuntime}
    {res : Except PartitionError MergeOutcome} (h : requestMerge request r = (res, r')) :
    ((∃ s t, Quiet r s ∧ Stored .lineageRecord s t ∧ Quiet t r') ∧
      ∀ o, res = .ok o → o.verdict ≠ .granted) ∨
    ∃ subject u, r.closed = false ∧ Mergeable r request subject ∧
      MergeRecorded request subject r u ∧
      ((res = .error .fenceExhausted ∧ r' = u) ∨
      ∃ s t resA, Fenced (if subject.granted then [subject.authoritySequence] else []) u s ∧
        Quiet (dropInterrupted (fun l => l == request.left || l == request.right) s) t ∧
        assessLocked false t = (resA, r') ∧
        ((∃ a o, resA = .ok a ∧ res = .ok o ∧ o.verdict = .granted) ∨
          ∃ e, resA = .error e ∧ res = .error e)) := by
  rw [requestMerge, Act.read_bind] at h
  cases hadm : r.admissionCheck request.attempt
      (r.makeDecision .mergePartitions .invalid (partitionScope request.subject)) with
  | some refused =>
    rw [hadm] at h
    obtain ⟨hq, hv⟩ := finishMerge_cases h
    exact .inl ⟨⟨r, r, .refl r, .refl _ r, hq⟩, fun o ho => by
      rw [hv o ho, admissionCheck_verdict rfl hadm]
      decide⟩
  | none =>
    simp only [hadm] at h
    rw [Act.modify_bind, Act.read_bind] at h
    have hattempt := recordAttempt_quiet request.attempt .mergePartitions r
    cases hcheck : (recordAttempt request.attempt .mergePartitions r).mergeCheck request
        (r.makeDecision .mergePartitions .invalid (partitionScope request.subject)) with
    | error refused =>
      rw [hcheck] at h
      obtain ⟨hq, hv⟩ := finishMerge_cases h
      exact .inl ⟨⟨r, r, .refl r, .refl _ r, hattempt.trans hq⟩, fun o ho => by
        rw [hv o ho]
        exact mergeCheck_error hcheck⟩
    | ok subject =>
      simp only [hcheck] at h
      rcases commitMerge_cases h with ⟨⟨s, t, hq, hst, hq'⟩, hv⟩ | ⟨u, hu, hrest⟩
      · exact .inl ⟨⟨s, t, hattempt.trans hq, hst, hq'⟩, hv⟩
      · obtain ⟨s, c, d, sequence, hq, hmid⟩ := hu
        exact .inr ⟨subject, u, admissionCheck_none hadm, (mergeCheck_ok hcheck).of_quiet hattempt,
          ⟨s, c, d, sequence, hattempt.trans hq, hmid⟩, hrest⟩

/-! ## Isolation -/

theorem finishIsolation_quiet {decision : Decision} {r r' : PartitionRuntime}
    {res : Except PartitionError IsolationOutcome} (h : finishIsolation decision r = (res, r')) :
    Quiet r r' := by
  rcases Act.bind_cases h with ⟨d, s, hd, hs⟩ | ⟨e, he, rfl⟩
  · cases hs
    exact (finalizeDecision_cases hd).1
  · exact (finalizeDecision_cases he).1

theorem Quiet.withIsolations {r s : PartitionRuntime} (h : Quiet r s)
    (isolations : List IsolationDirective) :
    Quiet { r with isolations := isolations } { s with isolations := isolations } := by
  obtain ⟨_, _, _, _, _, hj, rfl⟩ := h
  exact ⟨_, _, _, _, _, hj, rfl⟩

/-- The isolation table is replaced and the fabric assessed again. -/
def Reassessed (r r' : PartitionRuntime) : Prop :=
  ∃ (isolations : List IsolationDirective) (s : PartitionRuntime),
    Quiet { r with isolations := isolations } s ∧ (r' = s ∨ ∃ res, assessLocked false s = (res, r'))

theorem concludeIsolation_cases {decision : Decision} {r r' : PartitionRuntime}
    {res : Except PartitionError IsolationOutcome} (h : concludeIsolation decision r = (res, r')) :
    ∃ s, Quiet r s ∧ (r' = s ∨ ∃ res, assessLocked false s = (res, r')) := by
  rcases Act.bind_cases h with ⟨d, s, hd, hs⟩ | ⟨e, he, rfl⟩
  · refine ⟨s, finishIsolation_quiet hd, .inr ?_⟩
    rcases Act.bind_cases hs with ⟨a, t, ha, ht⟩ | ⟨e, he, rfl⟩
    · cases ht
      exact ⟨_, ha⟩
    · exact ⟨_, he⟩
  · exact ⟨r', finishIsolation_quiet he, .inl rfl⟩

/-- **The runs of `isolate`**. -/
theorem isolate_cases {request : IsolationRequest} {r r' : PartitionRuntime}
    {res : Except PartitionError IsolationOutcome} (h : isolate request r = (res, r')) :
    Quiet r r' ∨ Reassessed r r' := by
  rw [isolate, Act.read_bind] at h
  cases hadm : r.admissionCheck request.attempt
      (r.makeDecision .isolateComponents .invalid fabricScope) with
  | some refused =>
    rw [hadm] at h
    exact .inl (finishIsolation_quiet h)
  | none =>
    simp only [hadm] at h
    rw [Act.modify_bind, Act.read_bind] at h
    have hattempt := recordAttempt_quiet request.attempt .isolateComponents r
    cases hcheck : (recordAttempt request.attempt .isolateComponents r).isolateCheck request
        (r.makeDecision .isolateComponents .invalid fabricScope) with
    | some refused =>
      rw [hcheck] at h
      exact .inl (hattempt.trans (finishIsolation_quiet h))
    | none =>
      simp only [hcheck] at h
      rw [Act.modify_bind] at h
      obtain ⟨s, hq, hres⟩ := concludeIsolation_cases h
      exact .inr ⟨_, s, (hattempt.withIsolations _).trans hq, hres⟩

/-- **The runs of `clear_isolation`**. -/
theorem clearIsolation_cases {request : IsolationRequest} {r r' : PartitionRuntime}
    {res : Except PartitionError IsolationOutcome} (h : clearIsolation request r = (res, r')) :
    Quiet r r' ∨ Reassessed r r' := by
  rw [clearIsolation, Act.read_bind] at h
  cases hadm : r.admissionCheck request.attempt
      (r.makeDecision .isolateComponents .invalid fabricScope) with
  | some refused =>
    rw [hadm] at h
    exact .inl (finishIsolation_quiet h)
  | none =>
    simp only [hadm] at h
    rw [Act.modify_bind, Act.read_bind] at h
    have hattempt := recordAttempt_quiet request.attempt .isolateComponents r
    cases hcheck : (recordAttempt request.attempt .isolateComponents r).epochRefusal
        request.expectedEpoch request.lineage.text
        (r.makeDecision .isolateComponents .invalid fabricScope) with
    | some refused =>
      rw [hcheck] at h
      exact .inl (hattempt.trans (finishIsolation_quiet h))
    | none =>
      simp only [hcheck] at h
      rw [Act.modify_bind] at h
      split at h
      · obtain ⟨s, hq, hres⟩ := concludeIsolation_cases h
        exact .inr ⟨_, s, (hattempt.withIsolations _).trans hq, hres⟩
      · obtain ⟨s, hq, hres⟩ := concludeIsolation_cases h
        exact .inr ⟨_, s, (hattempt.withIsolations _).trans hq, hres⟩

/-! ## Retirement -/

theorem retireCheck_error {r : PartitionRuntime} {request : RetireRequest}
    {decision refused : Decision} (h : r.retireCheck request decision = .error refused) :
    refused.verdict ≠ .granted := by
  rw [retireCheck, epochRefusal] at h
  split at h
  · rename_i hrefusal
    split at hrefusal
    · cases hrefusal
      cases h
      simp [conclude, explain]
    · cases hrefusal
  · split at h
    · cases h
      simp [conclude, explain]
    · split at h
      · cases h
        simp [conclude, explain]
      · split at h
        · cases h
          simp [conclude, explain]
        · cases h

theorem retireCheck_ok {r : PartitionRuntime} {request : RetireRequest} {decision : Decision}
    {latest : LineageRecord} {sequence : LineageSequence}
    (h : r.retireCheck request decision = .ok (latest, sequence)) :
    r.lineage.latest request.lineage = some latest ∧ latest.event ≠ .retire ∧
      r.state.lineageSequence.next = some sequence := by
  rw [retireCheck] at h
  split at h
  · cases h
  cases hlatest : r.lineage.latest request.lineage with
  | none =>
    rw [hlatest] at h
    cases h
  | some latest' =>
    simp only [hlatest] at h
    split at h
    · cases h
    rename_i hevent
    cases hnext : r.state.lineageSequence.next with
    | none =>
      rw [hnext] at h
      cases h
    | some sequence' =>
      rw [hnext] at h
      cases h
      exact ⟨rfl, hevent, rfl⟩

/-- The retirement record is committed and in the lineage store. -/
def RetireRecorded (request : RetireRequest) (r u : PartitionRuntime) : Prop :=
  ∃ (s c : PartitionRuntime) (latest : LineageRecord) (decision : DecisionId)
    (sequence : LineageSequence),
    Quiet r s ∧ s.lineage.latest request.lineage = some latest ∧ latest.event ≠ .retire ∧
    s.state.lineageSequence.next = some sequence ∧
    commitRecord .lineageRecord
      (encodeLineage (s.retireRecord latest request.lineage decision sequence)) s = (true, c) ∧
    s.lineage.admits (s.retireRecord latest request.lineage decision sequence) = true ∧
    u = { c with
      lineage := s.lineage.push (s.retireRecord latest request.lineage decision sequence)
      state := { c.state with lineageSequence := sequence } }

/-- Does a partition hold a grant of the lineage? -/
def holdsGrantOf (lineage : LineageId) (p : Partition) : Bool := p.lineage == lineage && p.granted

/-- The current grants of a lineage. -/
def grantsOf (r : PartitionRuntime) (lineage : LineageId) : List AuthoritySequence :=
  (r.partitions.filter (holdsGrantOf lineage)).map Partition.authoritySequence

/-- The fencing loop over a list of partitions: all their grants of the lineage are fenced, or the
fence counter runs out on the way. -/
theorem fenceLineages_cases {lineage : LineageId} {ps : List Partition} {decision : Decision}
    {r r' : PartitionRuntime} {res : Except PartitionError Decision}
    (h : Act.forEach (fenceLineage lineage) decision ps r = (res, r')) :
    ∃ sequences, sequences ⊆ (ps.filter (holdsGrantOf lineage)).map Partition.authoritySequence ∧
      Fenced sequences r r' ∧
      ((∃ d, res = .ok d ∧ d.verdict = decision.verdict ∧ d.id = decision.id ∧
          sequences = (ps.filter (holdsGrantOf lineage)).map Partition.authoritySequence) ∨
        res = .error .fenceExhausted) := by
  induction ps generalizing decision r with
  | nil =>
    cases h
    exact ⟨[], by simp, .refl _, .inl ⟨_, rfl, rfl, rfl, rfl⟩⟩
  | cons p rest ih =>
    rw [Act.forEach] at h
    by_cases hp : holdsGrantOf lineage p = true
    · rw [List.filter_cons_of_pos hp, List.map_cons]
      obtain ⟨hl, hg⟩ : p.lineage = lineage ∧ p.granted = true := by
        simpa [holdsGrantOf] using hp
      have hstep : fenceLineage lineage decision p = (do
          let fence ← issueFence p p.authoritySequence .partitionRetired
          pure { decision with
            fencesIssued := decision.fencesIssued ++ [fence.id]
            fencedPartitions := decision.fencedPartitions ++ [p.id] }) := by
        simp [fenceLineage, hl, hg]
      rw [hstep] at h
      rcases Act.bind_cases h with ⟨d, s, hd, hs⟩ | ⟨e, he, rfl⟩
      · rcases Act.bind_cases hd with ⟨f, t, hf, ht⟩ | ⟨e, -, he⟩
        · cases ht
          rcases issueFence_cases hf with ⟨-, hfenced⟩ | ⟨he, -⟩
          · obtain ⟨sequences, hsub, hrest, hres⟩ := ih hs
            refine ⟨p.authoritySequence :: sequences, List.cons_subset_cons _ hsub,
              hfenced.trans hrest, ?_⟩
            rcases hres with ⟨d', rfl, hv, hid, rfl⟩ | rfl
            · exact .inl ⟨d', rfl, hv, hid, rfl⟩
            · exact .inr rfl
          · cases he
        · cases he
      · rcases Act.bind_cases he with ⟨f, t, -, ht⟩ | ⟨e', he', hee⟩
        · cases ht
        · cases hee
          rcases issueFence_cases he' with ⟨⟨f, hf⟩, -⟩ | ⟨hex, rfl⟩
          · cases hf
          · cases hex
            exact ⟨[], by simp, .refl _, .inr rfl⟩
    · rw [List.filter_cons_of_neg hp]
      have hstep : fenceLineage lineage decision p = pure decision := by
        by_cases hl : p.lineage = lineage
        · have hg : p.granted = false := by simpa [holdsGrantOf, hl] using hp
          simp [fenceLineage, hl, hg]
        · simp [fenceLineage, hl]
      rw [hstep] at h
      exact ih h

/-- **The runs of `retire`**: refused or failed, or recorded — and then the current grants of the
lineage are fenced and its interruptions dropped. -/
theorem retire_cases {request : RetireRequest} {r r' : PartitionRuntime}
    {res : Except PartitionError Decision} (h : retire request r = (res, r')) :
    ((∃ s t, Quiet r s ∧ Stored .lineageRecord s t ∧ Quiet t r') ∧ NotGranted res) ∨
    ∃ u v sequences, r.closed = false ∧ RetireRecorded request r u ∧
      sequences ⊆ r.grantsOf request.lineage ∧ Fenced sequences u v ∧
      ((res = .error .fenceExhausted ∧ r' = v) ∨
        sequences = r.grantsOf request.lineage ∧
        Quiet (dropInterrupted (fun l => l == request.lineage) v) r' ∧
        ∃ d, res = .ok d ∧ d.verdict = .granted) := by
  rw [retire, Act.read_bind] at h
  cases hadm : r.admissionCheck request.attempt
      (r.makeDecision .retire .invalid (namedScope .domain request.lineage.text)) with
  | some refused =>
    rw [hadm] at h
    obtain ⟨hq, hng⟩ := finalizeDecision_notGranted h (by
      rw [admissionCheck_verdict rfl hadm]
      decide)
    exact .inl ⟨⟨r, r, .refl r, .refl _ r, hq⟩, hng⟩
  | none =>
    simp only [hadm] at h
    rw [Act.modify_bind, Act.read_bind] at h
    have hattempt := recordAttempt_quiet request.attempt .retire r
    cases hcheck : (recordAttempt request.attempt .retire r).retireCheck request
        (r.makeDecision .retire .invalid (namedScope .domain request.lineage.text)) with
    | error refused =>
      rw [hcheck] at h
      obtain ⟨hq, hng⟩ := finalizeDecision_notGranted h (retireCheck_error hcheck)
      exact .inl ⟨⟨r, r, .refl r, .refl _ r, hattempt.trans hq⟩, hng⟩
    | ok found =>
      obtain ⟨latest, sequence⟩ := found
      simp only [hcheck] at h
      obtain ⟨hlatest, hevent, hnext⟩ := retireCheck_ok hcheck
      rw [commitRetire, Act.read_bind] at h
      rcases Act.bind_cases h with ⟨d, s, hd, hs⟩ | ⟨e, he, rfl⟩
      · obtain ⟨hq, -, ⟨d', hd', hid, hv⟩ | ⟨he, -⟩⟩ := assignDecisionIdentity_cases hd
        · cases hd'
          have hqs := hattempt.trans hq
          have hsame : s.lineage.latest request.lineage = some latest ∧
              s.state.lineageSequence.next = some sequence ∧ s.partitions = r.partitions := by
            obtain ⟨_, _, _, _, _, -, rfl⟩ := hq
            exact ⟨hlatest, hnext, rfl⟩
          rw [Act.read_bind] at hs
          dsimp only at hs
          rw [Act.total_bind] at hs
          have hstored := commitRecord_stored .lineageRecord
            (encodeLineage (s.retireRecord latest request.lineage d.id sequence)) s
          rcases hcommit : commitRecord .lineageRecord
            (encodeLineage (s.retireRecord latest request.lineage d.id sequence)) s with ⟨_ | _, c⟩
          · simp only [hcommit, Bool.not_false, if_true] at hs hstored
            obtain ⟨hq', hng⟩ := finalizeDecision_notGranted hs (by simp [conclude, explain])
            exact .inl ⟨⟨s, c, hqs, hstored, hq'⟩, hng⟩
          · simp only [hcommit, Bool.not_true, Bool.false_eq_true, if_false] at hs hstored
            by_cases hadmits : s.lineage.admits
                (s.retireRecord latest request.lineage d.id sequence) = true
            · simp only [LineageStore.append, hadmits, if_true] at hs
              rw [Act.modify_bind] at hs
              rcases Act.bind_cases hs with ⟨d', v, hd', hv'⟩ | ⟨e, he, rfl⟩
              · obtain ⟨sequences, hsub, hfenced, ⟨d'', hd'', hverdict, hid', hall⟩ | he⟩ :=
                  fenceLineages_cases hd'
                · cases hd''
                  rw [Act.modify_bind] at hv'
                  rw [hsame.2.2] at hsub hall
                  obtain ⟨hq', ⟨f, rfl, hf⟩ | ⟨-, hnil⟩⟩ := finalizeDecision_cases hv'
                  · exact .inr ⟨_, v, sequences, admissionCheck_none hadm,
                      ⟨s, c, latest, d.id, sequence, hqs, hsame.1, hevent, hsame.2.1, hcommit,
                        hadmits, rfl⟩,
                      hsub, hfenced, .inr ⟨hall, hq', f, rfl, by rw [hf, hverdict, hv]; rfl⟩⟩
                  · exact absurd (hid'.symm.trans hnil) hid
                · cases he
              · obtain ⟨sequences, hsub, hfenced, ⟨d'', hd'', -⟩ | he'⟩ := fenceLineages_cases he
                · cases hd''
                · cases he'
                  rw [hsame.2.2] at hsub
                  exact .inr ⟨_, r', sequences, admissionCheck_none hadm,
                    ⟨s, c, latest, d.id, sequence, hqs, hsame.1, hevent, hsame.2.1, hcommit,
                      hadmits, rfl⟩,
                    hsub, hfenced, .inl ⟨rfl, rfl⟩⟩
            · simp only [LineageStore.append, hadmits] at hs
              obtain ⟨hq', hng⟩ := finalizeDecision_notGranted hs (by simp [conclude, explain])
              exact .inl ⟨⟨s, c, hqs, hstored, hq'⟩, hng⟩
        · cases he
      · obtain ⟨hq, -, ⟨d', hd', -⟩ | ⟨herr, -⟩⟩ := assignDecisionIdentity_cases he
        · cases hd'
        · exact .inl ⟨⟨r', r', hattempt.trans hq, .refl _ _, .refl _⟩, fun d hd => by cases hd⟩

/-! ## Revalidation -/

theorem finishRevalidation_cases {decision : Decision} {ps : List Partition}
    {restored still : List PartitionId} {r r' : PartitionRuntime}
    {res : Except PartitionError RevalidationOutcome}
    (h : finishRevalidation decision ps restored still r = (res, r')) :
    Quiet r r' ∧ ((∃ o, res = .ok o ∧ o.restored = restored ∧ o.partitions = ps) ∨
      res = .error .decisionExhausted) := by
  rcases Act.bind_cases h with ⟨d, s, hd, hs⟩ | ⟨e, he, rfl⟩
  · cases hs
    exact ⟨(finalizeDecision_cases hd).1, .inl ⟨_, rfl, rfl, rfl⟩⟩
  · obtain ⟨hq, ⟨d, hd, -⟩ | ⟨herr, -⟩⟩ := finalizeDecision_cases he
    · cases hd
    · cases herr
      exact ⟨hq, .inr rfl⟩

/-- The partitions a revalidation restores: they hold a grant, and their lineage is interrupted. -/
def restorable (r : PartitionRuntime) (p : Partition) : Bool := r.isInterrupted p.lineage && p.granted

/-- The first loop of `revalidate`: it fences sequences of interruptions only, and reports exactly
the restorable partitions. -/
theorem revalidatePartitions_cases {acc : Revalidation} {ps : List Partition}
    {r r' : PartitionRuntime} {res : Except PartitionError Revalidation}
    (h : Act.forEach revalidatePartition acc ps r = (res, r')) :
    ∃ sequences, (∀ n ∈ sequences, ∃ e ∈ r.interrupted, e.authoritySequence = n) ∧
      Fenced sequences r r' ∧
      ((∃ acc', res = .ok acc' ∧
          acc'.restored = acc.restored ++ (ps.filter r.restorable).map Partition.id) ∨
        res = .error .fenceExhausted) := by
  induction ps generalizing acc r with
  | nil =>
    cases h
    exact ⟨[], by simp, .refl _, .inl ⟨_, rfl, by simp⟩⟩
  | cons p rest ih =>
    rw [Act.forEach] at h
    cases hfind : r.interrupted.find? (fun entry => entry.lineage == p.lineage) with
    | none =>
      have hnot : r.isInterrupted p.lineage = false := by
        rw [isInterrupted, List.any_eq_false]
        exact List.find?_eq_none.mp hfind
      have hstep : revalidatePartition acc p r = (.ok acc, r) := by
        rw [revalidatePartition, Act.read_bind, hfind]
        rfl
      rw [Act.bind_apply, hstep] at h
      rw [List.filter_cons_of_neg (by simp [restorable, hnot])]
      exact ih h
    | some entry =>
      have hentry : entry ∈ r.interrupted := List.mem_of_find?_eq_some hfind
      have hint : r.isInterrupted p.lineage = true := by
        rw [isInterrupted, List.any_eq_true]
        exact ⟨entry, hentry, by simpa using List.find?_some hfind⟩
      by_cases hg : p.granted = true
      · rw [List.filter_cons_of_pos (by simp [restorable, hint, hg]), List.map_cons]
        rcases Act.bind_cases h with ⟨acc', s, hs, ht⟩ | ⟨e, he, rfl⟩
        · rw [revalidatePartition, Act.read_bind, hfind] at hs
          simp only [hg, Bool.not_true, Bool.false_eq_true, if_false] at hs
          rcases Act.bind_cases hs with ⟨f, t, hf, hpure⟩ | ⟨e, -, he⟩
          · cases hpure
            rcases issueFence_cases hf with ⟨-, hfenced⟩ | ⟨he, -⟩
            · obtain ⟨sequences, hsub, hrest, hres⟩ := ih ht
              have hsame : s.interrupted = r.interrupted ∧ s.restorable = r.restorable := by
                obtain ⟨_, _, _, -, -, -, rfl⟩ := hfenced
                exact ⟨rfl, rfl⟩
              rw [hsame.1] at hsub
              refine ⟨entry.authoritySequence :: sequences, ?_, hfenced.trans hrest, ?_⟩
              · rintro n (_ | ⟨_, hn⟩)
                · exact ⟨entry, hentry, rfl⟩
                · exact hsub n hn
              · rcases hres with ⟨acc'', rfl, hacc⟩ | rfl
                · exact .inl ⟨acc'', rfl, by rw [hacc, hsame.2]; simp⟩
                · exact .inr rfl
            · cases he
          · cases he
        · rw [revalidatePartition, Act.read_bind, hfind] at he
          simp only [hg, Bool.not_true, Bool.false_eq_true, if_false] at he
          rcases Act.bind_cases he with ⟨f, t, -, hpure⟩ | ⟨e', he', hee⟩
          · cases hpure
          · cases hee
            rcases issueFence_cases he' with ⟨⟨f, hf⟩, -⟩ | ⟨hex, rfl⟩
            · cases hf
            · cases hex
              exact ⟨[], by simp, .refl _, .inr rfl⟩
      · rw [List.filter_cons_of_neg (by simp [restorable, hg])]
        rcases Act.bind_cases h with ⟨acc', s, hs, ht⟩ | ⟨e, he, rfl⟩
        · rw [revalidatePartition, Act.read_bind, hfind] at hs
          simp only [hg, Bool.not_false, if_true] at hs
          cases hs
          have hrest := ih ht
          exact hrest
        · rw [revalidatePartition, Act.read_bind, hfind] at he
          simp only [hg, Bool.not_false, if_true] at he
          cases he

/-- **The runs of `revalidate`**: refused, or the fabric is assessed with restoring allowed, the
interrupted sequences are fenced, and what was restored is no longer interrupted. -/
theorem revalidate_cases {request : RevalidationRequest} {r r' : PartitionRuntime}
    {res : Except PartitionError RevalidationOutcome} (h : revalidate request r = (res, r')) :
    (Quiet r r' ∧ ∀ o, res = .ok o → o.restored = [] ∧ o.partitions = []) ∨
    ∃ s t resA, r.closed = false ∧ r.rosterSet = true ∧ Quiet r s ∧
      assessLocked true s = (resA, t) ∧
      ((∃ e, resA = .error e ∧ res = .error e ∧ r' = t) ∨
      ∃ refreshed sequences u, resA = .ok refreshed ∧
        (∀ n ∈ sequences, ∃ e ∈ t.interrupted, e.authoritySequence = n) ∧ Fenced sequences t u ∧
        ((res = .error .fenceExhausted ∧ r' = u) ∨
          Quiet { u with
            interrupted := u.interrupted.filter fun entry => !isRestored refreshed.partitions
              ((refreshed.partitions.filter t.restorable).map Partition.id) entry } r' ∧
          ((∃ o, res = .ok o ∧
              o.restored = (refreshed.partitions.filter t.restorable).map Partition.id ∧
              o.partitions = refreshed.partitions) ∨
            res = .error .decisionExhausted))) := by
  have hrefused : ∀ {d : Decision} {s : PartitionRuntime}, Quiet r s →
      finishRevalidation d [] [] [] s = (res, r') →
      Quiet r r' ∧ ∀ o, res = .ok o → o.restored = [] ∧ o.partitions = [] := by
    intro d s hq hf
    obtain ⟨hq', ⟨o, rfl, ho⟩ | rfl⟩ := finishRevalidation_cases hf
    · refine ⟨hq.trans hq', fun o' ho' => ?_⟩
      cases ho'
      exact ho
    · exact ⟨hq.trans hq', fun o ho => by cases ho⟩
  rw [revalidate, Act.read_bind] at h
  cases hadm : r.admissionCheck request.attempt
      (r.makeDecision .revalidate .invalid fabricScope) with
  | some refused =>
    rw [hadm] at h
    exact .inl (hrefused (.refl r) h)
  | none =>
    simp only [hadm] at h
    rw [Act.modify_bind, Act.read_bind] at h
    have hattempt := recordAttempt_quiet request.attempt .revalidate r
    cases hcheck : (recordAttempt request.attempt .revalidate r).revalidateCheck request
        (r.makeDecision .revalidate .invalid fabricScope) with
    | some refused =>
      rw [hcheck] at h
      exact .inl (hrefused hattempt h)
    | none =>
      simp only [hcheck] at h
      have hroster : r.rosterSet = true := by
        rw [revalidateCheck, Option.or_eq_none_iff] at hcheck
        by_contra hset
        have hset : r.rosterSet = false := by simpa using hset
        simp [recordAttempt, hset] at hcheck
      rw [restoreAuthority, Act.read_bind] at h
      dsimp only at h
      rcases Act.bind_cases h with ⟨refreshed, t, ha, ht⟩ | ⟨e, he, rfl⟩
      · refine .inr ⟨_, t, _, admissionCheck_none hadm, hroster, hattempt, ha, .inr ?_⟩
        rcases Act.bind_cases ht with ⟨acc, u, hu, hrest⟩ | ⟨e, he, rfl⟩
        · obtain ⟨sequences, hsub, hfenced, ⟨acc', hacc', hacc⟩ | he⟩ :=
            revalidatePartitions_cases hu
          · cases hacc'
            rw [List.nil_append] at hacc
            rw [Act.read_bind, Act.modify_bind, hacc] at hrest
            obtain ⟨hq, hres⟩ := finishRevalidation_cases hrest
            exact ⟨refreshed, sequences, u, rfl, hsub, hfenced, .inr ⟨hq, hres⟩⟩
          · cases he
        · obtain ⟨sequences, hsub, hfenced, ⟨acc', hacc', -⟩ | hex⟩ :=
            revalidatePartitions_cases he
          · cases hacc'
          · cases hex
            exact ⟨refreshed, sequences, _, rfl, hsub, hfenced, .inl ⟨rfl, rfl⟩⟩
      · exact .inr ⟨_, _, _, admissionCheck_none hadm, hroster, hattempt, he, .inl ⟨e, rfl, rfl, rfl⟩⟩

/-! ## Reports -/

/-- `record_acknowledgement` writes its table only, and only when no check refuses. -/
theorem recordAcknowledgement_cases {ack : AuthorityAcknowledgement} {r r' : PartitionRuntime}
    {res : Except PartitionError Decision} (h : recordAcknowledgement ack r = (res, r')) :
    Quiet r r' ∨ Quiet { r with acknowledgements := r.acknowledgements ++ [ack] } r' := by
  rw [recordAcknowledgement, Act.read_bind] at h
  cases hcheck : r.acknowledgementCheck ack
      (r.makeDecision .acknowledgeAuthority .invalid (partitionScope ack.partition)) with
  | some refused =>
    rw [hcheck] at h
    exact .inl (finalizeDecision_cases h).1
  | none =>
    simp only [hcheck] at h
    rw [Act.modify_bind] at h
    exact .inr (finalizeDecision_cases h).1

/-- `record_verified_effect` writes its table only, and only when no check refuses. -/
theorem recordVerifiedEffect_cases {effect : VerifiedEffect} {r r' : PartitionRuntime}
    {res : Except PartitionError Decision} (h : recordVerifiedEffect effect r = (res, r')) :
    Quiet r r' ∨ Quiet { r with verifiedEffects := r.verifiedEffects ++ [effect] } r' := by
  rw [recordVerifiedEffect, Act.read_bind] at h
  cases hcheck : r.effectCheck effect
      (r.makeDecision .verifyEffect .invalid (partitionScope effect.partition)) with
  | some refused =>
    rw [hcheck] at h
    exact .inl (finalizeDecision_cases h).1
  | none =>
    simp only [hcheck] at h
    rw [Act.modify_bind] at h
    exact .inr (finalizeDecision_cases h).1

end PartitionRuntime

end FabricPartition
