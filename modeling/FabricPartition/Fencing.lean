import FabricPartition.Merging

/-!
# Fences

Which grants the fences of an incarnation cover, and what a fence does to the grant it names.

A fence is a record; nothing reads the table back.  So a grant is dead once it is fenced only if the
operation that fenced it also took it out of the partition list, which an assessment does and
retirement, a new policy and a new roster do not (`fenced_grants_dead`).  And a fence is written for
the grants in the current list only, while every assessment numbers all grants anew
(`fences_cover_iff`).
-/

set_option autoImplicit false

namespace FabricPartition

namespace PartitionRuntime

/-! ## Covering the grants of a lineage -/

/-- Some earlier assessment of the run issued the sequence to a partition of the lineage: the grant
was in the partition list after one of the steps. -/
def IssuedTo (steps : List Step) (lineage : LineageId) (n : AuthoritySequence) : Prop :=
  ∃ s ∈ steps, ∃ p ∈ s.after.partitions,
    p.lineage = lineage ∧ p.granted = true ∧ p.authoritySequence = n

/-- Some fence names the sequence. -/
def FenceNames (fences : List FenceRecord) (n : AuthoritySequence) : Prop :=
  ∃ f ∈ fences, f.fencedAuthoritySequence = n

/-- The operation retires the lineage, or merges it away as a parent. -/
def EndsLineage (lineage : LineageId) : Operation → Prop
  | .retire request => request.lineage = lineage
  | .requestMerge request => request.left = lineage ∨ request.right = lineage
  | _ => False

/-- The sequences such an operation fences: the current grants of a retired lineage, or the grant of
the merge subject. -/
def sequencesFenced (r : PartitionRuntime) : Operation → List AuthoritySequence
  | .retire request => r.grantsOf request.lineage
  | .requestMerge request =>
    match r.partitionById request.subject with
    | none => []
    | some subject => if subject.granted then [subject.authoritySequence] else []
  | _ => []

/-- The response grants the operation. -/
def Grants (response : Response) : Prop := response.grants = true ∨ response.grantsMerge = true

/-- The fences after a move that only fences. -/
theorem Fenced.names_iff {sequences : List AuthoritySequence} {r r' : PartitionRuntime}
    (h : Fenced sequences r r') (hroom : r'.fences.length < r'.limits.maxFenceRecords)
    (n : AuthoritySequence) :
    FenceNames r'.fences n ↔ FenceNames r.fences n ∨ n ∈ sequences := by
  obtain ⟨added, _, _, -, hin, hall, rfl⟩ := h
  refine ⟨?_, ?_⟩
  · rintro ⟨f, hf, rfl⟩
    rcases List.mem_append.mp hf with hf | hf
    · exact .inl ⟨f, hf, rfl⟩
    · exact .inr (hin f hf).1
  · rintro (⟨f, hf, rfl⟩ | hn)
    · exact ⟨f, List.mem_append_left _ hf, rfl⟩
    · obtain ⟨f, hf, hfn⟩ := hall hroom n hn
      exact ⟨f, List.mem_append_right _ hf, hfn⟩

theorem MergeRecorded.fences_eq {request : MergeRequest} {subject : Partition}
    {r u : PartitionRuntime} (h : MergeRecorded request subject r u) :
    u.fences = r.fences ∧ u.limits = r.limits := by
  obtain ⟨s, c, decision, sequence, hq, -, hcommit, -, rfl⟩ := h
  obtain ⟨_, _, _, _, _, -, rfl⟩ := hq
  exact ⟨(congrArg (fun x => x.2.fences) hcommit).symm,
    (congrArg (fun x => x.2.limits) hcommit).symm⟩

theorem RetireRecorded.fences_eq {request : RetireRequest} {r u : PartitionRuntime}
    (h : RetireRecorded request r u) : u.fences = r.fences ∧ u.limits = r.limits := by
  obtain ⟨s, c, latest, decision, sequence, hq, -, -, -, hcommit, -, rfl⟩ := h
  obtain ⟨_, _, _, _, _, -, rfl⟩ := hq
  exact ⟨(congrArg (fun x => x.2.fences) hcommit).symm,
    (congrArg (fun x => x.2.limits) hcommit).symm⟩

/-- **What a granted merge or retirement fences**, as long as the table has room. -/
theorem names_after_grant {r : PartitionRuntime} {c : Call} {lineage : LineageId}
    (hends : EndsLineage lineage c.operation) (hgrants : Grants (r.call c).1)
    (hroom : (r.call c).2.fences.length < (r.call c).2.limits.maxFenceRecords)
    (n : AuthoritySequence) :
    FenceNames (r.call c).2.fences n ↔
      FenceNames r.fences n ∨ n ∈ r.sequencesFenced c.operation := by
  obtain ⟨operation, faults⟩ := c
  cases operation with
  | retire request =>
    obtain ⟨d, hd, hv⟩ : ∃ d, (r.call ⟨.retire request, faults⟩).1 = .decision d ∧
        d.verdict = .granted := by
      rcases hgrants with h | h
      · exact Response.grants_iff.mp h
      · obtain ⟨o, ho, -⟩ := Response.grantsMerge_iff.mp h
        have : (r.call ⟨.retire request, faults⟩).1 ≠ .merge o := by
          rw [call, perform, respond]
          split <;> simp
        exact absurd ho this
    have hrun := respond_ok (fun _ _ h => by cases h; rfl) (fun _ _ h => by cases h) hd
    rcases retire_cases hrun with ⟨-, hng⟩ | ⟨u, v, sequences, -, hrec, -, hf, ⟨he, -⟩ | ⟨hseq, hq, -⟩⟩
    · exact absurd hv (hng _ rfl)
    · cases he
    · have hafter : (r.call ⟨.retire request, faults⟩).2.fences = v.fences ∧
          (r.call ⟨.retire request, faults⟩).2.limits = v.limits := by
        obtain ⟨_, _, _, _, _, -, hafter⟩ := hq
        exact ⟨congrArg (·.fences) hafter, congrArg (·.limits) hafter⟩
      rw [hafter.1, hafter.2] at hroom
      rw [hafter.1, hf.names_iff hroom, hrec.fences_eq.1, hseq]
      rfl
  | requestMerge request =>
    obtain ⟨o, ho, hv⟩ : ∃ o, (r.call ⟨.requestMerge request, faults⟩).1 = .merge o ∧
        o.verdict = .granted := by
      rcases hgrants with h | h
      · obtain ⟨d, hd, -⟩ := Response.grants_iff.mp h
        have : (r.call ⟨.requestMerge request, faults⟩).1 ≠ .decision d := by
          rw [call, perform, respond]
          split <;> simp
        exact absurd hd this
      · exact Response.grantsMerge_iff.mp h
    rcases requestMerge_cases (call_merge ho) with ⟨-, hng⟩ |
      ⟨subject, u, -, hm, hrec, ⟨he, -⟩ | ⟨s, t, resA, hf, hq, ha, -⟩⟩
    · exact absurd hv (hng _ rfl)
    · cases he
    · have hkept := assessLocked_consulted ha
      have ht : t.fences = s.fences ∧ t.limits = s.limits := by
        obtain ⟨_, _, _, _, _, -, rfl⟩ := hq
        exact ⟨rfl, rfl⟩
      have hlimits : (r.call ⟨.requestMerge request, faults⟩).2.limits = s.limits := by
        rw [← ht.2]
        exact congrArg RuntimeOptions.limits hkept.options
      rw [hkept.fences, ht.1, hlimits] at hroom
      have hfound : r.partitionById request.subject = some subject := hm.found
      rw [hkept.fences, ht.1, hf.names_iff hroom, hrec.fences_eq.1, sequencesFenced, hfound]
      rfl
  | _ => exact absurd hends id

/-- Two components are found apart. -/
def parting : List Call :=
  [⟨.adoptTopology (smallTopology 1 ["a", "b"]), []⟩,
    ⟨.ingestEvidence (smallBundle 1 0 (bothWays [("a", "b")] .unreachable)), []⟩,
    ⟨.assess, []⟩]

/-- A request to retire the lineage of the first partition. -/
def retireFirst (attempt : Nat) (r : PartitionRuntime) : RetireRequest where
  attempt := smallAttempt attempt
  expectedEpoch := r.state.epoch
  lineage := (r.partitions.headD {}).lineage

/-- A sequence that was issued: not zero, and not above the counter. -/
def Issued (r : PartitionRuntime) (n : AuthoritySequence) : Prop :=
  0 < n.value.toNat ∧ n.value.toNat ≤ r.state.authoritySequence.value.toNat

theorem Issued.mono {r r' : PartitionRuntime} {n : AuthoritySequence} (h : Issued r n)
    (hle : r.state.authoritySequence.value.toNat ≤ r'.state.authoritySequence.value.toNat) :
    Issued r' n := ⟨h.1, h.2.trans hle⟩

/-- Everything that names a grant names an issued sequence: the grants in the partition list, the
interruptions, and the fences after the first `known`, the ones the incarnation has issued. -/
structure Numbered (known : Nat) (r : PartitionRuntime) : Prop where
  granted : ∀ p ∈ r.partitions, p.granted = true → Issued r p.authoritySequence
  ungranted : ∀ p ∈ r.partitions, p.granted = false → p.authoritySequence = .zero
  interrupted : ∀ e ∈ r.interrupted, Issued r e.authoritySequence
  fenced : ∀ f ∈ r.fences.drop known, Issued r f.fencedAuthoritySequence
  rostered : r.partitions ≠ [] → r.rosterSet = true

/-- The fences added by a move are among those the incarnation has issued. -/
theorem mem_drop_append {α : Type} {known : Nat} {xs ys : List α} {x : α}
    (h : x ∈ (xs ++ ys).drop known) : x ∈ xs.drop known ∨ x ∈ ys := by
  rw [List.drop_append] at h
  rcases List.mem_append.mp h with h | h
  · exact .inl h
  · exact .inr (List.mem_of_mem_drop h)

theorem Fenced.numbered {known : Nat} {sequences : List AuthoritySequence}
    {r r' : PartitionRuntime} (h : Fenced sequences r r') (hr : Numbered known r)
    (hs : ∀ n ∈ sequences, Issued r n) : Numbered known r' := by
  obtain ⟨added, _, _, -, hin, -, rfl⟩ := h
  refine ⟨hr.granted, hr.ungranted, hr.interrupted, ?_, hr.rostered⟩
  intro f hf
  rcases mem_drop_append hf with hf | hf
  · exact hr.fenced f hf
  · exact hs _ (hin f hf).1

theorem Numbered.of_counter {known : Nat} {r : PartitionRuntime} (h : Numbered known r)
    {authoritySequence : AuthoritySequence}
    (hle : r.state.authoritySequence.value.toNat ≤ authoritySequence.value.toNat) :
    Numbered known { r with
      state := { r.state with authoritySequence := authoritySequence } } :=
  ⟨fun p hp hg => (h.granted p hp hg).mono hle, h.ungranted,
    fun e he => (h.interrupted e he).mono hle, fun f hf => (h.fenced f hf).mono hle, h.rostered⟩

theorem planned_sequence_le (allowRestore : Bool) (generation : PartitionGeneration)
    (r : PartitionRuntime) :
    r.state.authoritySequence.value.toNat
      ≤ (planned allowRestore generation r).authoritySequence.value.toNat :=
  ((beginAssessment generation r).evaluateAuthority_sequence _ allowRestore).1

theorem Numbered.surveyed {known : Nat} {allowRestore : Bool} {generation : PartitionGeneration}
    {r r' : PartitionRuntime} {outcome : PartitionAssessment} (h : Numbered known r)
    (hroster : r.rosterSet = true) (hs : Surveyed allowRestore generation r r' outcome) :
    Numbered known r' := by
  have hle := planned_sequence_le allowRestore generation r
  have hseq : ∀ q ∈ outcome.partitions, _ := fun q hq => hs.sequenced hq
  obtain ⟨-, -, _, _, _, _, _, _, _, _, _, -, rfl⟩ := hs.cases
  refine ⟨fun p hp hg => ?_, fun p hp hg => ?_, fun e he => (h.interrupted e he).mono hle,
    fun f hf => (h.fenced f hf).mono hle, fun _ => hroster⟩
  · have := hseq p hp
    rw [Sequenced, if_pos hg] at this
    exact ⟨by omega, this.2⟩
  · have := hseq p hp
    rwa [Sequenced, if_neg (by simp [hg])] at this

/-- **The numbering survives every move.** -/
theorem Move.numbered {known : Nat} {r r' : PartitionRuntime} (hmove : Move r r')
    (h : Numbered known r) : Numbered known r' := by
  cases hmove with
  | quiet hq =>
    obtain ⟨_, _, _, _, _, -, rfl⟩ := hq
    exact ⟨h.granted, h.ungranted, h.interrupted, h.fenced, h.rostered⟩
  | stored hst =>
    obtain ⟨_, -, rfl⟩ := hst
    exact ⟨h.granted, h.ungranted, h.interrupted, h.fenced, h.rostered⟩
  | superseded =>
    refine ⟨fun p hp hg => ?_, fun p hp hg => ?_, h.interrupted, h.fenced, fun hne => ?_⟩
    · obtain ⟨q, hq, rfl⟩ := List.mem_map.mp hp
      exact h.granted q hq hg
    · obtain ⟨q, hq, rfl⟩ := List.mem_map.mp hp
      exact h.ungranted q hq hg
    · exact h.rostered fun hnil => hne (by simp [hnil])
  | roster _ => exact ⟨h.granted, h.ungranted, h.interrupted, h.fenced, fun _ => rfl⟩
  | @interrupted ps _ hps hint =>
    obtain ⟨authoritySequence, sequences, hle, hsub, hf⟩ := hint
    have hissued : ∀ p ∈ ps, Issued r p.authoritySequence :=
      fun p hp => h.granted p (hps p hp).1 (hps p hp).2
    have hmid : Numbered known { r with
        interrupted := r.interrupted ++ ps.map r.interruption
        state := { r.state with authoritySequence := authoritySequence } } := by
      have hcounter := h.of_counter hle
      refine ⟨hcounter.granted, hcounter.ungranted, fun e he => ?_, hcounter.fenced,
        hcounter.rostered⟩
      rcases List.mem_append.mp he with he | he
      · exact hcounter.interrupted e he
      · obtain ⟨p, hp, rfl⟩ := List.mem_map.mp he
        exact (hissued p hp).mono hle
    refine hf.numbered hmid fun n hn => ?_
    obtain ⟨p, hp, rfl⟩ := List.mem_map.mp (hsub hn)
    exact (hissued p hp).mono hle
  | fenced hs hf =>
    refine hf.numbered h fun n hn => ?_
    rcases hs n hn with ⟨p, hp, hg, rfl⟩ | ⟨e, he, rfl⟩
    · exact h.granted p hp hg
    · exact h.interrupted e he
  | forgot keep =>
    exact ⟨h.granted, h.ungranted, fun e he => h.interrupted e (List.mem_of_mem_filter he),
      h.fenced, h.rostered⟩
  | @abandoned allowRestore generation _ _ _ hq =>
    have hb := h.of_counter (planned_sequence_le allowRestore generation r)
    obtain ⟨_, _, _, _, _, -, rfl⟩ := hq
    exact ⟨hb.granted, hb.ungranted, hb.interrupted, hb.fenced, hb.rostered⟩
  | surveyed hroster _ hs => exact h.surveyed hroster hs
  | faults | clock | evidence | policy | isolations | recorded | acknowledged | verified | refused
  | closed => exact ⟨h.granted, h.ungranted, h.interrupted, h.fenced, h.rostered⟩

/-- No grant in the partition list is named by a fence the incarnation has issued. -/
def Clean (known : Nat) (r : PartitionRuntime) : Prop :=
  ∀ p ∈ r.partitions, p.granted = true → ∀ f ∈ r.fences.drop known,
    f.fencedAuthoritySequence ≠ p.authoritySequence

/-- An assessment leaves no fenced grant behind: its grants are numbered above all fences. -/
theorem Surveyed.clean {known : Nat} {allowRestore : Bool} {generation : PartitionGeneration}
    {r r' : PartitionRuntime} {outcome : PartitionAssessment} (h : Numbered known r)
    (hs : Surveyed allowRestore generation r r' outcome) : Clean known r' := by
  have hseq : ∀ q ∈ outcome.partitions, _ := fun q hq => hs.sequenced hq
  obtain ⟨-, -, _, _, _, _, _, _, _, _, _, -, rfl⟩ := hs.cases
  intro p hp hg f hf hfp
  have hgrant := hseq p hp
  rw [Sequenced, if_pos hg] at hgrant
  have hfence := (h.fenced f hf).2
  rw [hfp] at hfence
  omega

theorem Clean.of_eq {known : Nat} {r r' : PartitionRuntime} (h : Clean known r)
    (hp : r'.partitions = r.partitions) (hf : r'.fences = r.fences) : Clean known r' := by
  rw [Clean, hp, hf]
  exact h

theorem Quiet.clean {known : Nat} {r r' : PartitionRuntime} (hq : Quiet r r')
    (h : Clean known r) : Clean known r' := by
  obtain ⟨_, _, _, _, _, -, rfl⟩ := hq
  exact h

theorem assessLocked_clean {known : Nat} {allowRestore : Bool} {r r' : PartitionRuntime}
    {res : Except PartitionError PartitionAssessment} (hn : Numbered known r) (h : Clean known r)
    (ha : assessLocked allowRestore r = (res, r')) : Clean known r' := by
  rcases assessLocked_cases ha with ⟨-, s, _, hq, rfl, -⟩ | ⟨-, rfl⟩ |
    ⟨generation, -, -, -, ⟨-, hq⟩ | ⟨outcome, -, hs⟩⟩
  · exact hq.clean h
  · exact h
  · exact hq.clean (h.of_eq rfl rfl)
  · exact hs.clean hn

/-- An assessment that is neither refused nor thrown out of leaves no fenced grant, whatever was
fenced before it. -/
theorem assessLocked_clean_of_ok {known : Nat} {allowRestore : Bool} {r r' : PartitionRuntime}
    {a : PartitionAssessment} (hn : Numbered known r) (hclosed : r.closed = false)
    (hroster : r.rosterSet = true) (ha : assessLocked allowRestore r = (.ok a, r')) :
    Clean known r' := by
  rcases assessLocked_cases ha with ⟨hc | hr, -⟩ | ⟨he, -⟩ |
    ⟨generation, -, -, -, ⟨he, -⟩ | ⟨outcome, -, hs⟩⟩
  · rw [hclosed] at hc
    cases hc
  · rw [hroster] at hr
    cases hr
  · cases he
  · cases he
  · exact hs.clean hn

/-- Fencing nothing, or fencing into a full table, leaves the table alone. -/
theorem Fenced.fences_eq {sequences : List AuthoritySequence} {r r' : PartitionRuntime}
    (h : Fenced sequences r r')
    (hnone : sequences = [] ∨ r.limits.maxFenceRecords ≤ r.fences.length) :
    r'.fences = r.fences := by
  obtain ⟨added, _, _, -, hin, -, rfl⟩ := h
  have hadded : added = [] := by
    rw [List.eq_nil_iff_forall_not_mem]
    intro f hf
    obtain ⟨hseq, hroom⟩ := hin f hf
    rcases hnone with rfl | hfull
    · cases hseq
    · omega
  rw [hadded]
  exact List.append_nil _

theorem Fenced.partitions_eq {sequences : List AuthoritySequence} {r r' : PartitionRuntime}
    (h : Fenced sequences r r') : r'.partitions = r.partitions := by
  obtain ⟨_, _, _, -, -, -, rfl⟩ := h
  rfl

/-- Interrupting nobody, or with a full table, leaves the table alone. -/
theorem Interrupted.fences_eq {ps : List Partition} {r r' : PartitionRuntime}
    (h : Interrupted ps r r') (hnone : ps = [] ∨ r.limits.maxFenceRecords ≤ r.fences.length) :
    r'.fences = r.fences ∧ r'.partitions = r.partitions := by
  obtain ⟨_, sequences, -, hsub, hf⟩ := h
  refine ⟨hf.fences_eq ?_, hf.partitions_eq⟩
  rcases hnone with rfl | hfull
  · exact .inl (List.subset_nil.mp hsub)
  · exact .inr hfull

/-- The operation took effect, or left by an exception. -/
def TookHold (response : Response) : Prop := Grants response ∨ ∃ e, response = .threw e

/-- A step that fences a grant and leaves it in the partition list: there is room for a fence, and
the step retires a lineage that holds a grant, replaces the policy or the roster over a grant, or
merges a subject with a grant and is thrown out before the assessment that follows. -/
def LeavesFencedGrant (s : Step) : Prop :=
  s.before.fences.length < s.before.limits.maxFenceRecords ∧
    match s.call.operation with
    | .retire request => TookHold s.response ∧ s.before.grantsOf request.lineage ≠ []
    | .setPolicy _ => TookHold s.response ∧ ∃ p ∈ s.before.partitions, p.granted = true
    | .adoptTopology _ =>
      TookHold s.response ∧ s.before.rosterSet = true ∧ ∃ p ∈ s.before.partitions, p.granted = true
    | .requestMerge request =>
      (∃ e, s.response = .threw e) ∧ s.before.sequencesFenced (.requestMerge request) ≠ []
    | _ => False

instance (response : Response) : Decidable (∃ e, response = .threw e) :=
  match response with
  | .threw e => .isTrue ⟨e, rfl⟩
  | .ticks _ | .decision _ | .assessment _ | .merge _ | .isolation _ | .revalidation _ | .closed =>
    .isFalse fun ⟨_, h⟩ => nomatch h

instance (response : Response) : Decidable (TookHold response) :=
  inferInstanceAs (Decidable ((_ ∨ _) ∨ _))

instance (s : Step) : Decidable (LeavesFencedGrant s) :=
  @instDecidableAnd _ _ inferInstance <|
    match s.call.operation with
    | .retire _ | .setPolicy _ | .adoptTopology _ | .requestMerge _ => inferInstanceAs (Decidable (_ ∧ _))
    | .advanceTicks _ | .ingestEvidence _ | .assess | .isolate _ | .clearIsolation _ | .revalidate _
    | .recordAcknowledgement _ | .recordVerifiedEffect _ | .close => inferInstanceAs (Decidable False)

/-- A method that grants or throws has taken hold. -/
theorem tookHold_of_tookEffect {act : RuntimeAct Decision} {r : PartitionRuntime}
    {res : Except PartitionError Decision} {r' : PartitionRuntime} (hact : act r = (res, r'))
    (h : TookEffect res ∨ res = .error .fenceExhausted) :
    TookHold (respond .decision act r).1 := by
  rw [respond, hact]
  rcases h with (⟨d, rfl, hd⟩ | rfl) | rfl
  · exact .inl (.inl (by simp [Response.grants, hd]))
  · exact .inr ⟨_, rfl⟩
  · exact .inr ⟨_, rfl⟩

section Step

variable {known : Nat} {r : PartitionRuntime}

/-- No room for a fence, or no partition with a grant: then nobody can be fenced by an interruption. -/
theorem nobody_of_not_leaves {r : PartitionRuntime} {qs : List Partition}
    (hqs : qs <+: r.partitions.filter Partition.granted)
    (h : ¬ (r.fences.length < r.limits.maxFenceRecords ∧ ∃ p ∈ r.partitions, p.granted = true)) :
    qs = [] ∨ r.limits.maxFenceRecords ≤ r.fences.length := by
  by_cases hroom : r.fences.length < r.limits.maxFenceRecords
  · refine .inl (List.eq_nil_iff_forall_not_mem.mpr fun p hp => h ⟨hroom, p, ?_⟩)
    exact List.mem_filter.mp (hqs.subset hp)
  · exact .inr (Nat.le_of_not_lt hroom)

theorem setPolicy_clean {policy : PartitionPolicy} (hc : Clean known r)
    (hok : ¬ (r.fences.length < r.limits.maxFenceRecords ∧
      TookHold (respond .decision (setPolicy policy) r).1 ∧
        ∃ p ∈ r.partitions, p.granted = true)) :
    Clean known (setPolicy policy r).2 := by
  rcases hrun : setPolicy policy r with ⟨res, r'⟩
  rcases setPolicy_cases hrun with ⟨s, ⟨_, -, rfl⟩, hq, -⟩ |
    ⟨canonical, s, qs, t, -, -, hcommit, hqs, hint, hrest⟩
  · exact hq.clean hc
  · have hs : s = (commitRecord .policyDefinition (encodePolicy canonical) r).2 := by rw [hcommit]
    subst hs
    have heff : TookHold (respond .decision (setPolicy policy) r).1 := by
      refine tookHold_of_tookEffect hrun ?_
      rcases hrest with ⟨-, he⟩ | ⟨-, -, heff⟩
      · exact .inr he
      · exact .inl heff
    have hnobody := nobody_of_not_leaves hqs fun h => hok ⟨h.1, heff, h.2⟩
    obtain ⟨hf, hp⟩ := hint.fences_eq hnobody
    have ht : Clean known t := hc.of_eq hp hf
    rcases hrest with ⟨rfl, -⟩ | ⟨-, hq, -⟩
    · exact ht
    · exact hq.clean ht

theorem adoptTopology_clean {definition : TopologyDefinition} (hc : Clean known r)
    (hok : ¬ (r.fences.length < r.limits.maxFenceRecords ∧
      TookHold (respond .decision (adoptTopology definition) r).1 ∧ r.rosterSet = true ∧
        ∃ p ∈ r.partitions, p.granted = true)) :
    Clean known (adoptTopology definition r).2 := by
  rcases hrun : adoptTopology definition r with ⟨res, r'⟩
  rcases adoptTopology_cases hrun with ⟨s, ⟨_, -, rfl⟩, hq, -⟩ |
    ⟨roster, s, -, -, hcommit, ⟨-, hq, -⟩ | ⟨hroster, qs, t, hqs, hint, hrest⟩⟩
  · exact hq.clean hc
  · have hs : s = (commitRecord .topologyDefinition (encodeTopology definition) r).2 := by
      rw [hcommit]
    subst hs
    exact hq.clean (hc.of_eq rfl rfl)
  · have hs : s = (commitRecord .topologyDefinition (encodeTopology definition) r).2 := by
      rw [hcommit]
    subst hs
    have heff : TookHold (respond .decision (adoptTopology definition) r).1 := by
      refine tookHold_of_tookEffect hrun ?_
      rcases hrest with ⟨-, he⟩ | ⟨-, -, heff⟩
      · exact .inr he
      · exact .inl heff
    have hnobody := nobody_of_not_leaves hqs fun h => hok ⟨h.1, heff, hroster, h.2⟩
    obtain ⟨hf, hp⟩ := hint.fences_eq hnobody
    have ht : Clean known t := hc.of_eq hp hf
    rcases hrest with ⟨rfl, -⟩ | ⟨-, hq, -⟩
    · exact ht
    · refine hq.clean ?_
      intro p hp hg f hf'
      obtain ⟨q, hq, rfl⟩ := List.mem_map.mp hp
      exact ht q hq hg f hf'

theorem retire_clean {request : RetireRequest} (hc : Clean known r)
    (hok : ¬ (r.fences.length < r.limits.maxFenceRecords ∧
      TookHold (respond .decision (retire request) r).1 ∧ r.grantsOf request.lineage ≠ [])) :
    Clean known (retire request r).2 := by
  rcases hrun : retire request r with ⟨res, r'⟩
  rcases retire_cases hrun with ⟨⟨s, t, hq, ⟨_, -, rfl⟩, hq'⟩, -⟩ |
    ⟨u, v, sequences, -, hrec, hsub, hf, hrest⟩
  · exact hq'.clean ((hq.clean hc).of_eq rfl rfl)
  · have heff : TookHold (respond .decision (retire request) r).1 := by
      refine tookHold_of_tookEffect hrun ?_
      rcases hrest with ⟨he, -⟩ | ⟨-, -, d, rfl, hd⟩
      · exact .inr he
      · exact .inl (.inl ⟨d, rfl, hd⟩)
    have hnone : sequences = [] ∨ u.limits.maxFenceRecords ≤ u.fences.length := by
      rw [hrec.fences_eq.1, hrec.fences_eq.2]
      by_cases hroom : r.fences.length < r.limits.maxFenceRecords
      · refine .inl (List.subset_nil.mp ?_)
        have hempty : r.grantsOf request.lineage = [] := by
          by_contra hne
          exact hok ⟨hroom, heff, hne⟩
        rwa [hempty] at hsub
      · exact .inr (Nat.le_of_not_lt hroom)
    have hv : Clean known v := hc.of_eq (hf.partitions_eq.trans hrec.partitions_eq)
      ((hf.fences_eq hnone).trans hrec.fences_eq.1)
    rcases hrest with ⟨-, rfl⟩ | ⟨-, hq, -⟩
    · exact hv
    · exact hq.clean hv

theorem requestMerge_clean {request : MergeRequest} (hn : Numbered known r) (hc : Clean known r)
    (hok : ¬ (r.fences.length < r.limits.maxFenceRecords ∧
      (∃ e, (respond .merge (requestMerge request) r).1 = .threw e) ∧
        r.sequencesFenced (.requestMerge request) ≠ [])) :
    Clean known (requestMerge request r).2 := by
  rcases hrun : requestMerge request r with ⟨res, r'⟩
  rcases requestMerge_cases hrun with ⟨⟨s, t, hq, ⟨_, -, rfl⟩, hq'⟩, -⟩ |
    ⟨subject, u, hclosed, hm, hrec, ⟨-, rfl⟩ | ⟨s, t, resA, hf, hq, ha, hres⟩⟩
  · exact hq'.clean ((hq.clean hc).of_eq rfl rfl)
  · exact hc.of_eq hrec.partitions_eq hrec.fences_eq.1
  · -- the fenced subject stays in the list until the assessment that follows replaces it
    have hnt : Numbered known t := by
      have hmoves : Evolves r t := by
        refine ((hrec.evolves.tail (.fenced ?_ hf)).tail (.forgot _)).trans hq.evolves
        intro n hn
        split at hn
        · rename_i hg
          exact .inl ⟨subject, by rw [hrec.partitions_eq]; exact hm.mem, hg,
            (List.mem_singleton.mp hn).symm⟩
        · cases hn
      exact hmoves.invariant (fun _ _ hmove => hmove.numbered) hn
    have hst : t.closed = false ∧ t.rosterSet = true := by
      have hroster := hn.rostered (List.ne_nil_of_mem hm.mem)
      obtain ⟨_, _, _, _, _, -, rfl⟩ := hq
      obtain ⟨_, _, _, -, -, -, rfl⟩ := hf
      obtain ⟨_, _, _, _, hq, -, hcommit, -, rfl⟩ := hrec
      obtain ⟨_, _, _, _, _, -, rfl⟩ := hq
      exact ⟨(congrArg (fun x => x.2.closed) hcommit).symm.trans hclosed,
        (congrArg (fun x => x.2.rosterSet) hcommit).symm.trans hroster⟩
    rcases hres with ⟨a, o, rfl, -, -⟩ | ⟨e, rfl, rfl⟩
    · exact assessLocked_clean_of_ok hnt hst.1 hst.2 ha
    · have hthrew : ∃ e, (respond .merge (requestMerge request) r).1 = .threw e :=
        ⟨e, by rw [respond, hrun]⟩
      have hfound : r.partitionById request.subject = some subject := hm.found
      have hnone : (if subject.granted then [subject.authoritySequence] else []) = [] ∨
          u.limits.maxFenceRecords ≤ u.fences.length := by
        rw [hrec.fences_eq.1, hrec.fences_eq.2]
        by_cases hroom : r.fences.length < r.limits.maxFenceRecords
        · refine .inl (by_contra fun hne => hok ⟨hroom, hthrew, ?_⟩)
          rw [sequencesFenced, hfound]
          exact hne
        · exact .inr (Nat.le_of_not_lt hroom)
      have hs : Clean known s := hc.of_eq (hf.partitions_eq.trans hrec.partitions_eq)
        ((hf.fences_eq hnone).trans hrec.fences_eq.1)
      exact assessLocked_clean hnt (hq.clean (hs.of_eq rfl rfl)) ha

theorem revalidate_clean {request : RevalidationRequest} (hn : Numbered known r)
    (hc : Clean known r) : Clean known (revalidate request r).2 := by
  rcases hrun : revalidate request r with ⟨res, r'⟩
  rcases revalidate_cases hrun with ⟨hq, -⟩ | ⟨s, t, resA, hclosed, hroster, hq, ha, hrest⟩
  · exact hq.clean hc
  · have hns : Numbered known s := (Move.quiet hq).numbered hn
    rcases hrest with ⟨e, rfl, -, rfl⟩ | ⟨refreshed, sequences, u, rfl, hseq, hf, hrest⟩
    · exact assessLocked_clean hns (hq.clean hc) ha
    · -- the interruptions were numbered before the assessment, its grants after them
      have hsame : s.closed = false ∧ s.rosterSet = true := by
        obtain ⟨_, _, _, _, _, -, rfl⟩ := hq
        exact ⟨hclosed, hroster⟩
      have hu : Clean known u := by
        rcases assessLocked_cases ha with ⟨hc | hr, -⟩ | ⟨he, -⟩ |
          ⟨generation, -, -, -, ⟨he, -⟩ | ⟨outcome, -, hs⟩⟩
        · rw [hsame.1] at hc
          cases hc
        · rw [hsame.2] at hr
          cases hr
        · cases he
        · cases he
        · have hclean := hs.clean hns
          have hint := (assessLocked_consulted ha).interrupted
          have hnumber : ∀ q ∈ t.partitions, Sequenced s.state.authoritySequence
              t.state.authoritySequence q := by
            intro q hq'
            have hparts : t.partitions = outcome.partitions := by
              obtain ⟨-, -, _, _, _, _, _, _, _, _, _, -, rfl⟩ := hs.cases
              rfl
            exact hs.sequenced (hparts ▸ hq')
          obtain ⟨added, _, _, -, hin, -, rfl⟩ := hf
          intro p hp hg f hf' hfp
          rcases mem_drop_append hf' with hf' | hf'
          · exact hclean p hp hg f hf' hfp
          · obtain ⟨e, he, hen⟩ := hseq _ (hin f hf').1
            rw [hint] at he
            have hold := (hns.interrupted e he).2
            have hnew := hnumber p hp
            rw [Sequenced, if_pos hg] at hnew
            rw [hen, hfp] at hold
            omega
      rcases hrest with ⟨-, rfl⟩ | ⟨hq', -⟩
      · exact hu
      · exact hq'.clean (hu.of_eq rfl rfl)

end Step

theorem Reassessed.clean {known : Nat} {r r' : PartitionRuntime} (h : Reassessed r r')
    (hn : Numbered known r) (hc : Clean known r) : Clean known r' := by
  obtain ⟨isolations, s, hq, hrest⟩ := h
  have hns : Numbered known s :=
    (Move.quiet hq).numbered ((Move.isolations isolations).numbered hn)
  have hcs : Clean known s := hq.clean (hc.of_eq rfl rfl)
  rcases hrest with rfl | ⟨res, ha⟩
  · exact hcs
  · exact assessLocked_clean hns hcs ha

/-- **A step that leaves no fenced grant keeps the list clean.** -/
theorem perform_clean {known : Nat} {r : PartitionRuntime} {operation : Operation}
    (hn : Numbered known r) (hc : Clean known r)
    (hok : ¬ LeavesFencedGrant ⟨r, ⟨operation, []⟩, (r.perform operation).1,
      (r.perform operation).2⟩) :
    Clean known (r.perform operation).2 := by
  cases operation with
  | advanceTicks delta =>
    rcases advanceTicks_cases (Prod.eta (advanceTicks delta r)).symm with h | ⟨tick, h⟩
    · rw [perform, h]
      exact hc
    · rw [perform, h]
      exact hc
  | adoptTopology definition =>
    rw [perform, respond_snd]
    exact adoptTopology_clean hc hok
  | setPolicy policy =>
    rw [perform, respond_snd]
    exact setPolicy_clean hc hok
  | ingestEvidence evidence =>
    rw [perform, respond_snd]
    rcases ingestEvidence_cases (Prod.eta (ingestEvidence evidence r)).symm with hq | hq
    · exact hq.clean hc
    · exact hq.clean (hc.of_eq rfl rfl)
  | assess =>
    rw [perform, respond_snd]
    exact assessLocked_clean hn hc rfl
  | requestMerge request =>
    rw [perform, respond_snd]
    exact requestMerge_clean hn hc hok
  | isolate request =>
    rw [perform, respond_snd]
    rcases isolate_cases (Prod.eta (isolate request r)).symm with hq | h
    · exact hq.clean hc
    · exact h.clean hn hc
  | clearIsolation request =>
    rw [perform, respond_snd]
    rcases clearIsolation_cases (Prod.eta (clearIsolation request r)).symm with hq | h
    · exact hq.clean hc
    · exact h.clean hn hc
  | retire request =>
    rw [perform, respond_snd]
    exact retire_clean hc hok
  | revalidate request =>
    rw [perform, respond_snd]
    exact revalidate_clean hn hc
  | recordAcknowledgement ack =>
    rw [perform, respond_snd]
    rcases recordAcknowledgement_cases (Prod.eta (recordAcknowledgement ack r)).symm with hq | hq
    · exact hq.clean hc
    · exact hq.clean (hc.of_eq rfl rfl)
  | recordVerifiedEffect effect =>
    rw [perform, respond_snd]
    rcases recordVerifiedEffect_cases (Prod.eta (recordVerifiedEffect effect r)).symm with hq | hq
    · exact hq.clean hc
    · exact hq.clean (hc.of_eq rfl rfl)
  | close =>
    rw [perform, close]
    split
    · exact hc
    · exact hc

theorem perform_clean_of_step {known : Nat} {s : Step}
    (hs : (s.response, s.after) = s.before.call s.call) (hn : Numbered known s.before)
    (hc : Clean known s.before) (hok : ¬ LeavesFencedGrant s) : Clean known s.after := by
  obtain ⟨before, ⟨operation, faults⟩, response, after⟩ := s
  have hresponse : response = ((before.withFaults faults).perform operation).1 :=
    congrArg Prod.fst hs
  have hafter : after = ((before.withFaults faults).perform operation).2 := congrArg Prod.snd hs
  subst hresponse hafter
  have hn' : Numbered known (before.withFaults faults) := (Move.faults faults).numbered hn
  refine perform_clean hn' (hc.of_eq rfl rfl) fun hleaves => hok ?_
  cases operation <;> exact hleaves

/-- The partition's authority is dead: reports about it are refused, and its authorisation is in none
of the states of a grant in force. -/
def Dead (r : PartitionRuntime) (p : Partition) : Prop :=
  (∀ ack faults, ack.partition = p.id →
    (r.call ⟨.recordAcknowledgement ack, faults⟩).1.observes = false) ∧
  (∀ effect faults, effect.partition = p.id →
    (r.call ⟨.recordVerifiedEffect effect, faults⟩).1.observes = false) ∧
  r.applicationState p.id ∉ [AuthorityApplicationState.authorizationIssued,
    .acknowledgedBySubject, .verifiedByObservation]

/-- A clean, numbered runtime names no current partition in a fence of its own. -/
theorem Clean.not_named {known : Nat} {r : PartitionRuntime} (hc : Clean known r)
    (hn : Numbered known r) {p : Partition} (hp : p ∈ r.partitions) {f : FenceRecord}
    (hf : f ∈ r.fences.drop known) : f.fencedAuthoritySequence ≠ p.authoritySequence := by
  cases hg : p.granted with
  | true => exact hc p hp hg f hf
  | false =>
    intro hfp
    have hpos := (hn.fenced f hf).1
    rw [hfp, hn.ungranted p hp hg] at hpos
    exact absurd hpos (by decide)

/-- **Fenced grants are dead as long as no step leaves one in the list.**  The incarnation's own
fences are the ones after those it was constructed with. -/
theorem fenced_grants_dead {options : RuntimeOptions} {disk : Disk} {ids : BootIdentities}
    {startFaults : List (Option AppendFault)} {r : PartitionRuntime}
    (hstart : construct options disk ids startFaults = (.ok (), r))
    (hlive : ∀ e ∈ r.interrupted, Issued r e.authoritySequence) (cs : List Call)
    (hsteps : ∀ s ∈ r.trace cs, ¬ LeavesFencedGrant s) :
    ∀ p ∈ (r.after cs).partitions, ∀ f ∈ (r.after cs).fences.drop r.fences.length,
      f.fencedAuthoritySequence = p.authoritySequence → Dead (r.after cs) p := by
  have hempty : r.partitions = [] := by
    have hr : (construct options disk ids startFaults).2 = r := by rw [hstart]
    rw [← hr, (construct_booted options disk ids startFaults).partitions]
    rfl
  have hinit : Numbered r.fences.length r ∧ Clean r.fences.length r := by
    refine ⟨⟨?_, ?_, hlive, ?_, fun hne => absurd hempty hne⟩, ?_⟩
    · intro p hp
      rw [hempty] at hp
      cases hp
    · intro p hp
      rw [hempty] at hp
      cases hp
    · intro f hf
      rw [List.drop_length] at hf
      cases hf
    · intro p hp
      rw [hempty] at hp
      cases hp
  have hinv : Numbered r.fences.length (r.after cs) ∧ Clean r.fences.length (r.after cs) := by
    refine runs_invariant
      (P := fun t => Numbered r.fences.length t ∧ Clean r.fences.length t) hinit ?_
    rintro s hs ⟨hn, hc⟩
    refine ⟨?_, perform_clean_of_step (mem_trace hs) hn hc (hsteps s hs)⟩
    have hafter : s.after = (s.before.call s.call).2 := congrArg Prod.snd (mem_trace hs)
    rw [hafter]
    exact (call_evolves _ _).invariant (fun _ _ hmove => hmove.numbered) hn
  intro p hp f hf hfp
  exact absurd hfp (hinv.2.not_named hinv.1 hp hf)

/-- A merge fences its subject and replaces it. -/
def remerged : List Call :=
  reunion ++ [⟨.requestMerge (mergeFirst 1 (smallRuntime.after reunion)), []⟩]

theorem merged_grant_dead :
    (smallRuntime.after remerged).fences.drop smallRuntime.fences.length ≠ [] ∧
      ∀ p ∈ (smallRuntime.after remerged).partitions,
        ∀ f ∈ (smallRuntime.after remerged).fences.drop smallRuntime.fences.length,
          f.fencedAuthoritySequence = p.authoritySequence → Dead (smallRuntime.after remerged) p := by
  have hrun : (smallRuntime.after remerged).fences.drop smallRuntime.fences.length ≠ [] ∧
      ∀ s ∈ smallRuntime.trace remerged, ¬ LeavesFencedGrant s := by
    decide +kernel
  have hlive : smallRuntime.interrupted = [] := by decide +kernel
  refine ⟨hrun.1, fenced_grants_dead smallRuntime_started ?_ remerged hrun.2⟩
  rw [hlive]
  intro e he
  cases he

/-- One component is granted authority, and the policy is replaced. -/
def repeal : List Call :=
  [⟨.adoptTopology (smallTopology 1 ["a"]), []⟩,
    ⟨.assess, []⟩,
    ⟨.setPolicy (defaultPolicy ⟨2⟩), []⟩]

/-- The grant is fenced, still acknowledged, and still reported as issued. -/
theorem repealed_grant_acknowledged :
    let r := smallRuntime.after repeal
    ∃ p ∈ r.partitions, ∃ f ∈ r.fences.drop smallRuntime.fences.length,
      f.fencedAuthoritySequence = p.authoritySequence ∧
        (r.call ⟨.recordAcknowledgement
          { attempt := named _ "m1", partition := p.id, accepted := true }, []⟩).1.observes = true ∧
        r.applicationState p.id = .authorizationIssued := by
  decide +kernel

end PartitionRuntime

end FabricPartition
