import FabricPartition.Evolution

/-!
# What an assessment publishes

`assess_locked` takes the partitions of the decomposition through three passes — classes, sequences,
lineage — before it publishes them.  None of the passes touches what a partition *is*: its identity,
members, lineage, generation and pending parents are the built ones (`Partition.Dresses`).  What they
do add is described here:

* every grant gets a sequence above the counter the assessment started from, and the counter ends
  above all of them (`evaluateAuthority_sequence`);
* a lineage that is interrupted gets no more than observation, unless the assessment is a
  revalidation (`evaluateAuthority_capped`);
* the lineage store grows by the records of partitions that have nothing pending
  (`commitLineages_grows`).

`assessLocked_cases` then takes a whole assessment apart.
-/

set_option autoImplicit false

namespace FabricPartition

/-- The second partition is the first one with its authority, lifecycle and reasons filled in. -/
def Partition.Dresses (p p' : Partition) : Prop :=
  ∃ (authority : AuthorityVector) (sequence : AuthoritySequence) (authoritative : Bool)
    (lifecycle : PartitionLifecycle) (reasons : List Reason),
    p' = { p with
      authority := authority
      authoritySequence := sequence
      authoritative := authoritative
      lifecycle := lifecycle
      reasons := reasons }

namespace Partition.Dresses

variable {p q s : Partition}

theorem refl (p : Partition) : Dresses p p := ⟨_, _, _, _, _, rfl⟩

theorem trans (h : Dresses p q) (h' : Dresses q s) : Dresses p s := by
  obtain ⟨_, _, _, _, _, rfl⟩ := h
  obtain ⟨_, _, _, _, _, rfl⟩ := h'
  exact ⟨_, _, _, _, _, rfl⟩

end Partition.Dresses

/-- Each element of the second list is related to one of the first. -/
theorem exists_of_forall₂ {α β : Type} {R : α → β → Prop} {xs : List α} {ys : List β}
    (h : List.Forall₂ R xs ys) {y : β} (hy : y ∈ ys) : ∃ x ∈ xs, R x y := by
  induction h with
  | nil => cases hy
  | cons hxy _ ih =>
    rcases List.mem_cons.mp hy with rfl | hy
    · exact ⟨_, List.mem_cons_self, hxy⟩
    · obtain ⟨x, hx, hxy⟩ := ih hy
      exact ⟨x, List.mem_cons_of_mem _ hx, hxy⟩

namespace PartitionRuntime

/-! ## The passes -/

theorem evaluatePartitions_fst (r : PartitionRuntime) (allowRestore : Bool) (ps : List Partition)
    (reasons : List Reason) :
    (r.evaluatePartitions allowRestore ps reasons).1.map Prod.fst = ps := by
  induction ps generalizing reasons with
  | nil => rfl
  | cons p rest ih =>
    rw [evaluatePartitions]
    exact congrArg (p :: ·) (ih _)

theorem demotePrimaries_fst (limits : Limits) (count : Nat)
    (pes : List (Partition × ClassEvaluation)) (reasons : List Reason) :
    (demotePrimaries limits count pes reasons).1.map Prod.fst = pes.map Prod.fst := by
  induction pes generalizing reasons with
  | nil => rfl
  | cons pe rest ih =>
    obtain ⟨p, e⟩ := pe
    rw [demotePrimaries]
    split
    · exact congrArg (p :: ·) (ih _)
    · exact congrArg (p :: ·) (ih _)

/-- The classes an evaluation settles on, after the split-brain demotion. -/
def settledClasses (r : PartitionRuntime) (ps : List Partition) (allowRestore : Bool) :
    List (Partition × ClassEvaluation) :=
  let (evaluated, reasons) := r.evaluatePartitions allowRestore ps []
  let primaryCount := evaluated.countP fun pe => pe.2.finalClass == .primary
  if decide (primaryCount > 1) && !r.policy.allowMultipleAuthoritativePartitions then
    (demotePrimaries r.limits primaryCount evaluated reasons).1
  else evaluated

theorem settledClasses_fst (r : PartitionRuntime) (ps : List Partition) (allowRestore : Bool) :
    (r.settledClasses ps allowRestore).map Prod.fst = ps := by
  rw [settledClasses]
  dsimp only
  split
  · rw [demotePrimaries_fst, evaluatePartitions_fst]
  · exact evaluatePartitions_fst _ _ _ _

theorem evaluateAuthority_eq (r : PartitionRuntime) (ps : List Partition) (allowRestore : Bool) :
    ∃ reasons,
      (r.evaluateAuthority ps allowRestore).partitions
        = (r.issueAuthority (r.settledClasses ps allowRestore) r.state.authoritySequence reasons).1 ∧
      (r.evaluateAuthority ps allowRestore).authoritySequence
        = (r.issueAuthority (r.settledClasses ps allowRestore) r.state.authoritySequence
            reasons).2.1 := by
  simp only [evaluateAuthority, settledClasses]
  split <;> exact ⟨_, rfl, rfl⟩

/-- How the issuing loop treats the grants: a grant's sequence lies above the counter at the start,
and a partition without a grant has none. -/
def Sequenced (low high : AuthoritySequence) (p : Partition) : Prop :=
  if p.granted then
    low.value.toNat < p.authoritySequence.value.toNat ∧
      p.authoritySequence.value.toNat ≤ high.value.toNat
  else p.authoritySequence = .zero

theorem Sequenced.mono {low low' high high' : AuthoritySequence} {p : Partition}
    (h : Sequenced low high p) (hlow : low'.value.toNat ≤ low.value.toNat)
    (hhigh : high.value.toNat ≤ high'.value.toNat) : Sequenced low' high' p := by
  rw [Sequenced] at h ⊢
  split
  · rename_i hp
    rw [if_pos hp] at h
    omega
  · rename_i hp
    rwa [if_neg hp] at h

/-- The class a dressed partition shows is the one it was evaluated to. -/
def Shows (pe : Partition × ClassEvaluation) (p : Partition) : Prop :=
  pe.1.Dresses p ∧ p.authority.authorityClass = pe.2.finalClass

/-- **The issuing loop** dresses each partition with its class, and numbers the grants upwards. -/
theorem issueAuthority_spec (r : PartitionRuntime) (pes : List (Partition × ClassEvaluation))
    (sequence : AuthoritySequence) (reasons : List Reason) :
    List.Forall₂ Shows pes (r.issueAuthority pes sequence reasons).1 ∧
      sequence.value.toNat ≤ (r.issueAuthority pes sequence reasons).2.1.value.toNat ∧
      ∀ p ∈ (r.issueAuthority pes sequence reasons).1,
        Sequenced sequence (r.issueAuthority pes sequence reasons).2.1 p := by
  induction pes generalizing sequence reasons with
  | nil => exact ⟨.nil, le_rfl, by simp [issueAuthority]⟩
  | cons pe rest ih =>
    obtain ⟨p, e⟩ := pe
    rw [issueAuthority]
    dsimp only
    split
    · rename_i hempty
      obtain ⟨hall, hle, hseq⟩ := ih sequence reasons
      refine ⟨.cons ⟨⟨_, _, _, _, _, rfl⟩, rfl⟩ hall, hle, ?_⟩
      rintro q (_ | ⟨_, hq⟩)
      · rw [Sequenced, if_neg (by simp [Partition.granted, hempty])]
      · exact hseq q hq
    · rename_i hsome
      cases hnext : sequence.next with
      | none =>
        dsimp only
        obtain ⟨hall, hle, hseq⟩ := ih sequence (appendReason reasons .arithmeticRefused p.id.text
          (ascii "the authority sequence is exhausted; authority was withheld") r.limits)
        refine ⟨.cons ⟨⟨_, _, _, _, _, rfl⟩, rfl⟩ hall, hle, ?_⟩
        rintro q (_ | ⟨_, hq⟩)
        · rw [Sequenced, if_neg (by simp [Partition.granted, CapabilitySet.none, CapabilitySet.empty])]
        · exact hseq q hq
      | some next =>
        dsimp only
        obtain ⟨hall, hle, hseq⟩ := ih next reasons
        have hlt := Counter.next_toNat hnext
        refine ⟨.cons ⟨⟨_, _, _, _, _, rfl⟩, rfl⟩ hall, Nat.le_trans (by omega) hle, ?_⟩
        rintro q (_ | ⟨_, hq⟩)
        · rw [Sequenced, if_pos (by simpa [Partition.granted] using hsome)]
          exact ⟨by dsimp only; omega, hle⟩
        · exact (hseq q hq).mono (by omega) le_rfl

theorem evaluateAuthority_dresses (r : PartitionRuntime) (ps : List Partition)
    (allowRestore : Bool) :
    List.Forall₂ Partition.Dresses ps (r.evaluateAuthority ps allowRestore).partitions := by
  obtain ⟨reasons, hps, -⟩ := r.evaluateAuthority_eq ps allowRestore
  have hall := (r.issueAuthority_spec (r.settledClasses ps allowRestore) r.state.authoritySequence
    reasons).1
  rw [← hps] at hall
  have hfst := List.forall₂_map_left_iff.mpr (hall.imp fun _ _ h => h.1)
  rwa [settledClasses_fst] at hfst

/-- Every grant an evaluation issues is numbered above the counter it started from, and the counter
it returns is above every one. -/
theorem evaluateAuthority_sequence (r : PartitionRuntime) (ps : List Partition)
    (allowRestore : Bool) :
    r.state.authoritySequence.value.toNat
        ≤ (r.evaluateAuthority ps allowRestore).authoritySequence.value.toNat ∧
      ∀ p ∈ (r.evaluateAuthority ps allowRestore).partitions,
        Sequenced r.state.authoritySequence (r.evaluateAuthority ps allowRestore).authoritySequence
          p := by
  obtain ⟨reasons, hps, hseq⟩ := r.evaluateAuthority_eq ps allowRestore
  rw [hps, hseq]
  exact (r.issueAuthority_spec _ _ _).2

/-! ## Interrupted lineages -/

theorem weaker_observeOnly (c : PartitionAuthorityClass) :
    c.weaker .observeOnly = .observeOnly ∨ c.weaker .observeOnly = .isolated := by
  cases c <;> decide

/-- An interrupted lineage is evaluated to observation or isolation, unless restoring is allowed. -/
theorem evaluatePartition_capped {r : PartitionRuntime} {p : Partition} (reasons : List Reason)
    (hint : r.isInterrupted p.lineage = true) :
    (r.evaluatePartition false p reasons).finalClass = .observeOnly ∨
      (r.evaluatePartition false p reasons).finalClass = .isolated := by
  rw [evaluatePartition]
  simp only [hint, Bool.not_false, Bool.and_self, if_true]
  exact weaker_observeOnly _

theorem mem_evaluatePartitions {r : PartitionRuntime} {allowRestore : Bool} {ps : List Partition}
    {reasons : List Reason} {pe : Partition × ClassEvaluation}
    (h : pe ∈ (r.evaluatePartitions allowRestore ps reasons).1) :
    ∃ reasons, pe.2 = r.evaluatePartition allowRestore pe.1 reasons := by
  induction ps generalizing reasons with
  | nil => cases h
  | cons p rest ih =>
    rw [evaluatePartitions] at h
    rcases List.mem_cons.mp h with rfl | h
    · exact ⟨reasons, rfl⟩
    · exact ih h

theorem mem_demotePrimaries {limits : Limits} {count : Nat}
    {pes : List (Partition × ClassEvaluation)} {reasons : List Reason}
    {pe : Partition × ClassEvaluation} (h : pe ∈ (demotePrimaries limits count pes reasons).1) :
    pe ∈ pes ∨ pe.2.finalClass = .observeOnly := by
  induction pes generalizing reasons with
  | nil => cases h
  | cons qe rest ih =>
    obtain ⟨q, e⟩ := qe
    rw [demotePrimaries] at h
    split at h
    · rcases List.mem_cons.mp h with rfl | h
      · exact .inl List.mem_cons_self
      · exact (ih h).imp_left (List.mem_cons_of_mem _)
    · rcases List.mem_cons.mp h with rfl | h
      · exact .inr rfl
      · exact (ih h).imp_left (List.mem_cons_of_mem _)

theorem settledClasses_capped {r : PartitionRuntime} {ps : List Partition}
    {pe : Partition × ClassEvaluation} (h : pe ∈ r.settledClasses ps false)
    (hint : r.isInterrupted pe.1.lineage = true) :
    pe.2.finalClass = .observeOnly ∨ pe.2.finalClass = .isolated := by
  have hcap : ∀ {reasons}, pe ∈ (r.evaluatePartitions false ps reasons).1 →
      pe.2.finalClass = .observeOnly ∨ pe.2.finalClass = .isolated := by
    intro _ h
    obtain ⟨reasons, he⟩ := mem_evaluatePartitions h
    rw [he]
    exact evaluatePartition_capped reasons hint
  rw [settledClasses] at h
  dsimp only at h
  split at h
  · rcases mem_demotePrimaries h with h | h
    · exact hcap h
    · exact .inl h
  · exact hcap h

/-- **An interrupted lineage observes at most**: an assessment that may not restore gives its
partitions the class observe-only or isolated. -/
theorem evaluateAuthority_capped {r : PartitionRuntime} {ps : List Partition} {p : Partition}
    (h : p ∈ (r.evaluateAuthority ps false).partitions)
    (hint : r.isInterrupted p.lineage = true) :
    p.authority.authorityClass = .observeOnly ∨ p.authority.authorityClass = .isolated := by
  obtain ⟨reasons, hps, -⟩ := r.evaluateAuthority_eq ps false
  rw [hps] at h
  obtain ⟨pe, hpe, ⟨_, _, _, _, _, rfl⟩, hclass⟩ :=
    exists_of_forall₂ (r.issueAuthority_spec _ _ _).1 h
  rw [hclass]
  exact settledClasses_capped hpe hint

/-! ## The lineage pass -/

/-- A record an assessment commits for a partition. -/
def Chronicles (p : Partition) (record : LineageRecord) : Prop :=
  p.pendingMergeParents = [] ∧
    ∃ (r : PartitionRuntime) (decision : DecisionId) (sequence : LineageSequence),
      record = r.assessmentRecord decision sequence p

/-- The lineage pass of an assessment: the lineage, its counter and the journal move. -/
def Chronicled (ps : List Partition) (r r' : PartitionRuntime) : Prop :=
  ∃ (lineage : LineageStore) (lineageSequence : LineageSequence) (j : Journal),
    Journaled (OfType .lineageRecord) r.journal j ∧
    r.lineage.Grows (fun record => ∃ p ∈ ps, Chronicles p record) lineage ∧
    r' = { r with
      lineage := lineage
      state := { r.state with lineageSequence := lineageSequence }
      store := j.1
      durableSequence := j.2 }

theorem Chronicled.mono {ps qs : List Partition} {r r' : PartitionRuntime}
    (h : Chronicled ps r r') (hsub : ps ⊆ qs) : Chronicled qs r r' := by
  obtain ⟨lineage, sequence, j, hj, hgrows, rfl⟩ := h
  refine ⟨lineage, sequence, j, hj, hgrows.mono ?_, rfl⟩
  rintro record ⟨p, hp, hrecord⟩
  exact ⟨p, hsub hp, hrecord⟩

theorem Chronicled.trans {ps : List Partition} {r s t : PartitionRuntime}
    (h : Chronicled ps r s) (h' : Chronicled ps s t) : Chronicled ps r t := by
  obtain ⟨_, _, _, hj, hgrows, rfl⟩ := h
  obtain ⟨_, _, _, hj', hgrows', rfl⟩ := h'
  exact ⟨_, _, _, hj.trans hj', hgrows.trans hgrows', rfl⟩

/-- One turn of the lineage loop: nothing is written, a record is committed that the store refuses,
or a record is committed and kept. -/
theorem commitLineage_cases {decision : DecisionId} {p p' : Partition} {r r' : PartitionRuntime}
    (h : commitLineage decision p r = (p', r')) :
    (∃ lifecycle reasons, p' = { p with lifecycle := lifecycle, reasons := reasons }) ∧
      (r' = r ∨
        ∃ sequence, r.state.lineageSequence.next = some sequence ∧ p.pendingMergeParents = [] ∧
          (r' = (commitRecord .lineageRecord
              (encodeLineage (r.assessmentRecord decision sequence p)) r).2 ∧
            ((commitRecord .lineageRecord
                (encodeLineage (r.assessmentRecord decision sequence p)) r).1 = false ∨
              r.lineage.admits (r.assessmentRecord decision sequence p) = false) ∨
          r.lineage.admits (r.assessmentRecord decision sequence p) = true ∧
            (commitRecord .lineageRecord
                (encodeLineage (r.assessmentRecord decision sequence p)) r).1 = true ∧
            r' = { (commitRecord .lineageRecord
                (encodeLineage (r.assessmentRecord decision sequence p)) r).2 with
              lineage := r.lineage.push (r.assessmentRecord decision sequence p)
              state := { r.state with lineageSequence := sequence } })) := by
  rw [commitLineage] at h
  split at h
  · cases h
    exact ⟨⟨_, _, rfl⟩, .inl rfl⟩
  split at h
  · cases h
    exact ⟨⟨_, _, rfl⟩, .inl rfl⟩
  rename_i hpending
  rw [not_not] at hpending
  split at h
  · cases h
    exact ⟨⟨_, _, rfl⟩, .inl rfl⟩
  cases hnext : r.state.lineageSequence.next with
  | none =>
    rw [hnext] at h
    cases h
    exact ⟨⟨_, _, rfl⟩, .inl rfl⟩
  | some sequence =>
    simp only [hnext] at h
    rcases hcommit : commitRecord .lineageRecord
      (encodeLineage (r.assessmentRecord decision sequence p)) r with ⟨_ | _, s⟩
    · simp only [hcommit] at h
      cases h
      exact ⟨⟨_, _, rfl⟩, .inr ⟨sequence, rfl, hpending, .inl ⟨by rw [hcommit], .inl (by rw [hcommit])⟩⟩⟩
    · have hs : s.lineage = r.lineage := by
        have := congrArg (fun x => x.2.lineage) hcommit
        exact this.symm
      have hstate : s.state = r.state := by
        have := congrArg (fun x => x.2.state) hcommit
        exact this.symm
      simp only [hcommit, hs, LineageStore.append] at h
      by_cases hadmits : r.lineage.admits (r.assessmentRecord decision sequence p)
      · simp only [hadmits, if_true] at h
        cases h
        exact ⟨⟨_, _, rfl⟩, .inr ⟨sequence, rfl, hpending,
          .inr ⟨hadmits, by rw [hcommit], by rw [hcommit, hstate]⟩⟩⟩
      · simp only [hadmits] at h
        cases h
        exact ⟨⟨_, _, rfl⟩, .inr ⟨sequence, rfl, hpending,
          .inl ⟨by rw [hcommit], .inr (by simpa using hadmits)⟩⟩⟩

theorem commitLineage_chronicled {decision : DecisionId} {p p' : Partition}
    {r r' : PartitionRuntime} (h : commitLineage decision p r = (p', r')) :
    Chronicled [p] r r' := by
  rcases (commitLineage_cases h).2 with rfl | ⟨sequence, -, hpending, ⟨rfl, -⟩ | ⟨hadmits, -, rfl⟩⟩
  · exact ⟨_, _, _, .refl, .refl, rfl⟩
  · exact ⟨_, _, _, .single rfl, .refl, rfl⟩
  · exact ⟨_, _, _, .single rfl, .push .refl hadmits
      ⟨p, List.mem_singleton_self p, hpending, r, decision, sequence, rfl⟩, rfl⟩

/-- **The lineage loop** keeps what every partition is, and grows the lineage store by records of
partitions with nothing pending. -/
theorem commitLineages_cases {decision : DecisionId} {ps qs : List Partition}
    {r r' : PartitionRuntime} (h : commitLineages decision ps r = (qs, r')) :
    List.Forall₂ (fun p q => ∃ lifecycle reasons,
        q = { p with lifecycle := lifecycle, reasons := reasons }) ps qs ∧
      Chronicled ps r r' := by
  induction ps generalizing r qs with
  | nil =>
    cases h
    exact ⟨.nil, _, _, _, .refl, .refl, rfl⟩
  | cons p rest ih =>
    rw [commitLineages] at h
    rcases hfirst : commitLineage decision p r with ⟨p', s⟩
    rcases hrest : commitLineages decision rest s with ⟨others, t⟩
    simp only [hfirst, hrest] at h
    cases h
    obtain ⟨hall, hrest⟩ := ih hrest
    exact ⟨.cons (commitLineage_cases hfirst).1 hall,
      ((commitLineage_chronicled hfirst).mono (by simp)).trans (hrest.mono (by simp))⟩

theorem commitLineages_sequence (decision : DecisionId) (ps : List Partition)
    (r : PartitionRuntime) :
    (commitLineages decision ps r).2.state.decisionSequence = r.state.decisionSequence := by
  obtain ⟨-, _, _, _, -, -, hr⟩ := commitLineages_cases (Prod.eta (commitLineages decision ps r)).symm
  rw [hr]

/-! ## Whole assessments -/

/-- The evaluation of an assessment that starts from a runtime. -/
def planned (allowRestore : Bool) (generation : PartitionGeneration) (r : PartitionRuntime) :
    AuthorityEvaluation :=
  let b := beginAssessment generation r
  b.evaluateAuthority (buildPartitions b.snapshot b.state.partitionGeneration b.lineage b.limits)
    allowRestore

/-- The runtime once the partitions are evaluated and nothing is recorded yet. -/
def begun (allowRestore : Bool) (generation : PartitionGeneration) (r : PartitionRuntime) :
    PartitionRuntime :=
  let b := beginAssessment generation r
  { b with
    state := { b.state with
      authoritySequence := (planned allowRestore generation r).authoritySequence } }

/-- An invalid snapshot leaves nothing to evaluate. -/
theorem planned_of_invalid (allowRestore : Bool) {generation : PartitionGeneration}
    {r : PartitionRuntime} (h : (beginAssessment generation r).snapshot.valid = false) :
    (planned allowRestore generation r).partitions = [] ∧
      begun allowRestore generation r = beginAssessment generation r := by
  have hb : ∀ g store limits,
      buildPartitions (beginAssessment generation r).snapshot g store limits = [] := by
    intro g store limits
    simp [buildPartitions, h]
  obtain ⟨reasons, hps, hseq⟩ := (beginAssessment generation r).evaluateAuthority_eq [] allowRestore
  have hsettled : (beginAssessment generation r).settledClasses [] allowRestore = [] :=
    List.map_eq_nil_iff.mp (settledClasses_fst _ _ _)
  simp only [begun, planned, hb]
  rw [hsettled] at hps hseq
  refine ⟨hps, ?_⟩
  rw [hseq]
  rfl

/-- An assessment was completed: the evaluation is recorded, its lineage committed, and the
partitions published. -/
def Surveyed (allowRestore : Bool) (generation : PartitionGeneration) (r r' : PartitionRuntime)
    (outcome : PartitionAssessment) : Prop :=
  ∃ (decision : Decision) (s t : PartitionRuntime) (ps : List Partition),
    Quiet (begun allowRestore generation r) s ∧
    commitLineages decision.id (planned allowRestore generation r).partitions s = (ps, t) ∧
    ((beginAssessment generation r).snapshot.valid = true ∧
        (outcome, r') = publishAssessment decision (planned allowRestore generation r) ps t ∨
      (beginAssessment generation r).snapshot.valid = false ∧ t = s ∧ ps = [] ∧
        outcome.partitions = [] ∧ outcome.generation = generation ∧
        r' = { s with
          partitions := []
          assessment := outcome
          lastAssessmentConfirmed := false })

/-- **The runs of `assess_locked`**: refused, out of generations, out of decisions after the
evaluation, or completed. -/
theorem assessLocked_cases {allowRestore : Bool} {r r' : PartitionRuntime}
    {res : Except PartitionError PartitionAssessment}
    (h : assessLocked allowRestore r = (res, r')) :
    ((r.closed = true ∨ r.rosterSet = false) ∧
      ∃ s assessment, Quiet r s ∧ r' = { s with assessment := assessment } ∧
        assessment.generation = r.assessment.generation ∧
        ((∃ a, res = .ok a ∧ a.partitions = []) ∨ res = .error .decisionExhausted)) ∨
    (res = .error .generationExhausted ∧ r' = r) ∨
    ∃ generation, r.closed = false ∧ r.rosterSet = true ∧
      r.state.partitionGeneration.next = some generation ∧
      (res = .error .decisionExhausted ∧ Quiet (begun allowRestore generation r) r' ∨
        ∃ outcome, res = .ok outcome ∧ Surveyed allowRestore generation r r' outcome) := by
  have hrefuse : ∀ {code subject detail clear},
      refuseAssessment code subject detail clear r = (res, r') →
      ∃ s assessment, Quiet r s ∧ r' = { s with assessment := assessment } ∧
        assessment.generation = r.assessment.generation ∧
        ((∃ a, res = .ok a ∧ a.partitions = []) ∨ res = .error .decisionExhausted) := by
    intro code subject detail clear hr
    rw [refuseAssessment, Act.read_bind] at hr
    rcases Act.bind_cases hr with ⟨d, s, hd, hs⟩ | ⟨e, he, rfl⟩
    · have hq := (finalizeDecision_cases hd).1
      cases hs
      refine ⟨s, _, hq, rfl, ?_, .inl ⟨_, rfl, rfl⟩⟩
      obtain ⟨_, _, _, _, _, -, rfl⟩ := hq
      rfl
    · obtain ⟨hq, ⟨d, hd, -⟩ | ⟨herr, -⟩⟩ := finalizeDecision_cases he
      · cases hd
      · cases herr
        refine ⟨r', r'.assessment, hq, rfl, ?_, .inr rfl⟩
        obtain ⟨_, _, _, _, _, -, rfl⟩ := hq
        rfl
  rw [assessLocked, Act.read_bind] at h
  by_cases hclosed : r.closed = true
  · rw [if_pos hclosed] at h
    exact .inl ⟨.inl hclosed, hrefuse h⟩
  rw [if_neg hclosed] at h
  by_cases hroster : (!r.rosterSet) = true
  · rw [if_pos hroster] at h
    exact .inl ⟨.inr (by simpa using hroster), hrefuse h⟩
  rw [if_neg hroster] at h
  cases hnext : r.state.partitionGeneration.next with
  | none =>
    rw [hnext] at h
    cases h
    exact .inr (.inl ⟨rfl, rfl⟩)
  | some generation =>
    simp only [hnext] at h
    refine .inr (.inr ⟨generation, by simpa using hclosed, by simpa using hroster, rfl, ?_⟩)
    rw [Act.modify_bind, assessGeneration, Act.read_bind] at h
    by_cases hvalid : (beginAssessment generation r).snapshot.valid = true
    · simp only [hvalid, Bool.not_true, Bool.false_eq_true, if_false] at h
      have hplanned : (beginAssessment generation r).evaluateAuthority
          (buildPartitions (beginAssessment generation r).snapshot
            (beginAssessment generation r).state.partitionGeneration
            (beginAssessment generation r).lineage (beginAssessment generation r).limits)
          allowRestore = planned allowRestore generation r := rfl
      rw [Act.modify_bind, hplanned] at h
      rcases Act.bind_cases h with ⟨d, s, hd, hs⟩ | ⟨e, he, rfl⟩
      · have hq := (finalizeDecision_cases hd).1
        rw [Act.total_bind, Act.total_apply] at hs
        cases hs
        exact .inr ⟨_, rfl, d, s, _, _, hq, rfl, .inl ⟨hvalid, rfl⟩⟩
      · obtain ⟨hq, ⟨d, hd, -⟩ | ⟨herr, -⟩⟩ := finalizeDecision_cases he
        · cases hd
        · cases herr
          exact .inl ⟨rfl, hq⟩
    · obtain ⟨hnil, hbegun⟩ := planned_of_invalid allowRestore (by simpa using hvalid)
      simp only [hvalid, Bool.not_false, if_true] at h
      rcases Act.bind_cases h with ⟨d, s, hd, hs⟩ | ⟨e, he, rfl⟩
      · have hq := (finalizeDecision_cases hd).1
        cases hs
        exact .inr ⟨_, rfl, d, s, s, [], by rw [hbegun]; exact hq, by rw [hnil]; rfl,
          .inr ⟨by simpa using hvalid, rfl, rfl, rfl, rfl, rfl⟩⟩
      · obtain ⟨hq, ⟨d, hd, -⟩ | ⟨herr, -⟩⟩ := finalizeDecision_cases he
        · cases hd
        · cases herr
          exact .inl ⟨rfl, by rw [hbegun]; exact hq⟩

/-- Publishing writes the partition list, the cached assessment and the epoch watermark. -/
theorem publishAssessment_cases {decision : Decision} {evaluation : AuthorityEvaluation}
    {ps : List Partition} {r r' : PartitionRuntime} {outcome : PartitionAssessment}
    (h : (outcome, r') = publishAssessment decision evaluation ps r) :
    outcome.partitions = ps ∧ outcome.generation = r.state.partitionGeneration ∧
      ∃ j, Journaled (OfType .epochState) r.journal j ∧
        r' = { r with
          state := { r.state with liveGrants := grantMarks ps }
          partitions := ps
          lastAssessmentConfirmed := r.snapshot.confirmed
          assessment := outcome
          store := j.1
          durableSequence := j.2 } := by
  rw [publishAssessment] at h
  dsimp only at h
  by_cases hstore : r.store.isSome = true
  · rw [if_pos hstore] at h
    cases h
    exact ⟨rfl, rfl, _, .single rfl, rfl⟩
  · rw [if_neg hstore] at h
    cases h
    exact ⟨rfl, rfl, r.journal, .refl, rfl⟩

/-- **What a completed assessment leaves**: the members it does not list here are those of the
runtime it began from. -/
theorem Surveyed.cases {allowRestore : Bool} {generation : PartitionGeneration}
    {r r' : PartitionRuntime} {outcome : PartitionAssessment}
    (h : Surveyed allowRestore generation r r' outcome) :
    outcome.generation = generation ∧
    List.Forall₂ (fun p q => ∃ lifecycle reasons,
        q = { p with lifecycle := lifecycle, reasons := reasons })
      (planned allowRestore generation r).partitions outcome.partitions ∧
    ∃ (lineage : LineageStore) (lineageSequence : LineageSequence)
      (liveGrants : List AuthorityGrantMark) (decisions : DecisionLog)
      (attempts : List AttemptRecord) (decisionSequence : DecisionSequence)
      (attemptSequence : AttemptSequence) (confirmed : Bool) (j : Journal),
      r.lineage.Grows (fun record => ∃ p ∈ (planned allowRestore generation r).partitions,
        Chronicles p record) lineage ∧
      r' = { begun allowRestore generation r with
        lineage := lineage
        state := { (begun allowRestore generation r).state with
          lineageSequence := lineageSequence
          liveGrants := liveGrants
          decisionSequence := decisionSequence
          attemptSequence := attemptSequence }
        decisions := decisions
        attempts := attempts
        partitions := outcome.partitions
        lastAssessmentConfirmed := confirmed
        assessment := outcome
        store := j.1
        durableSequence := j.2 } := by
  obtain ⟨decision, s, t, ps, hq, hcommit, hpub⟩ := h
  obtain ⟨hall, hchron⟩ := commitLineages_cases hcommit
  obtain ⟨_, _, _, _, _, -, rfl⟩ := hq
  obtain ⟨lineage, lineageSequence, j, -, hgrows, ht⟩ := hchron
  rcases hpub with ⟨-, hpub⟩ | ⟨-, hts, rfl, hnil, hgen, rfl⟩
  · obtain ⟨rfl, hgen, j', -, rfl⟩ := publishAssessment_cases hpub
    subst ht
    exact ⟨hgen, hall, lineage, _, _, _, _, _, _, _, _, hgrows, rfl⟩
  · rw [hnil]
    exact ⟨hgen, hall, _, _, _, _, _, _, _, _, _, .refl, rfl⟩

/-- The snapshot the current inputs resolve to. -/
def currentSnapshot (r : PartitionRuntime) : ReachabilitySnapshot :=
  buildReachabilitySnapshot r.roster r.ledger.retained (some r.policy) r.state.tick r.limits

section Published

variable {allowRestore : Bool} {generation : PartitionGeneration} {r r' : PartitionRuntime}
  {outcome : PartitionAssessment} {q : Partition}

/-- A published partition is an evaluated one, up to its lifecycle and reasons. -/
theorem Surveyed.planned (h : Surveyed allowRestore generation r r' outcome)
    (hq : q ∈ outcome.partitions) :
    ∃ p ∈ (planned allowRestore generation r).partitions,
      ∃ lifecycle reasons, q = { p with lifecycle := lifecycle, reasons := reasons } := by
  obtain ⟨-, hall, -⟩ := h.cases
  exact exists_of_forall₂ hall hq

/-- A published partition is a built one, dressed. -/
theorem Surveyed.built (h : Surveyed allowRestore generation r r' outcome)
    (hq : q ∈ outcome.partitions) :
    ∃ p, Built r.currentSnapshot generation r.lineage r.limits p ∧ p.Dresses q := by
  obtain ⟨p, hp, _, _, rfl⟩ := h.planned hq
  obtain ⟨b, hb, hdress⟩ := exists_of_forall₂
    ((beginAssessment generation r).evaluateAuthority_dresses _ allowRestore) hp
  exact ⟨b, mem_buildPartitions hb, hdress.trans ⟨_, _, _, _, _, rfl⟩⟩

/-- The grants of an assessment are numbered above the counter it started from. -/
theorem Surveyed.sequenced (h : Surveyed allowRestore generation r r' outcome)
    (hq : q ∈ outcome.partitions) :
    Sequenced r.state.authoritySequence r'.state.authoritySequence q := by
  obtain ⟨p, hp, _, _, rfl⟩ := h.planned hq
  have hseq := ((beginAssessment generation r).evaluateAuthority_sequence _ allowRestore).2 p hp
  obtain ⟨-, -, _, _, _, _, _, _, _, _, _, -, rfl⟩ := h.cases
  exact hseq

end Published

/-! ## What an assessment leaves alone -/

/-- The members an assessment only reads. -/
structure Consulted (r r' : PartitionRuntime) : Prop where
  options : r'.options = r.options
  policy : r'.policy = r.policy
  roster : r'.roster = r.roster
  rosterSet : r'.rosterSet = r.rosterSet
  ledger : r'.ledger = r.ledger
  fences : r'.fences = r.fences
  isolations : r'.isolations = r.isolations
  interrupted : r'.interrupted = r.interrupted
  epoch : r'.state.epoch = r.state.epoch
  boot : r'.state.boot = r.state.boot
  fenceSequence : r'.state.fenceSequence = r.state.fenceSequence
  tick : r'.state.tick = r.state.tick
  closed : r'.closed = r.closed

theorem Quiet.consulted {r r' : PartitionRuntime} (h : Quiet r r') : Consulted r r' := by
  obtain ⟨_, _, _, _, _, -, rfl⟩ := h
  exact ⟨rfl, rfl, rfl, rfl, rfl, rfl, rfl, rfl, rfl, rfl, rfl, rfl, rfl⟩

theorem assessLocked_consulted {allowRestore : Bool} {r r' : PartitionRuntime}
    {res : Except PartitionError PartitionAssessment}
    (h : assessLocked allowRestore r = (res, r')) : Consulted r r' := by
  rcases assessLocked_cases h with ⟨-, s, _, hq, rfl, -⟩ | ⟨-, rfl⟩ |
    ⟨generation, -, -, -, ⟨-, hq⟩ | ⟨outcome, -, hs⟩⟩
  · obtain ⟨_, _, _, _, _, -, rfl⟩ := hq
    exact ⟨rfl, rfl, rfl, rfl, rfl, rfl, rfl, rfl, rfl, rfl, rfl, rfl, rfl⟩
  · exact ⟨rfl, rfl, rfl, rfl, rfl, rfl, rfl, rfl, rfl, rfl, rfl, rfl, rfl⟩
  · obtain ⟨_, _, _, _, _, -, rfl⟩ := hq
    exact ⟨rfl, rfl, rfl, rfl, rfl, rfl, rfl, rfl, rfl, rfl, rfl, rfl, rfl⟩
  · obtain ⟨-, -, _, _, _, _, _, _, _, _, _, -, rfl⟩ := hs.cases
    exact ⟨rfl, rfl, rfl, rfl, rfl, rfl, rfl, rfl, rfl, rfl, rfl, rfl, rfl⟩

/-! ## The last assessment -/

/-- What an assessment makes the last one: what it returns, if it returns. -/
def Leaves (r r' : PartitionRuntime) : Except PartitionError PartitionAssessment → Prop
  | .ok outcome => r'.assessment = outcome
  | .error _ => r'.assessment = r.assessment

theorem Quiet.assessment {r r' : PartitionRuntime} (h : Quiet r r') :
    r'.assessment = r.assessment := by
  obtain ⟨_, _, _, _, _, -, rfl⟩ := h
  rfl

theorem refuseAssessment_leaves (code : ReasonCode) (subject detail : String) (clear : Bool)
    (r : PartitionRuntime) :
    Leaves r (refuseAssessment code subject detail clear r).2
      (refuseAssessment code subject detail clear r).1 := by
  rcases hrun : refuseAssessment code subject detail clear r with ⟨res, r'⟩
  rw [refuseAssessment, Act.read_bind] at hrun
  rcases Act.bind_cases hrun with ⟨d, s, -, hs⟩ | ⟨e, he, rfl⟩
  · cases hs
    rfl
  · exact (finalizeDecision_cases he).1.assessment

/-- **The last assessment** is the last one that returned. -/
theorem assessLocked_leaves (allowRestore : Bool) (r : PartitionRuntime) :
    Leaves r (assessLocked allowRestore r).2 (assessLocked allowRestore r).1 := by
  rcases assessLocked_cases (Prod.eta (assessLocked allowRestore r)).symm with
    ⟨hrefused, -⟩ | ⟨hthrew, hsame⟩ | ⟨generation, -, -, -, ⟨hthrew, hq⟩ | ⟨outcome, hok, hs⟩⟩
  · rw [assessLocked, Act.read_bind]
    by_cases hclosed : r.closed = true
    · rw [if_pos hclosed]
      exact refuseAssessment_leaves _ _ _ _ r
    · rw [if_neg hclosed, if_pos (by simpa [hclosed] using hrefused)]
      exact refuseAssessment_leaves _ _ _ _ r
  · rw [hthrew, hsame]
    rfl
  · rw [hthrew]
    exact hq.assessment
  · rw [hok]
    obtain ⟨-, -, _, _, _, _, _, _, _, _, _, -, hr⟩ := hs.cases
    rw [hr]
    rfl

end PartitionRuntime

end FabricPartition
