import FabricPartition.Grading
import FabricPartition.Resolution

/-!
# What a revalidation restores

A revalidation assesses the fabric with interrupted authority admitted, fences an interruption for
each partition that came out with a grant, and drops the interruptions of the granted lineages.

The fences and the dropped interruptions do not go together: a partition fences the first interruption
of its lineage, and drops all of them.  Nor does dropping wait for evidence: without any, a partition
with a quorum is left with observation, and that is a grant too.  `revalidation_exact_iff` says when
neither matters.
-/

set_option autoImplicit false

namespace FabricPartition

namespace PartitionRuntime

/-! ## What is granted -/

/-- The partitions the next assessment decomposes the fabric into. -/
def decomposition (r : PartitionRuntime) : List Partition :=
  match r.state.partitionGeneration.next with
  | none => []
  | some generation => buildPartitions r.currentSnapshot generation r.lineage r.limits

/-- Does the class of a partition draw a number, when interrupted authority may be restored? -/
def redraws (r : PartitionRuntime) (p : Partition) : Bool :=
  draws r.policy (r.resolved.finalClass true r.decomposition p)

/-- The numbers the authority counter has left. -/
def numbersLeft (r : PartitionRuntime) : Nat := 2 ^ 64 - 1 - r.state.authoritySequence.value.toNat

/-- **The partitions authority is re-derived for**: those whose class draws a number, as long as there
are numbers. -/
def regranted (r : PartitionRuntime) : List Partition :=
  (r.decomposition.filter r.redraws).take r.numbersLeft

/-- The partitions that hold a grant are those whose class draws a number, as far as the counter
reaches. -/
theorem Spends.granted {policy : PartitionPolicy} {counter : Nat} {ps qs : List Partition}
    {cls : Partition → PartitionAuthorityClass}
    (h : List.Forall₂ (fun p q => p.Dresses q ∧ q.authority.authorityClass = cls p) ps qs)
    (hspends : Spends policy counter qs) (hcounter : counter < 2 ^ 64) :
    List.Forall₂ Partition.Dresses
      ((ps.filter fun p => draws policy (cls p)).take (2 ^ 64 - 1 - counter))
      (qs.filter Partition.granted) := by
  induction h generalizing counter with
  | nil => simp
  | @cons p q ps qs hpq hrest ih =>
    obtain ⟨hdress, hclass⟩ := hpq
    obtain ⟨hq, hspends⟩ := hspends
    by_cases hgranted : q.granted = true
    · -- a grant has a number, and its class draws it
      have hlt : counter < 2 ^ 64 - 1 := by
        rcases hq with ⟨-, hlt⟩ | ⟨hnone, -⟩
        · exact hlt hgranted
        · rw [Partition.granted, hnone] at hgranted
          exact absurd hgranted (by decide)
      have hdraws : draws policy (cls p) = true := by
        rcases hq with ⟨heq, -⟩ | ⟨hnone, -⟩
        · rwa [Partition.granted, heq, hclass] at hgranted
        · rw [Partition.granted, hnone] at hgranted
          exact absurd hgranted (by decide)
      rw [if_pos hgranted] at hspends
      rw [List.filter_cons_of_pos (p := fun p => draws policy (cls p)) hdraws,
        List.filter_cons_of_pos hgranted,
        show 2 ^ 64 - 1 - counter = (2 ^ 64 - 1 - (counter + 1)) + 1 by omega, List.take_succ_cons]
      exact .cons hdress (ih hspends (by omega))
    · rw [if_neg hgranted, Nat.add_zero] at hspends
      rw [List.filter_cons_of_neg hgranted]
      rcases hq with ⟨heq, -⟩ | ⟨-, hmax⟩
      · have hdraws : ¬ draws policy (cls p) = true := by
          rwa [Partition.granted, heq, hclass] at hgranted
        rw [List.filter_cons_of_neg (p := fun p => draws policy (cls p)) hdraws]
        exact ih hspends hcounter
      · have hnil := ih hspends hcounter
        rw [hmax, Nat.sub_self, List.take_zero] at hnil ⊢
        exact hnil

theorem assessLocked_opened {allowRestore : Bool} {r r' : PartitionRuntime}
    {outcome : PartitionAssessment} (hopen : r.closed = false) (hroster : r.rosterSet = true)
    (h : assessLocked allowRestore r = (.ok outcome, r')) :
    ∃ generation, r.state.partitionGeneration.next = some generation ∧
      assessGeneration allowRestore (beginAssessment generation r) = (.ok outcome, r') := by
  rw [assessLocked, Act.read_bind, if_neg (by simp [hopen]), if_neg (by simp [hroster])] at h
  rcases hnext : r.state.partitionGeneration.next with _ | generation
  · rw [hnext] at h
    cases h
  · rw [hnext] at h
    exact ⟨generation, rfl, h⟩

/-- **The partitions of an assessment** are those of the decomposition, each with the class the rules
give it, and the counter was spent on them in order. -/
theorem assessLocked_decomposed {allowRestore : Bool} {r r' : PartitionRuntime}
    {outcome : PartitionAssessment} (hopen : r.closed = false) (hroster : r.rosterSet = true)
    (h : assessLocked allowRestore r = (.ok outcome, r')) :
    List.Forall₂ (fun p q => p.Dresses q ∧
        q.authority.authorityClass = r.resolved.finalClass allowRestore r.decomposition p)
      r.decomposition outcome.partitions ∧
    Spends r.policy r.state.authoritySequence.value.toNat outcome.partitions := by
  obtain ⟨generation, hnext, h⟩ := assessLocked_opened hopen hroster h
  have hparts : r.decomposition = buildPartitions (beginAssessment generation r).snapshot
      generation r.lineage r.limits := by
    rw [decomposition, hnext]
    rfl
  by_cases hvalid : (beginAssessment generation r).snapshot.valid = true
  · obtain ⟨hall, -⟩ := assessGeneration_evaluated hvalid h
    have hgraded := (forall₂_comp ((beginAssessment generation r).evaluateAuthority_graded _ _)
      hall).imp fun p q ⟨_, hg, hr⟩ => hg.redressed hr
    rw [hparts]
    exact ⟨hgraded.imp fun p q hpq => ⟨hpq.dresses, hpq.authorityClass⟩,
      ((beginAssessment generation r).evaluateAuthority_spends _ allowRestore).redressed hall⟩
  · have hnil : outcome.partitions = [] := by
      rw [assessGeneration, Act.read_bind, if_pos (by simpa using hvalid)] at h
      rcases Act.bind_cases h with ⟨d, s, -, hs⟩ | ⟨e, -, he⟩
      · cases hs
        rfl
      · cases he
    rw [hparts, hnil, buildPartitions, if_pos (by simpa using hvalid)]
    exact ⟨.nil, trivial⟩

/-- **The grants of a restoring assessment** are those of the re-granted partitions. -/
theorem assessLocked_regranted {r r' : PartitionRuntime} {outcome : PartitionAssessment}
    (hopen : r.closed = false) (hroster : r.rosterSet = true)
    (h : assessLocked true r = (.ok outcome, r')) :
    List.Forall₂ Partition.Dresses r.regranted (outcome.partitions.filter Partition.granted) := by
  obtain ⟨hall, hspends⟩ := assessLocked_decomposed hopen hroster h
  exact hspends.granted hall r.state.authoritySequence.value.toNat_lt

/-- An assessment reports the evidence it was made from. -/
theorem assessLocked_freshBundleCount {allowRestore : Bool} {r r' : PartitionRuntime}
    {outcome : PartitionAssessment} (hopen : r.closed = false) (hroster : r.rosterSet = true)
    (h : assessLocked allowRestore r = (.ok outcome, r')) :
    outcome.reachability.valid = false ∨
      outcome.reachability.freshBundleCount = r.currentSnapshot.freshBundleCount := by
  obtain ⟨generation, -, h⟩ := assessLocked_opened hopen hroster h
  rw [assessGeneration, Act.read_bind] at h
  split at h
  · rcases Act.bind_cases h with ⟨d, s, -, hs⟩ | ⟨e, -, he⟩
    · cases hs
      exact .inl rfl
    · cases he
  · rw [Act.modify_bind] at h
    rcases Act.bind_cases h with ⟨d, s, hd, hs⟩ | ⟨e, -, he⟩
    · obtain ⟨⟨_, _, _, _, _, -, rfl⟩, -⟩ := finalizeDecision_cases hd
      rw [Act.total_bind, Act.total_apply] at hs
      generalize hcommit : commitLineages d.id _ _ = committed at hs
      obtain ⟨-, _, _, _, -, -, hlast⟩ := commitLineages_cases (Prod.eta committed ▸ hcommit)
      rw [publishAssessment, hlast] at hs
      split at hs <;> cases hs <;> exact .inr rfl
    · cases he

/-! ## What is fenced -/

/-- The interruption of a lineage that its partition fences. -/
def firstInterruption (r : PartitionRuntime) (lineage : LineageId) : Option InterruptedAuthority :=
  r.interrupted.find? fun entry => entry.lineage == lineage

theorem firstInterruption_isSome (r : PartitionRuntime) (lineage : LineageId) :
    (r.firstInterruption lineage).isSome = r.isInterrupted lineage := by
  rw [Bool.eq_iff_iff, firstInterruption, List.find?_isSome, isInterrupted, List.any_eq_true]

/-- The sequences the partitions of a revalidation fence. -/
def fencedFor (r : PartitionRuntime) (ps : List Partition) : List AuthoritySequence :=
  ps.filterMap fun p => (r.firstInterruption p.lineage).map InterruptedAuthority.authoritySequence

theorem fencedFor_cons (r : PartitionRuntime) (p : Partition) (ps : List Partition) :
    r.fencedFor (p :: ps)
      = ((r.firstInterruption p.lineage).map InterruptedAuthority.authoritySequence).toList
        ++ r.fencedFor ps := by
  rw [fencedFor, List.filterMap_cons]
  split
  · rename_i hnone
    rw [hnone]
    rfl
  · rename_i sequence hsome
    rw [hsome]
    rfl

/-- The fence table took in sequences, in order, as far as it had room. -/
def TakesFences (sequences : List AuthoritySequence) (r r' : PartitionRuntime) : Prop :=
  r'.interrupted = r.interrupted ∧ r'.limits = r.limits ∧ ∃ added, r'.fences = r.fences ++ added ∧
    added.map FenceRecord.fencedAuthoritySequence
      = sequences.take (r.limits.maxFenceRecords - r.fences.length)

theorem TakesFences.refl (r : PartitionRuntime) : TakesFences [] r r :=
  ⟨rfl, rfl, [], (List.append_nil _).symm, by simp⟩

theorem TakesFences.trans {ns ms : List AuthoritySequence} {r s t : PartitionRuntime}
    (h : TakesFences ns r s) (h' : TakesFences ms s t) : TakesFences (ns ++ ms) r t := by
  obtain ⟨hint, hlimits, added, hfences, hadded⟩ := h
  obtain ⟨hint', hlimits', added', hfences', hadded'⟩ := h'
  refine ⟨hint'.trans hint, hlimits'.trans hlimits, added ++ added', ?_, ?_⟩
  · rw [hfences', hfences, List.append_assoc]
  · have hlength := congrArg List.length hadded
    rw [List.length_map, List.length_take] at hlength
    rw [List.map_append, hadded, hadded', List.take_append, hlimits, hfences, List.length_append,
      hlength]
    congr 2
    omega

/-- Issuing a fence adds it to the table, if the table has room. -/
theorem issueFence_takesFences {p : Partition} {sequence : AuthoritySequence} {cause : ReasonCode}
    {r r' : PartitionRuntime} {fence : FenceRecord}
    (h : issueFence p sequence cause r = (.ok fence, r')) : TakesFences [sequence] r r' := by
  rw [issueFence, makeFence] at h
  obtain ⟨f, s, hf, hs⟩ := Act.bind_ok.mp h
  rw [Act.read_bind] at hf
  rcases hnext : r.state.fenceSequence.next with _ | next
  · rw [hnext] at hf
    cases hf
  · rw [hnext] at hf
    cases hf
    cases hs
    rw [storeFence]
    split
    · rename_i hfull
      have hzero : r.limits.maxFenceRecords - r.fences.length = 0 := Nat.sub_eq_zero_of_le hfull
      refine ⟨rfl, rfl, [], (List.append_nil _).symm, ?_⟩
      rw [hzero]
      rfl
    · rename_i hroom
      have hpos : 1 ≤ r.limits.maxFenceRecords - r.fences.length :=
        Nat.sub_pos_of_lt (Nat.lt_of_not_ge hroom)
      exact ⟨rfl, rfl, [_], rfl, (List.take_of_length_le hpos).symm⟩

/-- The loop of a revalidation fences the first interruption of each granted lineage. -/
theorem revalidatePartitions_takesFences {acc acc' : Revalidation} {ps : List Partition}
    {r r' : PartitionRuntime} (h : Act.forEach revalidatePartition acc ps r = (.ok acc', r')) :
    TakesFences (r.fencedFor (ps.filter Partition.granted)) r r' := by
  induction ps generalizing acc r with
  | nil =>
    cases h
    exact .refl _
  | cons p rest ih =>
    obtain ⟨mid, s, hs, hrest⟩ := Act.bind_ok.mp h
    have hlater : s.interrupted = r.interrupted →
        s.fencedFor (rest.filter Partition.granted) = r.fencedFor (rest.filter Partition.granted) := by
      intro hsame
      rw [fencedFor, fencedFor]
      simp only [firstInterruption, hsame]
    rw [revalidatePartition, Act.read_bind] at hs
    by_cases hgranted : p.granted = true
    · rw [List.filter_cons_of_pos hgranted, fencedFor_cons, firstInterruption]
      rcases hfirst : r.interrupted.find? (fun entry => entry.lineage == p.lineage) with _ | entry
      · rw [hfirst] at hs
        cases hs
        rw [hfirst]
        exact ih hrest
      · simp only [hfirst, hgranted, Bool.not_true, Bool.false_eq_true, if_false] at hs
        obtain ⟨fence, t, hfence, ht⟩ := Act.bind_ok.mp hs
        cases ht
        have hstep := issueFence_takesFences hfence
        rw [hfirst, ← hlater hstep.1]
        exact hstep.trans (ih hrest)
    · rw [List.filter_cons_of_neg hgranted]
      have hsame : s = r := by
        rcases hfirst : r.interrupted.find? (fun entry => entry.lineage == p.lineage) with _ | entry
        · rw [hfirst] at hs
          cases hs
          rfl
        · simp only [hfirst, hgranted, Bool.not_false, if_true] at hs
          cases hs
          rfl
      rw [hsame] at hrest
      exact ih hrest

/-! ## Accepted requests -/

/-- No check refuses the request. -/
def Accepts (r : PartitionRuntime) (request : RevalidationRequest) : Prop :=
  r.admissionCheck request.attempt (r.makeDecision .revalidate .invalid fabricScope) = none ∧
    (recordAttempt request.attempt .revalidate r).revalidateCheck request
      (r.makeDecision .revalidate .invalid fabricScope) = none

theorem Accepts.rosterSet {r : PartitionRuntime} {request : RevalidationRequest}
    (h : r.Accepts request) : r.rosterSet = true := by
  obtain ⟨-, hcheck⟩ := h
  rw [revalidateCheck, Option.or_eq_none_iff] at hcheck
  by_contra hset
  simp [recordAttempt, eq_false_of_ne_true hset] at hcheck

/-- An assessment touches neither the interruptions nor the fences. -/
theorem assessLocked_spares {allowRestore : Bool} {r r' : PartitionRuntime}
    {outcome : PartitionAssessment} (hopen : r.closed = false) (hroster : r.rosterSet = true)
    (h : assessLocked allowRestore r = (.ok outcome, r')) :
    r'.interrupted = r.interrupted ∧ r'.fences = r.fences ∧ r'.limits = r.limits := by
  rcases assessLocked_cases h with ⟨hrefused, -⟩ | ⟨herr, -⟩ |
    ⟨generation, -, -, -, ⟨herr, -⟩ | ⟨o, ho, hs⟩⟩
  · rw [hopen, hroster] at hrefused
    rcases hrefused with h | h <;> cases h
  · cases herr
  · cases herr
  · obtain ⟨-, -, _, _, _, _, _, _, _, _, _, -, hr'⟩ := hs.cases
    rw [hr']
    exact ⟨rfl, rfl, rfl⟩

/-- **An accepted revalidation**: the fabric is assessed with restoring allowed, the granted lineages
fence their first interruption, and what is restored is no longer interrupted. -/
theorem revalidate_accepted {request : RevalidationRequest} {r r' : PartitionRuntime}
    {outcome : RevalidationOutcome} (h : revalidate request r = (.ok outcome, r'))
    (haccepts : r.Accepts request) :
    ∃ refreshed t u, assessLocked true (recordAttempt request.attempt .revalidate r)
        = (.ok refreshed, t) ∧
      outcome.partitions = refreshed.partitions ∧
      TakesFences (t.fencedFor (refreshed.partitions.filter Partition.granted)) t u ∧
      r'.fences = u.fences ∧
      r'.interrupted = u.interrupted.filter (fun entry => !isRestored refreshed.partitions
        ((refreshed.partitions.filter t.restorable).map Partition.id) entry) ∧
      (refreshed.reachability.valid = false ∨ refreshed.reachability.freshBundleCount = 0 →
        outcome.verdict = .indeterminate) := by
  obtain ⟨hadmitted, hcheck⟩ := haccepts
  rw [revalidate, Act.read_bind] at h
  simp only [hadmitted] at h
  rw [Act.modify_bind, Act.read_bind] at h
  simp only [hcheck] at h
  rw [restoreAuthority, Act.read_bind] at h
  obtain ⟨refreshed, t, hassess, h⟩ := Act.bind_ok.mp h
  obtain ⟨acc, u, hloop, h⟩ := Act.bind_ok.mp h
  have hfences := revalidatePartitions_takesFences hloop
  obtain ⟨-, -, -, ⟨acc', hacc, hrestored⟩ | herr⟩ := revalidatePartitions_cases hloop
  · cases hacc
    rw [List.nil_append] at hrestored
    rw [Act.read_bind, Act.modify_bind, finishRevalidation] at h
    obtain ⟨d, s, hd, hs⟩ := Act.bind_ok.mp h
    cases hs
    obtain ⟨⟨_, _, _, _, _, -, rfl⟩, -⟩ := finalizeDecision_cases hd
    refine ⟨refreshed, t, u, hassess, rfl, hfences, rfl, by rw [← hrestored], fun hstale => ?_⟩
    dsimp only
    rw [revalidationVerdict, if_pos (by rcases hstale with h | h <;> simp [h])]
    rfl
  · cases herr

/-! ## Without evidence -/

/-- A partition that is left with observation at least. -/
def observable (r : PartitionRuntime) (p : Partition) : Bool :=
  (r.meetsFull p || r.meetsDegraded p) && !r.isIsolated p.lineage

/-- Evidence is seen as fresh only where a fresh bundle was counted. -/
theorem gather_anyEvidenceFresh {roster : ComponentRoster} {age tick : UInt64} {limits : Limits}
    {evidence : List ReachabilityEvidence}
    (h : (gather roster age tick limits evidence).freshBundleCount = 0) :
    (gather roster age tick limits evidence).anyEvidenceFresh = false := by
  suffices hcounted : ∀ g : Gathered, (g.anyEvidenceFresh = true → g.freshBundleCount ≠ 0) →
      (evidence.foldl (Gathered.absorb roster age tick limits) g).anyEvidenceFresh = true →
      (evidence.foldl (Gathered.absorb roster age tick limits) g).freshBundleCount ≠ 0 from
    eq_false_of_ne_true fun hfresh => hcounted _ (fun hnone => by cases hnone) hfresh h
  clear h
  induction evidence with
  | nil => exact fun g hg => hg
  | cons b rest ih =>
    intro g hg
    refine ih _ ?_
    rw [Gathered.absorb]
    split
    · exact hg
    · split
      · dsimp only
        split
        · obtain ⟨counts, conflict, heq, -⟩ := foldl_cover (coveredIndices roster b)
            { g with
              freshBundleCount := g.freshBundleCount + 1
              anyEvidenceFresh := true
              contributingEvidence := g.contributingEvidence ++ [b.id]
              reachabilityGeneration :=
                if b.generation.value > g.reachabilityGeneration.value then b.generation
                else g.reachabilityGeneration
              fresh := g.fresh ++ packObservations roster b }
          rw [heq]
          exact fun _ => Nat.succ_ne_zero _
        · exact fun _ => Nat.succ_ne_zero _
      · exact hg

theorem currentSnapshot_anyEvidenceFresh {r : PartitionRuntime}
    (h : r.currentSnapshot.freshBundleCount = 0) : r.currentSnapshot.anyEvidenceFresh = false := by
  rw [currentSnapshot, buildReachabilitySnapshot] at h ⊢
  split at h
  · rename_i hset
    rw [if_pos hset]
  · rename_i hset
    rw [if_neg hset]
    dsimp only at h ⊢
    split at h
    · rename_i hempty
      rw [if_pos hempty]
    · rename_i hempty
      rw [if_neg hempty]
      exact gather_anyEvidenceFresh h

/-- **Without fresh evidence** the partitions that can be observed are granted that. -/
theorem regranted_of_stale {r : PartitionRuntime} (h : r.currentSnapshot.freshBundleCount = 0) :
    r.regranted = (r.decomposition.filter r.observable).take r.numbersLeft := by
  have hcapped : ∀ p, r.resolved.observeCapped true p = true := by
    intro p
    rw [observeCapped, show r.resolved.snapshot = r.currentSnapshot from rfl,
      currentSnapshot_anyEvidenceFresh h]
    simp
  have hredraws : r.redraws = r.observable := by
    funext p
    have hclass : r.resolved.preliminaryClass true p
        = if r.isIsolated p.lineage || !(r.meetsFull p || r.meetsDegraded p) then .isolated
          else .observeOnly := by
      rw [preliminaryClass_eq, if_pos (hcapped p)]
      rfl
    have hfinal : r.resolved.finalClass true r.decomposition p
        = r.resolved.preliminaryClass true p := by
      refine if_neg fun hdemoted => ?_
      have hprimary := ((demoted_iff _ _ _ _).mp hdemoted).2
      rw [hclass] at hprimary
      split at hprimary <;> cases hprimary
    rw [redraws, hfinal, hclass, observable]
    cases r.isIsolated p.lineage <;> cases r.meetsFull p || r.meetsDegraded p <;> rfl
  rw [regranted, hredraws]

/-! ## What a revalidation owes -/

/-- Some partition of the lineage holds a grant. -/
def rederived (ps : List Partition) (lineage : LineageId) : Bool :=
  ps.any fun p => p.lineage == lineage && p.granted

/-- **What a revalidation owes**: without fresh evidence it decides nothing and restores nothing; with
fresh evidence it drops the interruptions of the re-derived lineages and no others, and fences the
sequence of each of them, if the fence table does not run full. -/
structure RestoresRederived (r r' : PartitionRuntime) (outcome : RevalidationOutcome) : Prop where
  stale : r.currentSnapshot.freshBundleCount = 0 →
    outcome.verdict = .indeterminate ∧ r'.interrupted = r.interrupted
  removed : r.currentSnapshot.freshBundleCount ≠ 0 →
    r'.interrupted = r.interrupted.filter fun e => !rederived outcome.partitions e.lineage
  fenced : r.currentSnapshot.freshBundleCount ≠ 0 → r'.fences.length < r.limits.maxFenceRecords →
    ∀ e ∈ r.interrupted, rederived outcome.partitions e.lineage = true →
      ∃ f ∈ r'.fences.drop r.fences.length, f.fencedAuthoritySequence = e.authoritySequence

/-- **When a revalidation can give that**, from the runtime it is called on. -/
structure Restorable (r : PartitionRuntime) : Prop where
  /-- Without fresh evidence, no interrupted lineage is left with observation. -/
  stale : r.currentSnapshot.freshBundleCount = 0 →
    ∀ p ∈ (r.decomposition.filter r.observable).take r.numbersLeft, r.isInterrupted p.lineage = false
  /-- No interruption is dropped for the identifier of another lineage's partition. -/
  own : r.currentSnapshot.freshBundleCount ≠ 0 → ∀ e ∈ r.interrupted, ∀ p ∈ r.regranted,
    r.isInterrupted p.lineage = true → p.id = e.partition → ∃ q ∈ r.regranted, q.lineage = e.lineage
  /-- Each interruption that is dropped has the sequence of a first one, which is fenced. -/
  first : r.currentSnapshot.freshBundleCount ≠ 0 →
    r.fences.length + r.regranted.countP (fun p => r.isInterrupted p.lineage)
      < r.limits.maxFenceRecords →
    ∀ e ∈ r.interrupted, (∃ p ∈ r.regranted, p.lineage = e.lineage) →
      ∃ p ∈ r.regranted, ∃ e' ∈ r.firstInterruption p.lineage,
        e'.authoritySequence = e.authoritySequence

section Outcome

variable {request : RevalidationRequest} {r r' : PartitionRuntime} {outcome : RevalidationOutcome}

/-- An accepted revalidation, from the runtime it is called on. -/
theorem revalidate_summary (h : revalidate request r = (.ok outcome, r'))
    (haccepts : r.Accepts request) :
    List.Forall₂ Partition.Dresses r.regranted (outcome.partitions.filter Partition.granted) ∧
    (∃ added, r'.fences = r.fences ++ added ∧
      added.map FenceRecord.fencedAuthoritySequence
        = (r.fencedFor (outcome.partitions.filter Partition.granted)).take
          (r.limits.maxFenceRecords - r.fences.length)) ∧
    r'.interrupted = r.interrupted.filter (fun entry => !isRestored outcome.partitions
      ((outcome.partitions.filter r.restorable).map Partition.id) entry) ∧
    (r.currentSnapshot.freshBundleCount = 0 → outcome.verdict = .indeterminate) := by
  obtain ⟨refreshed, t, u, hassess, hparts, ⟨hint, -, added, hadded, hsequences⟩, hfences, hrestored,
    hverdict⟩ := revalidate_accepted h haccepts
  -- recording the attempt leaves everything the assessment reads as it was
  have hclosed : r.closed = false := admissionCheck_none haccepts.1
  have hopen : (recordAttempt request.attempt .revalidate r).closed = false := hclosed
  have hroster : (recordAttempt request.attempt .revalidate r).rosterSet = true := haccepts.rosterSet
  obtain ⟨hsame, htable, hlimits⟩ := assessLocked_spares hopen hroster hassess
  have hfirst : t.fencedFor = r.fencedFor := by
    funext ps
    rw [fencedFor, fencedFor]
    simp only [firstInterruption, hsame]
    rfl
  have hrestorable : t.restorable = r.restorable := by
    funext p
    rw [restorable, restorable, isInterrupted, isInterrupted, hsame]
    rfl
  rw [hfirst, hlimits, htable] at hsequences
  rw [hparts]
  have hregranted : (recordAttempt request.attempt .revalidate r).regranted = r.regranted := rfl
  refine ⟨hregranted ▸ assessLocked_regranted hopen hroster hassess,
    ⟨added, by rw [hfences, hadded, htable]; rfl, hsequences⟩, ?_, fun hstale => hverdict ?_⟩
  · rw [hrestored, hint, hsame, hrestorable]
    rfl
  · exact (assessLocked_freshBundleCount hopen hroster hassess).imp id fun hcount =>
      hcount.trans hstale

/-- The grants of the outcome carry the lineages and identifiers of the re-granted partitions. -/
theorem exists_granted_iff {ps qs : List Partition} {P : LineageId → PartitionId → Prop}
    (h : List.Forall₂ Partition.Dresses ps (qs.filter Partition.granted)) :
    (∃ q ∈ qs, q.granted = true ∧ P q.lineage q.id) ↔ ∃ p ∈ ps, P p.lineage p.id := by
  generalize hgrants : qs.filter Partition.granted = grants at h
  have hmem : (∃ q ∈ qs, q.granted = true ∧ P q.lineage q.id) ↔ ∃ q ∈ grants, P q.lineage q.id := by
    simp only [← hgrants, List.mem_filter, and_assoc]
  rw [hmem]
  clear hgrants hmem
  induction h with
  | nil => simp
  | cons hpq _ ih =>
    obtain ⟨_, _, _, _, _, rfl⟩ := hpq
    simp only [List.exists_mem_cons_iff, ih]

theorem rederived_iff {ps qs : List Partition} {lineage : LineageId}
    (h : List.Forall₂ Partition.Dresses ps (qs.filter Partition.granted)) :
    rederived qs lineage = true ↔ ∃ p ∈ ps, p.lineage = lineage := by
  rw [← exists_granted_iff (P := fun l _ => l = lineage) h, rederived, List.any_eq_true]
  simp only [Bool.and_eq_true, beq_iff_eq, and_comm]

theorem isRestored_iff {ps qs : List Partition} {entry : InterruptedAuthority}
    (h : List.Forall₂ Partition.Dresses ps (qs.filter Partition.granted)) :
    isRestored qs ((qs.filter r.restorable).map Partition.id) entry = true ↔
      (∃ p ∈ ps, r.isInterrupted p.lineage = true ∧ p.id = entry.partition) ∨
        ∃ p ∈ ps, p.lineage = entry.lineage := by
  rw [← rederived_iff h, isRestored, Bool.or_eq_true, rederived,
    ← exists_granted_iff (P := fun l i => r.isInterrupted l = true ∧ i = entry.partition) h]
  refine or_congr_left ?_
  rw [List.contains_iff_mem, List.mem_map]
  simp only [List.mem_filter, restorable, Bool.and_eq_true]
  exact exists_congr fun p => by tauto

theorem fencedFor_dressed {ps qs : List Partition} (h : List.Forall₂ Partition.Dresses ps qs) :
    r.fencedFor qs = r.fencedFor ps := by
  induction h with
  | nil => rfl
  | cons hpq _ ih =>
    obtain ⟨_, _, _, _, _, rfl⟩ := hpq
    rw [fencedFor_cons, fencedFor_cons, ih]

theorem fencedFor_length (ps : List Partition) :
    (r.fencedFor ps).length = ps.countP fun p => r.isInterrupted p.lineage := by
  rw [fencedFor, List.length_filterMap_eq_countP]
  refine List.countP_congr fun p _ => ?_
  rw [Option.isSome_map, firstInterruption_isSome]

theorem mem_fencedFor {ps : List Partition} {sequence : AuthoritySequence} :
    sequence ∈ r.fencedFor ps ↔
      ∃ p ∈ ps, ∃ e ∈ r.firstInterruption p.lineage, e.authoritySequence = sequence := by
  rw [fencedFor, List.mem_filterMap]
  simp only [Option.map_eq_some_iff, Option.mem_def]

/-- The sequences the table took in, when it did not run full. -/
theorem revalidate_fenced (h : revalidate request r = (.ok outcome, r'))
    (haccepts : r.Accepts request) :
    (r'.fences.length < r.limits.maxFenceRecords ↔
      r.fences.length + r.regranted.countP (fun p => r.isInterrupted p.lineage)
        < r.limits.maxFenceRecords) ∧
    (r'.fences.length < r.limits.maxFenceRecords → ∀ sequence,
      (∃ f ∈ r'.fences.drop r.fences.length, f.fencedAuthoritySequence = sequence) ↔
        ∃ p ∈ r.regranted, ∃ e ∈ r.firstInterruption p.lineage, e.authoritySequence = sequence) := by
  obtain ⟨hgrants, ⟨added, hfences, hadded⟩, -⟩ := revalidate_summary h haccepts
  rw [fencedFor_dressed hgrants] at hadded
  have hlength := congrArg List.length hadded
  rw [List.length_map, List.length_take, fencedFor_length] at hlength
  rw [hfences, List.length_append]
  refine ⟨by omega, fun hroom sequence => ?_⟩
  have hwhole : added.map FenceRecord.fencedAuthoritySequence = r.fencedFor r.regranted := by
    rw [hadded]
    refine List.take_of_length_le ?_
    rw [fencedFor_length]
    omega
  rw [List.drop_left, ← mem_fencedFor, ← hwhole, List.mem_map]

/-- **A revalidation clears what fresh evidence re-derives, and fences it,** exactly when there is
nothing to observe without evidence and no second interruption to fence. -/
theorem revalidation_exact_iff (h : revalidate request r = (.ok outcome, r'))
    (haccepts : r.Accepts request) : RestoresRederived r r' outcome ↔ r.Restorable := by
  obtain ⟨hgrants, -, hinterrupted, hverdict⟩ := revalidate_summary h haccepts
  obtain ⟨hroom, hfenced⟩ := revalidate_fenced h haccepts
  have hrederived := fun lineage => @rederived_iff _ _ lineage hgrants
  have hrestored := fun entry => @isRestored_iff r _ _ entry hgrants
  by_cases hstale : r.currentSnapshot.freshBundleCount = 0
  · have hkept : r'.interrupted = r.interrupted ↔
        ∀ p ∈ r.regranted, r.isInterrupted p.lineage = false := by
      rw [hinterrupted, List.filter_eq_self]
      simp only [Bool.not_eq_true', ← Bool.not_eq_true, hrestored]
      refine ⟨fun hall p hp hint => ?_, fun hall e he => ?_⟩
      · rw [isInterrupted, List.any_eq_true] at hint
        obtain ⟨e, he, hlineage⟩ := hint
        exact hall e he (.inr ⟨p, hp, (beq_iff_eq.mp hlineage).symm⟩)
      · rintro (⟨p, hp, hint, -⟩ | ⟨p, hp, hlineage⟩)
        · exact hall p hp hint
        · refine hall p hp ?_
          rw [isInterrupted, List.any_eq_true]
          exact ⟨e, he, beq_iff_eq.mpr hlineage.symm⟩
    rw [regranted_of_stale hstale] at hkept
    exact ⟨fun hr => ⟨fun _ => hkept.mp (hr.stale hstale).2, fun hn => absurd hstale hn,
        fun hn => absurd hstale hn⟩,
      fun hr => ⟨fun _ => ⟨hverdict hstale, hkept.mpr (hr.stale hstale)⟩,
        fun hn => absurd hstale hn, fun hn => absurd hstale hn⟩⟩
  · have hremoved : (r'.interrupted
          = r.interrupted.filter fun e => !rederived outcome.partitions e.lineage) ↔
        ∀ e ∈ r.interrupted, ∀ p ∈ r.regranted, r.isInterrupted p.lineage = true →
          p.id = e.partition → ∃ q ∈ r.regranted, q.lineage = e.lineage := by
      rw [hinterrupted]
      refine ⟨fun heq e he p hp hint hid => ?_, fun hown => List.filter_congr fun e he => ?_⟩
      · by_contra hnot
        have hmem : e ∈ r.interrupted.filter fun e => !rederived outcome.partitions e.lineage :=
          List.mem_filter.mpr ⟨he, by simpa using fun hr => hnot ((hrederived _).mp hr)⟩
        rw [← heq, List.mem_filter] at hmem
        exact absurd ((hrestored e).mpr (.inl ⟨p, hp, hint, hid⟩)) (by simpa using hmem.2)
      · rw [Bool.not_inj_iff, Bool.eq_iff_iff, hrestored, hrederived]
        refine ⟨fun hr => hr.elim (fun hinherits => ?_) id, .inr⟩
        obtain ⟨p, hp, hint, hid⟩ := hinherits
        exact hown e he p hp hint hid
    refine ⟨fun hr => ⟨fun hz => absurd hz hstale, fun _ => hremoved.mp (hr.removed hstale), ?_⟩,
      fun hr => ⟨fun hz => absurd hz hstale, fun _ => hremoved.mpr (hr.own hstale), ?_⟩⟩
    · intro _ hspace e he hgranted
      exact (hfenced (hroom.mpr hspace) _).mp
        (hr.fenced hstale (hroom.mpr hspace) e he ((hrederived _).mpr hgranted))
    · intro _ hspace e he hgranted
      exact (hfenced hspace _).mpr
        (hr.first hstale (hroom.mp hspace) e he ((hrederived _).mp hgranted))

end Outcome

instance (r : PartitionRuntime) (request : RevalidationRequest) : Decidable (r.Accepts request) :=
  inferInstanceAs (Decidable (_ ∧ _))

/-- A request to revalidate. -/
def revalidateAt (attempt : Nat) (r : PartitionRuntime) : RevalidationRequest where
  attempt := smallAttempt attempt
  expectedEpoch := r.state.epoch

/-- A component that nothing was observed about is granted observation, and loses it to a policy. -/
def unobserved : List Call :=
  [⟨.adoptTopology (smallTopology 1 ["a"]), []⟩, ⟨.assess, []⟩, ⟨.setPolicy singlePolicy, []⟩]

/-- There is no evidence at all: the revalidation decides nothing, and nothing stays interrupted. -/
theorem stale_revalidation_restores :
    let r := smallRuntime.after unobserved
    r.Accepts (revalidateAt 1 r) ∧ r.currentSnapshot.freshBundleCount = 0 ∧
      ∃ outcome ∈ (revalidate (revalidateAt 1 r) r).1.toOption, outcome.verdict = .indeterminate ∧
        r.interrupted.length = 1 ∧ (revalidate (revalidateAt 1 r) r).2.interrupted = [] := by
  decide +kernel

/-- Two components are found apart, and a new policy interrupts their authority. -/
def interrupting : List Call := parting ++ [⟨.setPolicy singlePolicy, []⟩]

/-- Authority was interrupted twice: both interruptions go, and only the first one is fenced. -/
theorem second_interruption_unfenced :
    let r := smallRuntime.after (interrupting
      ++ [⟨.assess, []⟩, ⟨.setPolicy { singlePolicy with generation := ⟨3⟩ }, []⟩])
    let r' := (revalidate (revalidateAt 1 r) r).2
    r.interrupted.map (fun e => e.authoritySequence.value) = [1, 2, 5, 6] ∧ r'.interrupted = [] ∧
      (r'.fences.drop r.fences.length).map (fun f => f.fencedAuthoritySequence.value) = [1, 2] := by
  decide +kernel

theorem revalidation_exact_once :
    let r := smallRuntime.after interrupting
    ∃ outcome ∈ (revalidate (revalidateAt 1 r) r).1.toOption, outcome.verdict = .granted ∧
      RestoresRederived r (revalidate (revalidateAt 1 r) r).2 outcome := by
  intro r
  have hrun : r.Accepts (revalidateAt 1 r) ∧ r.currentSnapshot.freshBundleCount ≠ 0 ∧
      (∀ e ∈ r.interrupted, (∃ q ∈ r.regranted, q.lineage = e.lineage) ∧
        ∃ p ∈ r.regranted, ∃ e' ∈ r.firstInterruption p.lineage,
          e'.authoritySequence = e.authoritySequence) ∧
      ∃ outcome ∈ (revalidate (revalidateAt 1 r) r).1.toOption, outcome.verdict = .granted := by
    decide +kernel
  clear_value r
  obtain ⟨haccepts, hfresh, hfirst, outcome, hmem, hverdict⟩ := hrun
  have h : revalidate (revalidateAt 1 r) r = (.ok outcome, (revalidate (revalidateAt 1 r) r).2) :=
    Prod.ext (eq_ok_of_mem_toOption hmem) rfl
  exact ⟨outcome, hmem, hverdict, (revalidation_exact_iff h haccepts).mpr
    ⟨fun hstale => absurd hstale hfresh, fun _ e he _ _ _ _ => (hfirst e he).1,
      fun _ _ e he _ => (hfirst e he).2⟩⟩

end PartitionRuntime

end FabricPartition
