import FabricPartition.OrderIndependence
import FabricPartition.Assessment

/-!
# Expired evidence has no influence

Two snapshots of one roster at one tick: of all bundles, and of the fresh bundles of the roster's own
generation only.  The bundle loop reads a bundle that has expired, or is dated in the future, for the
stale keys alone, and a foreign one not at all (`gather_fresh`).  The stale keys are consulted by
`resolve_ordered` last, when nothing else is known of a pair: they tell stale from unknown
(`resolveOrdered_eq_iff`).  So everything that asks whether a pair is reachable, unreachable or
conflicting — edges, labels, the crossing proof, the contradictions — is the same in both, and the
tallies of stale and unknown pairs trade places.

`expired_evidence_inert` puts this together, down to the partitions and to the whole evaluation of
their authority.
-/

set_option autoImplicit false

namespace FabricPartition

/-! ## The bundle loop -/

/-- The accumulators of two bundle loops, but for what bundles leave that are not fresh. -/
structure Gathered.Matches (g g' : Gathered) : Prop where
  freshBundleCount : g.freshBundleCount = g'.freshBundleCount
  anyEvidenceFresh : g.anyEvidenceFresh = g'.anyEvidenceFresh
  contributingEvidence : g.contributingEvidence = g'.contributingEvidence
  reachabilityGeneration : g.reachabilityGeneration = g'.reachabilityGeneration
  fresh : g.fresh = g'.fresh
  covering : g.covering = g'.covering
  coverCount : g.coverCount = g'.coverCount
  coverageConflict : g.coverageConflict = g'.coverageConflict

namespace Gathered.Matches

variable {g g' : Gathered}

theorem refl (g : Gathered) : g.Matches g := ⟨rfl, rfl, rfl, rfl, rfl, rfl, rfl, rfl⟩

theorem cover (h : g.Matches g') (index : Nat) : (g.cover index).Matches (g'.cover index) := by
  obtain ⟨h1, h2, h3, h4, h5, h6, h7, h8⟩ := h
  refine ⟨h1, h2, h3, h4, h5, h6, ?_, ?_⟩
  · rw [Gathered.cover, Gathered.cover, h7]
  · rw [Gathered.cover, Gathered.cover, h7, h8]

theorem foldl_cover (h : g.Matches g') (indices : List Nat) :
    (indices.foldl Gathered.cover g).Matches (indices.foldl Gathered.cover g') := by
  induction indices generalizing g g' with
  | nil => exact h
  | cons index rest ih => exact ih (h.cover index)

/-- What a fresh bundle adds, before its complete claim is taken in. -/
def credit (roster : ComponentRoster) (b : ReachabilityEvidence) (g : Gathered) : Gathered :=
  { g with
    freshBundleCount := g.freshBundleCount + 1
    anyEvidenceFresh := true
    contributingEvidence := g.contributingEvidence ++ [b.id]
    reachabilityGeneration :=
      if b.generation.value > g.reachabilityGeneration.value then b.generation
      else g.reachabilityGeneration
    fresh := g.fresh ++ packObservations roster b }

theorem credit_matches (h : g.Matches g') (roster : ComponentRoster) (b : ReachabilityEvidence) :
    (credit roster b g).Matches (credit roster b g') := by
  obtain ⟨h1, h2, h3, h4, h5, h6, h7, h8⟩ := h
  refine ⟨?_, rfl, ?_, ?_, ?_, h6, h7, h8⟩
  · rw [credit, credit, h1]
  · rw [credit, credit, h3]
  · rw [credit, credit, h4]
  · rw [credit, credit, h5]

/-- A fresh bundle of the roster's generation is absorbed alike. -/
theorem absorb {roster : ComponentRoster} {age tick : UInt64} {limits : Limits}
    {b : ReachabilityEvidence} (hgeneration : b.topologyGeneration = roster.generation)
    (hfresh : freshBundle age tick b = true) (h : g.Matches g') :
    (g.absorb roster age tick limits b).Matches (g'.absorb roster age tick limits b) := by
  have habsorb : ∀ g : Gathered, g.absorb roster age tick limits b
      = if b.completeness = .complete then
          let acc := (coveredIndices roster b).foldl Gathered.cover (credit roster b g)
          { acc with covering := acc.covering ++
            (packObservations roster b).filter fun o => (coveredIndices roster b).contains o.source }
        else credit roster b g := by
    intro g
    rw [Gathered.absorb, if_neg (not_not.mpr hgeneration), if_pos hfresh]
    rfl
  have hcredit := h.credit_matches roster b
  rw [habsorb, habsorb]
  split
  · obtain ⟨h1, h2, h3, h4, h5, h6, h7, h8⟩ := hcredit.foldl_cover (coveredIndices roster b)
    exact ⟨h1, h2, h3, h4, h5, congrArg (· ++ _) h6, h7, h8⟩
  · exact hcredit

/-- Any other bundle leaves the accumulators as they were. -/
theorem skip {roster : ComponentRoster} {age tick : UInt64} {limits : Limits}
    {b : ReachabilityEvidence}
    (hout : ¬ (b.topologyGeneration = roster.generation ∧ freshBundle age tick b = true))
    (h : g.Matches g') : (g.absorb roster age tick limits b).Matches g' := by
  obtain ⟨h1, h2, h3, h4, h5, h6, h7, h8⟩ := h
  rw [Gathered.absorb]
  by_cases hgeneration : b.topologyGeneration = roster.generation
  · rw [if_neg (not_not.mpr hgeneration), if_neg fun hfresh => hout ⟨hgeneration, hfresh⟩]
    exact ⟨h1, h2, h3, h4, h5, h6, h7, h8⟩
  · rw [if_pos hgeneration]
    exact ⟨h1, h2, h3, h4, h5, h6, h7, h8⟩

end Gathered.Matches

/-- **The bundle loop over all bundles and over the fresh ones of the roster's generation.** -/
theorem gather_fresh (roster : ComponentRoster) (age tick : UInt64) (limits : Limits)
    (evidence : List ReachabilityEvidence) :
    (gather roster age tick limits evidence).Matches
      (gather roster age tick limits (freshOf roster age tick evidence)) := by
  suffices h : ∀ g g' : Gathered, g.Matches g' →
      (evidence.foldl (Gathered.absorb roster age tick limits) g).Matches
        ((freshOf roster age tick evidence).foldl (Gathered.absorb roster age tick limits) g') from
    h _ _ (.refl _)
  induction evidence with
  | nil => exact fun g g' h => h
  | cons b rest ih =>
    intro g g' h
    by_cases hkept : b.topologyGeneration = roster.generation ∧ freshBundle age tick b = true
    · have hfresh : freshOf roster age tick (b :: rest) = b :: freshOf roster age tick rest :=
        List.filter_cons_of_pos (by simp [hkept.1, hkept.2])
      rw [hfresh]
      exact ih _ _ (h.absorb hkept.1 hkept.2)
    · have hfresh : freshOf roster age tick (b :: rest) = freshOf roster age tick rest :=
        List.filter_cons_of_neg (by simpa using hkept)
      rw [hfresh]
      exact ih _ _ (h.skip hkept)

/-! ## The context -/

/-- Two contexts that differ in their stale keys only. -/
structure ResolutionContext.Matches (ctx ctx' : ResolutionContext) : Prop where
  ordered : ctx.ordered = ctx'.ordered
  coverCount : ctx.coverCount = ctx'.coverCount
  coverHits : ctx.coverHits = ctx'.coverHits

theorem Gathered.Matches.context {g g' : Gathered} (h : g.Matches g') (count : Nat) :
    (g.context count).Matches (g'.context count) := by
  refine ⟨?_, h.coverCount, ?_⟩
  · rw [Gathered.context, Gathered.context, h.fresh]
  · rw [Gathered.context, Gathered.context, h.covering]

namespace ResolutionContext.Matches

variable {ctx ctx' : ResolutionContext} (h : ctx.Matches ctx')

include h

theorem covering_eq (s : Nat) : ctx.covering s = ctx'.covering s := by
  rw [covering, covering, h.coverCount]

theorem silent_eq (s t : Nat) : ctx.silent s t = ctx'.silent s t := by
  rw [silent, silent, h.covering_eq, h.coverHits]

/-- **The stale keys tell stale from unknown, and nothing else.** -/
theorem resolveOrdered_eq_iff {r : PairResolution} (hstale : r ≠ .stale) (hunknown : r ≠ .unknown)
    (s t : Nat) : ctx.resolveOrdered s t = r ↔ ctx'.resolveOrdered s t = r := by
  rw [resolveOrdered, resolveOrdered, h.ordered, h.silent_eq]
  split
  · exact Iff.rfl
  split
  · exact Iff.rfl
  split
  · exact Iff.rfl
  split <;> split <;> simp [Ne.symm hstale, Ne.symm hunknown]

theorem resolveOrdered_beq {r : PairResolution} (hstale : r ≠ .stale) (hunknown : r ≠ .unknown)
    (s t : Nat) : (ctx.resolveOrdered s t == r) = (ctx'.resolveOrdered s t == r) := by
  rw [Bool.eq_iff_iff, beq_iff_eq, beq_iff_eq]
  exact h.resolveOrdered_eq_iff hstale hunknown s t

theorem observedTargets_eq (s : Nat) : ctx.observedTargets s = ctx'.observedTargets s := by
  rw [observedTargets, observedTargets, h.ordered]

theorem unobserved_eq (n s : Nat) : ctx.unobserved n s = ctx'.unobserved n s := by
  rw [unobserved, unobserved, h.observedTargets_eq]

theorem rowCount_eq {r : PairResolution} (hstale : r ≠ .stale) (hunknown : r ≠ .unknown) (s : Nat) :
    ctx.rowCount s r = ctx'.rowCount s r := by
  rw [rowCount, rowCount, h.ordered]
  exact List.countP_congr fun row _ => by rw [h.resolveOrdered_beq hstale hunknown]

theorem provenEdges_eq (n : Nat) : ctx.provenEdges n = ctx'.provenEdges n := by
  have hedges : ctx.edgesFrom = ctx'.edgesFrom := by
    funext s
    rw [edgesFrom, edgesFrom, h.ordered]
    simp only [h.resolveOrdered_beq (r := .reachable) (by decide) (by decide)]
  rw [provenEdges, provenEdges, hedges]

theorem crossUnreachable_eq (n : Nat) (labels sizes : List Nat) :
    ctx.crossUnreachable n labels sizes = ctx'.crossUnreachable n labels sizes := by
  funext s
  rw [crossUnreachable, crossUnreachable, exceptionsOutside, exceptionsOutside, h.covering_eq,
    h.ordered]
  simp only [bne, h.resolveOrdered_beq (r := .unreachable) (by decide) (by decide)]

theorem contradictoryFrom_eq : ctx.contradictoryFrom = ctx'.contradictoryFrom := by
  funext s
  rw [contradictoryFrom, contradictoryFrom, h.ordered]
  simp only [h.resolveOrdered_beq (r := .unreachable) (by decide) (by decide),
    h.resolveOrdered_beq (r := .reachable) (by decide) (by decide)]

/-- The tallies of reachable, unreachable and conflicting pairs agree. -/
theorem tallySource_eq (n s : Nat) :
    (ctx.tallySource n s).reachable = (ctx'.tallySource n s).reachable ∧
      (ctx.tallySource n s).unreachable = (ctx'.tallySource n s).unreachable ∧
      (ctx.tallySource n s).conflicting = (ctx'.tallySource n s).conflicting := by
  rw [tallySource, tallySource, h.covering_eq, h.unobserved_eq,
    h.rowCount_eq (r := .reachable) (by decide) (by decide),
    h.rowCount_eq (r := .unreachable) (by decide) (by decide),
    h.rowCount_eq (r := .conflicting) (by decide) (by decide)]
  split <;> exact ⟨rfl, rfl, rfl⟩

/-- Stale and unknown pairs trade places. -/
theorem tallySource_undetermined {n s : Nat} (hctx : ctx.Regular n) (hctx' : ctx'.Regular n)
    (hs : s < n) :
    (ctx.tallySource n s).stale + (ctx.tallySource n s).unknown
      = (ctx'.tallySource n s).stale + (ctx'.tallySource n s).unknown := by
  have hle := hctx.staleOnlyTargets_le hs
  have hle' := hctx'.staleOnlyTargets_le hs
  rw [tallySource, tallySource, h.covering_eq, h.unobserved_eq] at *
  rw [hctx.rowCount_unresolved hs (.inl rfl), hctx'.rowCount_unresolved hs (.inl rfl)]
  split
  · rfl
  · dsimp only
    omega

/-- The counters, but for stale, unknown and asymmetric pairs. -/
theorem counters_eq (n : Nat) (edges : List (Nat × Nat)) (labels sizes : List Nat) :
    ctx'.counters n edges labels sizes = { ctx.counters n edges labels sizes with
      orderedStale := (ctx'.counters n edges labels sizes).orderedStale
      orderedUnknown := (ctx'.counters n edges labels sizes).orderedUnknown
      orderedAsymmetric := (ctx'.counters n edges labels sizes).orderedAsymmetric } := by
  simp only [counters, h.crossUnreachable_eq, h.contradictoryFrom_eq, (h.tallySource_eq n _).1,
    (h.tallySource_eq n _).2.1, (h.tallySource_eq n _).2.2]

theorem counters_undetermined {n : Nat} (hctx : ctx.Regular n) (hctx' : ctx'.Regular n)
    (edges : List (Nat × Nat)) (labels sizes : List Nat) :
    (ctx.counters n edges labels sizes).orderedStale
        + (ctx.counters n edges labels sizes).orderedUnknown
      = (ctx'.counters n edges labels sizes).orderedStale
        + (ctx'.counters n edges labels sizes).orderedUnknown := by
  show sumOver n _ + sumOver n _ = sumOver n _ + sumOver n _
  simp only [sumOver_eq_sum, ← Finset.sum_add_distrib]
  exact Finset.sum_congr rfl fun s hs =>
    h.tallySource_undetermined hctx hctx' (Finset.mem_range.mp hs)

end ResolutionContext.Matches

/-! ## The snapshot -/

/-- Two snapshots of one decomposition and one standing of the evidence: everything agrees but the
log of the bundles left out, and how the undetermined pairs are divided. -/
structure ReachabilitySnapshot.Matches (s s' : ReachabilitySnapshot) : Prop where
  valid : s'.valid = s.valid
  topologyGeneration : s'.topologyGeneration = s.topologyGeneration
  reachabilityGeneration : s'.reachabilityGeneration = s.reachabilityGeneration
  evidenceDigest : s'.evidenceDigest = s.evidenceDigest
  components : s'.components = s.components
  weights : s'.weights = s.weights
  voters : s'.voters = s.voters
  edges : s'.edges = s.edges
  componentOf : s'.componentOf = s.componentOf
  componentSizes : s'.componentSizes = s.componentSizes
  componentRepresentatives : s'.componentRepresentatives = s.componentRepresentatives
  confirmed : s'.confirmed = s.confirmed
  anyEvidenceFresh : s'.anyEvidenceFresh = s.anyEvidenceFresh
  completeCoverageConflict : s'.completeCoverageConflict = s.completeCoverageConflict
  freshBundleCount : s'.freshBundleCount = s.freshBundleCount
  contributingEvidence : s'.contributingEvidence = s.contributingEvidence
  counters : s'.counters = { s.counters with
    orderedStale := s'.counters.orderedStale
    orderedUnknown := s'.counters.orderedUnknown
    orderedAsymmetric := s'.counters.orderedAsymmetric }
  undetermined : s'.counters.orderedStale + s'.counters.orderedUnknown
    = s.counters.orderedStale + s.counters.orderedUnknown

theorem ReachabilitySnapshot.Matches.buildPartitions_eq {s s' : ReachabilitySnapshot}
    (h : s.Matches s') (generation : PartitionGeneration) (store : LineageStore) (limits : Limits) :
    buildPartitions s' generation store limits = buildPartitions s generation store limits := by
  -- the partitions do not read the counters
  have hagrees : s.Agrees { s' with counters := s.counters } :=
    ⟨h.valid.symm, h.topologyGeneration.symm, h.components.symm, h.weights.symm, h.voters.symm,
      h.edges.symm, h.componentOf.symm, h.componentSizes.symm, h.componentRepresentatives.symm, rfl,
      h.confirmed.symm, h.completeCoverageConflict.symm, h.evidenceDigest.symm⟩
  exact (buildPartitions_agrees hagrees generation store limits).symm

/-- **The snapshot of the fresh bundles** is that of all bundles. -/
theorem buildReachabilitySnapshot_fresh {roster : ComponentRoster}
    {evidence : List ReachabilityEvidence} (hform : ∀ b ∈ evidence, LedgerForm roster b)
    (policy : Option PartitionPolicy) (tick : UInt64) (limits : Limits) :
    (buildReachabilitySnapshot roster evidence policy tick limits).Matches
      (buildReachabilitySnapshot roster (freshOf roster (policyAge policy) tick evidence) policy
        tick limits) := by
  have hg := gather_fresh roster (policyAge policy) tick limits evidence
  have hctx := hg.context roster.size
  have hregular : ((gather roster (policyAge policy) tick limits evidence).context
      roster.size).Regular roster.size := evidenceContext_regular hform
  have hregular' : ((gather roster (policyAge policy) tick limits
      (freshOf roster (policyAge policy) tick evidence)).context roster.size).Regular roster.size :=
    evidenceContext_regular fun b hb => hform b (List.mem_filter.mp hb).1
  rw [buildReachabilitySnapshot, buildReachabilitySnapshot]
  by_cases hset : roster.set = false
  · rw [if_pos hset, if_pos hset]
    constructor <;> rfl
  rw [if_neg hset, if_neg hset]
  dsimp only
  by_cases hsize : roster.size = 0
  · rw [if_pos hsize, if_pos hsize]
    constructor <;> rfl
  rw [if_neg hsize, if_neg hsize, ← hctx.provenEdges_eq]
  generalize (gather roster (policyAge policy) tick limits evidence).context roster.size = ctx
    at hctx hregular ⊢
  generalize (gather roster (policyAge policy) tick limits
    (freshOf roster (policyAge policy) tick evidence)).context roster.size = ctx'
    at hctx hregular' ⊢
  generalize ctx.provenEdges roster.size = edges
  generalize componentLabels roster.size edges = labels
  generalize labelSizes roster.size labels = sizes
  have hcounters := hctx.counters_eq roster.size edges labels sizes
  have hcross : (ctx'.counters roster.size edges labels sizes).crossComponentIndeterminate
      = (ctx.counters roster.size edges labels sizes).crossComponentIndeterminate := by
    rw [hcounters]
  exact
    { valid := rfl
      topologyGeneration := rfl
      reachabilityGeneration := hg.reachabilityGeneration.symm
      evidenceDigest := rfl
      components := rfl
      weights := rfl
      voters := rfl
      edges := rfl
      componentOf := rfl
      componentSizes := rfl
      componentRepresentatives := rfl
      confirmed := congrArg (· == 0) hcross
      anyEvidenceFresh := hg.anyEvidenceFresh.symm
      completeCoverageConflict := hg.coverageConflict.symm
      freshBundleCount := hg.freshBundleCount.symm
      contributingEvidence := hg.contributingEvidence.symm
      counters := hcounters
      undetermined := (hctx.counters_undetermined hregular hregular' edges labels sizes).symm }

/-! ## The authority -/

namespace PartitionRuntime

section Evaluation

variable {r : PartitionRuntime} {s s' : ReachabilitySnapshot}
  (hfresh : s'.anyEvidenceFresh = s.anyEvidenceFresh) (hconfirmed : s'.confirmed = s.confirmed)

include hfresh hconfirmed

/-- The evaluation reads two bits of the snapshot. -/
theorem evaluatePartition_congr (allowRestore : Bool) (p : Partition) (reasons : List Reason) :
    { r with snapshot := s' }.evaluatePartition allowRestore p reasons
      = { r with snapshot := s }.evaluatePartition allowRestore p reasons := by
  rw [evaluatePartition, evaluatePartition, hfresh, hconfirmed]
  rfl

theorem evaluatePartitions_congr (allowRestore : Bool) (ps : List Partition)
    (reasons : List Reason) :
    { r with snapshot := s' }.evaluatePartitions allowRestore ps reasons
      = { r with snapshot := s }.evaluatePartitions allowRestore ps reasons := by
  induction ps generalizing reasons with
  | nil => rfl
  | cons p rest ih =>
    rw [evaluatePartitions, evaluatePartitions, evaluatePartition_congr hfresh hconfirmed, ih]

end Evaluation

theorem issueAuthority_congr {r : PartitionRuntime} {s s' : ReachabilitySnapshot}
    (evaluated : List (Partition × ClassEvaluation)) (sequence : AuthoritySequence)
    (reasons : List Reason) :
    { r with snapshot := s' }.issueAuthority evaluated sequence reasons
      = { r with snapshot := s }.issueAuthority evaluated sequence reasons := by
  induction evaluated generalizing sequence reasons with
  | nil => rfl
  | cons pe rest ih =>
    obtain ⟨p, e⟩ := pe
    simp only [issueAuthority, ih]
    rfl

/-- **The evaluation of the authority** reads two bits of the snapshot. -/
theorem evaluateAuthority_congr {r : PartitionRuntime} {s s' : ReachabilitySnapshot}
    (hfresh : s'.anyEvidenceFresh = s.anyEvidenceFresh) (hconfirmed : s'.confirmed = s.confirmed)
    (ps : List Partition) (allowRestore : Bool) :
    { r with snapshot := s' }.evaluateAuthority ps allowRestore
      = { r with snapshot := s }.evaluateAuthority ps allowRestore := by
  simp only [evaluateAuthority, evaluatePartitions_congr hfresh hconfirmed,
    @issueAuthority_congr r s s']
  rfl

end PartitionRuntime

/-- **Expired evidence has no influence.**  Deleting every bundle that has expired, is dated in the
future or belongs to another topology generation leaves the snapshot as it was, but for the division
of the undetermined pairs and the count of asymmetric ones; so the partitions built from it and
the evaluation of their authority — classes, grants, sequences and reasons — are the same. -/
theorem expired_evidence_inert (roster : ComponentRoster) (evidence : List ReachabilityEvidence)
    (policy : Option PartitionPolicy) (tick : UInt64) (limits : Limits)
    (hform : ∀ b ∈ evidence, LedgerForm roster b) :
    let snapshot := buildReachabilitySnapshot roster evidence policy tick limits
    let snapshot' := buildReachabilitySnapshot roster
      (freshOf roster (policyAge policy) tick evidence) policy tick limits
    snapshot.Matches snapshot' ∧
      (∀ generation store bounds, buildPartitions snapshot' generation store bounds
        = buildPartitions snapshot generation store bounds) ∧
      ∀ (r : PartitionRuntime) (ps : List Partition) (allowRestore : Bool),
        { r with snapshot := snapshot' }.evaluateAuthority ps allowRestore
          = { r with snapshot := snapshot }.evaluateAuthority ps allowRestore := by
  intro snapshot snapshot'
  have h : snapshot.Matches snapshot' := buildReachabilitySnapshot_fresh hform policy tick limits
  exact ⟨h, h.buildPartitions_eq, fun r =>
    PartitionRuntime.evaluateAuthority_congr h.anyEvidenceFresh h.confirmed⟩

/-- A later bundle about one direction only. -/
def laterEvidence : ReachabilityEvidence :=
  { pairEvidence with
    sequence := ⟨2⟩
    observedAtTick := 15
    observations := [⟨pairMember "a" isValidId_a, pairMember "b" isValidId_b, .reachable⟩] }

/-- At tick 20 the first bundle of the pair has expired: what it said of the other direction counts
as stale, and without it as unknown. -/
theorem expired_evidence_inert_pair :
    let snapshot := buildReachabilitySnapshot pairRoster [pairEvidence, laterEvidence] none 20
      defaultLimits
    let snapshot' := buildReachabilitySnapshot pairRoster [laterEvidence] none 20 defaultLimits
    snapshot.Matches snapshot' ∧ snapshot.counters.orderedStale = 1 ∧
      snapshot'.counters.orderedUnknown = 1 := by
  have hform : ∀ b ∈ [pairEvidence, laterEvidence], LedgerForm pairRoster b := by
    intro b hb
    rcases List.mem_cons.mp hb with rfl | hb
    · exact pairEvidence_ledgerForm _ List.mem_cons_self
    · rw [List.mem_singleton.mp hb]
      exact ⟨by decide, by decide, by decide, by decide, by decide, by decide⟩
  have hfresh : freshOf pairRoster (policyAge none) 20 [pairEvidence, laterEvidence]
      = [laterEvidence] := rfl
  have h := (expired_evidence_inert pairRoster [pairEvidence, laterEvidence] none 20 defaultLimits
    hform).1
  rw [hfresh] at h
  exact ⟨h, by decide +kernel, by decide +kernel⟩

end FabricPartition
