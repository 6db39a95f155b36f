import FabricPartition.Confirmation

/-!
# Negative evidence never connects

A bundle without a reachable observation can take edges away and cannot add any.  The two ways it
may speak against a pair are an unreachable observation and the silence of its complete claim;
either leaves a pair that was not reachable what it was, or makes it worse (`resolutionRule_mono`).

The counters behind the silence rise with the claim, the covering count as well as the hits.  That
they cannot hide a silence is part of `resolveOrdered_eq_rule`, where the counts become a statement
about some claim that does not list the pair.
-/

set_option autoImplicit false

namespace FabricPartition

/-! ## The rule -/

section Rule

variable {fresh fresh' expired expired' : List ReachabilityEvidence} {a b : ComponentId}

/-- What speaks against a pair: an unreachable observation, or a complete claim that does not list
it. -/
def SpeaksAgainst (bundle : ReachabilityEvidence) (a b : ComponentId) : Prop :=
  ⟨a, b, .unreachable⟩ ∈ bundle.observations ∨ Covers bundle a ∧ SilentAbout bundle a b

theorem exists_speaksAgainst_iff :
    (∃ bundle ∈ fresh, SpeaksAgainst bundle a b) ↔ Observed fresh a b .unreachable ∨
      ∃ bundle ∈ fresh, Covers bundle a ∧ SilentAbout bundle a b := by
  simp only [SpeaksAgainst, and_or_left, exists_or, Observed]

open Classical in
/-- A pair that was observed reachable is reachable, unless something speaks against it. -/
theorem resolutionRule_of_observed (h : Observed fresh a b .reachable) :
    resolutionRule fresh expired a b
      = if ∃ bundle ∈ fresh, SpeaksAgainst bundle a b then .conflicting else .reachable := by
  rw [resolutionRule]
  by_cases hu : Observed fresh a b .unreachable
  · rw [if_pos ⟨h, hu⟩, if_pos (exists_speaksAgainst_iff.mpr (.inl hu))]
  · rw [if_neg fun hc => hu hc.2]
    by_cases hs : ∃ bundle ∈ fresh, Covers bundle a ∧ SilentAbout bundle a b
    · rw [if_pos ⟨h, hs⟩, if_pos (exists_speaksAgainst_iff.mpr (.inr hs))]
    · rw [if_neg fun hc => hs hc.2, if_pos h,
        if_neg fun hc => (exists_speaksAgainst_iff.mp hc).elim hu hs]

/-- A pair that was not is neither reachable nor conflicting. -/
theorem resolutionRule_of_not_observed (h : ¬ Observed fresh a b .reachable) :
    resolutionRule fresh expired a b ≠ .conflicting ∧
      resolutionRule fresh expired a b ≠ .reachable := by
  rw [resolutionRule, if_neg fun hc => h hc.1, if_neg fun hc => h hc.1, if_neg h]
  split
  · exact ⟨by decide, by decide⟩
  · split <;> exact ⟨by decide, by decide⟩

theorem resolutionRule_conflicting_iff :
    resolutionRule fresh expired a b = .conflicting ↔
      Observed fresh a b .reachable ∧ ∃ bundle ∈ fresh, SpeaksAgainst bundle a b := by
  by_cases h : Observed fresh a b .reachable
  · rw [resolutionRule_of_observed h, and_iff_right h]
    split
    · rename_i hagainst
      exact iff_of_true rfl hagainst
    · rename_i hagainst
      exact iff_of_false (by decide) hagainst
  · exact iff_of_false (resolutionRule_of_not_observed h).1 fun hc => h hc.1

theorem resolutionRule_reachable_iff :
    resolutionRule fresh expired a b = .reachable ↔
      Observed fresh a b .reachable ∧ ¬ ∃ bundle ∈ fresh, SpeaksAgainst bundle a b := by
  by_cases h : Observed fresh a b .reachable
  · rw [resolutionRule_of_observed h, and_iff_right h]
    split
    · rename_i hagainst
      exact iff_of_false (by decide) fun hnone => hnone hagainst
    · rename_i hagainst
      exact iff_of_true rfl hagainst
  · exact iff_of_false (resolutionRule_of_not_observed h).2 fun hc => h hc.1

/-- The second bundles are the first ones and others that observe nothing reachable. -/
structure AddsNegative (fresh fresh' : List ReachabilityEvidence) : Prop where
  subset : fresh ⊆ fresh'
  negative : ∀ bundle ∈ fresh', bundle ∉ fresh → ∀ o ∈ bundle.observations, o.value ≠ .reachable

theorem AddsNegative.observed (h : AddsNegative fresh fresh') :
    Observed fresh' a b .reachable ↔ Observed fresh a b .reachable := by
  refine ⟨fun ⟨bundle, hmem, ho⟩ => ⟨bundle, ?_, ho⟩, fun ⟨bundle, hmem, ho⟩ =>
    ⟨bundle, h.subset hmem, ho⟩⟩
  by_contra hnew
  exact h.negative bundle hmem hnew _ ho rfl

/-- **Negative evidence makes no pair reachable**, and settles no conflict. -/
theorem resolutionRule_mono (h : AddsNegative fresh fresh') :
    (resolutionRule fresh' expired' a b = .reachable →
        resolutionRule fresh expired a b = .reachable) ∧
      (resolutionRule fresh expired a b = .conflicting →
        resolutionRule fresh' expired' a b = .conflicting) := by
  have hagainst : (∃ bundle ∈ fresh, SpeaksAgainst bundle a b) →
      ∃ bundle ∈ fresh', SpeaksAgainst bundle a b :=
    fun ⟨bundle, hmem, hspeaks⟩ => ⟨bundle, h.subset hmem, hspeaks⟩
  rw [resolutionRule_reachable_iff, resolutionRule_reachable_iff, resolutionRule_conflicting_iff,
    resolutionRule_conflicting_iff, h.observed]
  exact ⟨fun ⟨hr, hnone⟩ => ⟨hr, fun hsome => hnone (hagainst hsome)⟩,
    fun ⟨hr, hsome⟩ => ⟨hr, hagainst hsome⟩⟩

end Rule

/-! ## The snapshot -/

/-- One more bundle without a reachable observation is negative evidence, fresh or not. -/
theorem freshOf_addsNegative (roster : ComponentRoster) (policyAge tick : UInt64)
    (front back : List ReachabilityEvidence) {bundle : ReachabilityEvidence}
    (hnegative : ∀ o ∈ bundle.observations, o.value ≠ .reachable) :
    AddsNegative (freshOf roster policyAge tick (front ++ back))
      (freshOf roster policyAge tick (front ++ bundle :: back)) := by
  have hsub : front ++ back ⊆ front ++ bundle :: back :=
    List.append_subset.mpr ⟨List.subset_append_left _ _,
      fun b hb => List.mem_append_right _ (List.mem_cons_of_mem _ hb)⟩
  refine ⟨fun b hb => ?_, fun b hb hnew => ?_⟩
  · obtain ⟨hmem, hfresh⟩ := List.mem_filter.mp hb
    exact List.mem_filter.mpr ⟨hsub hmem, hfresh⟩
  · obtain ⟨hmem, hfresh⟩ := List.mem_filter.mp hb
    have hout : b ∉ front ++ back := fun hin => hnew (List.mem_filter.mpr ⟨hin, hfresh⟩)
    rcases List.mem_append.mp hmem with hin | hin
    · exact absurd (List.mem_append_left _ hin) hout
    · rcases List.mem_cons.mp hin with rfl | hin
      · exact hnegative
      · exact absurd (List.mem_append_right _ hin) hout

/-- What a second snapshot of a roster may differ in when only negative evidence was added. -/
structure NoMoreConnected (roster : ComponentRoster) (before after : ReachabilitySnapshot)
    (ctx ctx' : ResolutionContext) : Prop where
  edges : after.edges ⊆ before.edges
  /-- What has one label after the addition had one label before it. -/
  components : ∀ i < roster.size, ∀ j < roster.size,
    after.componentOf.getD i 0 = after.componentOf.getD j 0 →
      before.componentOf.getD i 0 = before.componentOf.getD j 0
  conflicts : ∀ s < roster.size, ∀ t < roster.size,
    ctx.resolveOrdered s t = .conflicting → ctx'.resolveOrdered s t = .conflicting

/-- **Negative evidence never connects.** -/
theorem negative_evidence_refines (roster : ComponentRoster)
    (front back : List ReachabilityEvidence) (bundle : ReachabilityEvidence)
    (policy : Option PartitionPolicy) (tick : UInt64) (limits : Limits)
    (hform : ∀ b ∈ front ++ bundle :: back, LedgerForm roster b)
    (hnegative : ∀ o ∈ bundle.observations, o.value ≠ .reachable) :
    NoMoreConnected roster (buildReachabilitySnapshot roster (front ++ back) policy tick limits)
      (buildReachabilitySnapshot roster (front ++ bundle :: back) policy tick limits)
      (evidenceContext roster (policyAge policy) tick limits (front ++ back))
      (evidenceContext roster (policyAge policy) tick limits (front ++ bundle :: back)) := by
  have hform' : ∀ b ∈ front ++ back, LedgerForm roster b := fun b hb => hform b (by
    rcases List.mem_append.mp hb with hb | hb
    · exact List.mem_append_left _ hb
    · exact List.mem_append_right _ (List.mem_cons_of_mem _ hb))
  have hadds := freshOf_addsNegative roster (policyAge policy) tick front back hnegative
  have hreachable : ∀ a b,
      evidenceRule roster (front ++ bundle :: back) policy tick a b = .reachable →
        evidenceRule roster (front ++ back) policy tick a b = .reachable :=
    fun a b => (resolutionRule_mono hadds).1
  refine ⟨?_, fun i hi j hj hsame => ?_, fun s hs t ht hconflict => ?_⟩
  · rcases hset : roster.set with _ | _
    · rw [buildReachabilitySnapshot, if_pos hset]
      exact List.nil_subset _
    rcases Nat.eq_zero_or_pos roster.size with hzero | hpos
    · rw [buildReachabilitySnapshot, if_neg (by simp [hset])]
      dsimp only
      rw [if_pos hzero]
      exact List.nil_subset _
    · rw [(buildReachabilitySnapshot_eq hset hpos.ne' _ policy tick limits).1,
        (buildReachabilitySnapshot_eq hset hpos.ne' _ policy tick limits).1]
      intro e he
      obtain ⟨hlt, hbound, h1, h2⟩ := (evidenceContext_regular hform).mem_provenEdges.mp he
      rw [resolveOrdered_eq_rule hform (hlt.trans hbound) hbound] at h1
      rw [resolveOrdered_eq_rule hform hbound (hlt.trans hbound)] at h2
      refine (evidenceContext_regular hform').mem_provenEdges.mpr ⟨hlt, hbound, ?_, ?_⟩
      · rw [resolveOrdered_eq_rule hform' (hlt.trans hbound) hbound]
        exact hreachable _ _ h1
      · rw [resolveOrdered_eq_rule hform' hbound (hlt.trans hbound)]
        exact hreachable _ _ h2
  · rcases hset : roster.set with _ | _
    · rw [buildReachabilitySnapshot, if_pos hset]
      rfl
    · have hconnected := (componentOf_eq_iff hset hform hi hj).mp hsame
      refine (componentOf_eq_iff hset hform' hi hj).mpr
        (Relation.EqvGen.mono (fun a b hlink => ?_) _ _ hconnected)
      obtain ⟨ha, hb, hne, hjoin⟩ := hlink
      rw [joinDirections_eq_reachable_iff] at hjoin
      exact ⟨ha, hb, hne, joinDirections_eq_reachable_iff.mpr
        ⟨hreachable _ _ hjoin.1, hreachable _ _ hjoin.2⟩⟩
  · rw [resolveOrdered_eq_rule hform' hs ht] at hconflict
    rw [resolveOrdered_eq_rule hform hs ht]
    exact (resolutionRule_mono hadds).2 hconflict

/-- The first component claims to see nothing. -/
def pairDenial : ReachabilityEvidence :=
  { pairEvidence with
    sequence := ⟨2⟩
    completeness := .complete
    coveredSources := [pairMember "a" isValidId_a]
    observations := [] }

/-- The claim turns the pair it is silent about into a conflict, and the edge is gone. -/
theorem pair_denied :
    NoMoreConnected pairRoster
      (buildReachabilitySnapshot pairRoster ([pairEvidence] ++ []) none 0 defaultLimits)
      (buildReachabilitySnapshot pairRoster ([pairEvidence] ++ [pairDenial]) none 0 defaultLimits)
      (evidenceContext pairRoster (policyAge none) 0 defaultLimits ([pairEvidence] ++ []))
      (evidenceContext pairRoster (policyAge none) 0 defaultLimits
        ([pairEvidence] ++ [pairDenial])) :=
  negative_evidence_refines pairRoster [pairEvidence] [] pairDenial none 0 defaultLimits
    (by
      intro b hb
      rcases List.mem_cons.mp hb with rfl | hb
      · exact pairEvidence_ledgerForm _ (List.mem_singleton_self _)
      · rw [List.mem_singleton.mp hb]
        exact ⟨by decide, by decide, by decide, by decide, by decide, by decide⟩)
    (by decide)

end FabricPartition
