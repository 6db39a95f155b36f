import FabricPartition.Decomposition
import FabricPartition.Synthetic

/-!
# Synthetic fabrics are detected

What the tests and benchmarks compare is a theorem: on the fixture of every shape within the limits
and of every seed, the partitions of the snapshot are the groups it was made from, in order, and they
are confirmed if the evidence covers what it observed (`synthetic_groups_detected`).

The pairs the evidence resolves reachable are the edges that were drawn (`rule_eq`), so two components
are connected exactly if they are of one group (`connected_iff`); the labels, the groups of the
snapshot and the partitions follow.
-/

set_option autoImplicit false

namespace FabricPartition

/-! ## Groups of indices -/

/-- Two indices of one group. -/
def SameGroup (spans : List (UInt32 × UInt32)) (i j : Nat) : Prop :=
  ∃ s ∈ spans, i ∈ spanIndices s ∧ j ∈ spanIndices s

theorem Tiles.exists_span {high : Nat} {spans : List (UInt32 × UInt32)} (h : Tiles 0 high spans)
    {i : Nat} (hi : i < high) : ∃ s ∈ spans, i ∈ spanIndices s := by
  have hmem : i ∈ (spans.map spanIndices).flatten := by
    rw [h.flatten, List.mem_range'_1]
    omega
  obtain ⟨_, hs, hi⟩ := List.mem_flatten.mp hmem
  obtain ⟨s, hmem, rfl⟩ := List.mem_map.mp hs
  exact ⟨s, hmem, hi⟩

theorem Tiles.span_unique {low high : Nat} {spans : List (UInt32 × UInt32)} (h : Tiles low high spans)
    {s t : UInt32 × UInt32} (hs : s ∈ spans) (ht : t ∈ spans) {i : Nat} (his : i ∈ spanIndices s)
    (hit : i ∈ spanIndices t) : s = t := by
  obtain ⟨k, hk, rfl⟩ := List.getElem_of_mem hs
  obtain ⟨l, hl, rfl⟩ := List.getElem_of_mem ht
  have hordered := List.pairwise_iff_getElem.mp h.ordered
  rw [mem_spanIndices] at his hit
  rcases Nat.lt_trichotomy k l with hlt | heq | hgt
  · have := hordered k l hk hl hlt
    omega
  · subst heq
    rfl
  · have := hordered l k hl hk hgt
    omega

/-- The representatives stand in the order of the roster. -/
theorem representatives_pairwise {roster : ComponentRoster} (hset : roster.set = true)
    (hne : roster.size ≠ 0) (evidence : List ReachabilityEvidence) (policy : Option PartitionPolicy)
    (tick : UInt64) (limits : Limits) :
    (buildReachabilitySnapshot roster evidence policy tick limits).componentRepresentatives.Pairwise
      (· < ·) := by
  rw [buildReachabilitySnapshot, if_neg (by simp [hset])]
  dsimp only
  rw [if_neg hne]
  exact List.pairwise_lt_range.filter _

/-- When a snapshot is confirmed. -/
theorem confirmed_iff {roster : ComponentRoster} {evidence : List ReachabilityEvidence}
    {policy : Option PartitionPolicy} {tick : UInt64} {limits : Limits} (hset : roster.set = true)
    (hne : roster.size ≠ 0) (hform : ∀ b ∈ evidence, LedgerForm roster b) :
    (buildReachabilitySnapshot roster evidence policy tick limits).confirmed = true ↔
      ReferenceConfirmed roster (evidenceRule roster evidence policy tick) := by
  obtain ⟨hedges, hlabels, hsizes, hcounters, hconfirmed⟩ :=
    buildReachabilitySnapshot_eq hset hne evidence policy tick limits
  rw [hedges] at hlabels hcounters
  rw [hlabels] at hsizes hcounters
  rw [hsizes, counters_eq_reference (evidenceContext_regular hform) fun s hs t ht =>
    resolveOrdered_eq_rule hform hs ht] at hcounters
  rw [hconfirmed, hcounters, beq_iff_eq]
  exact referenceConfirmed_iff

/-- The groups that have members. -/
def SyntheticFabric.inhabited (fabric : SyntheticFabric) : List (List ComponentId) :=
  fabric.groups.filter fun group => !group.isEmpty

/-- What the detection makes of a fixture, when its evidence is fresh: the snapshot is confirmed if
the coverage is complete or there is nothing to separate, and the partitions are the groups. -/
structure SyntheticFabric.Detected (fabric : SyntheticFabric) (complete : Bool)
    (roster : ComponentRoster) : Prop where
  form : LedgerForm roster fabric.evidence
  confirmed : ∀ policy tick bounds, freshBundle (policyAge policy) tick fabric.evidence = true →
    ((buildReachabilitySnapshot roster [fabric.evidence] policy tick bounds).confirmed = true ↔
      complete = true ∨ fabric.inhabited.length = 1)
  partitions : ∀ policy tick bounds generation store limits,
    freshBundle (policyAge policy) tick fabric.evidence = true →
    fabric.inhabited.length ≤ limits.maxPartitions →
    (buildPartitions (buildReachabilitySnapshot roster [fabric.evidence] policy tick bounds) generation
      store limits).map Partition.members = fabric.inhabited

namespace SyntheticFabric.MadeOf

variable {fabric : SyntheticFabric} {options : SyntheticFabricOptions} {total : Nat}
  {spans : List (UInt32 × UInt32)} {edges : List (Nat × Nat)}
  (h : fabric.MadeOf options total spans edges)

include h

theorem span_le {s : UInt32 × UInt32} (hs : s ∈ spans) {i : Nat} (hi : i ∈ spanIndices s) :
    i < total := by
  have hbounds := h.tiles.bounds s hs
  have hi := mem_spanIndices.mp hi
  omega

theorem edge_lt {e : Nat × Nat} (he : e ∈ edges) : e.1 < total ∧ e.2 < total := by
  obtain ⟨s, hs, h₁, h₂, -⟩ := h.drawn.inside e he
  exact ⟨h.span_le hs h₁, h.span_le hs h₂⟩

theorem id_inj {i j : Nat} (hi : i < total) (hj : j < total) :
    syntheticComponentId i = syntheticComponentId j ↔ i = j := by
  have hsmall := h.small
  exact syntheticComponentId_inj (by omega) (by omega)

/-- What was observed of two indices: that they reach each other, if an edge was drawn. -/
theorem observed_iff {i j : Nat} (hi : i < total) (hj : j < total) {v : Reachability} :
    ⟨syntheticComponentId i, syntheticComponentId j, v⟩ ∈ fabric.evidence.observations ↔
      v = .reachable ∧ ((i, j) ∈ edges ∨ (j, i) ∈ edges) := by
  rw [h.observed, observeEdges, List.mem_flatMap, h.components]
  constructor
  · rintro ⟨e, he, ho⟩
    obtain ⟨h₁, h₂⟩ := h.edge_lt he
    simp only [observeEdge, getD_syntheticComponents h₁, getD_syntheticComponents h₂,
      List.mem_cons, LinkObservation.mk.injEq, List.not_mem_nil, or_false, h.id_inj hi h₁,
      h.id_inj hj h₂, h.id_inj hi h₂, h.id_inj hj h₁] at ho
    rcases ho with ⟨rfl, rfl, rfl⟩ | ⟨rfl, rfl, rfl⟩
    · exact ⟨rfl, .inl he⟩
    · exact ⟨rfl, .inr he⟩
  · rintro ⟨rfl, he | he⟩
    · refine ⟨_, he, ?_⟩
      simp only [observeEdge, getD_syntheticComponents hi, getD_syntheticComponents hj,
        List.mem_cons, true_or]
    · refine ⟨_, he, ?_⟩
      simp only [observeEdge, getD_syntheticComponents hi, getD_syntheticComponents hj,
        List.mem_cons, true_or, or_true]

variable {roster : ComponentRoster} (hroster : roster.components = fabric.components)

include hroster

theorem roster_size : roster.size = total := by
  rw [ComponentRoster.size, hroster, h.components, List.length_map, List.length_range]

theorem roster_at {i : Nat} (hi : i < total) : roster.at i = syntheticComponentId i := by
  rw [ComponentRoster.at, hroster, h.components, getD_syntheticComponents hi]

theorem mem_roster {c : ComponentId} :
    c ∈ roster.components ↔ ∃ i < total, syntheticComponentId i = c := by
  simp [hroster, h.components]

/-- The evidence has the form of what the ledger retains. -/
theorem ledgerForm : LedgerForm roster fabric.evidence := by
  have hplace : ∀ o ∈ fabric.evidence.observations, ∃ i < total, ∃ j < total, i ≠ j ∧
      o = ⟨syntheticComponentId i, syntheticComponentId j, .reachable⟩ := by
    intro o ho
    rw [h.observed, observeEdges, List.mem_flatMap, h.components] at ho
    obtain ⟨e, he, ho⟩ := ho
    obtain ⟨h₁, h₂⟩ := h.edge_lt he
    obtain ⟨-, -, -, -, hne⟩ := h.drawn.inside e he
    simp only [observeEdge, getD_syntheticComponents h₁, getD_syntheticComponents h₂,
      List.mem_cons, List.not_mem_nil, or_false] at ho
    rcases ho with rfl | rfl
    · exact ⟨_, h₁, _, h₂, hne, rfl⟩
    · exact ⟨_, h₂, _, h₁, hne.symm, rfl⟩
  have hcovered : fabric.evidence.coveredSources.Sublist roster.components := by
    rw [h.covered, hroster]
    split
    · exact List.Sublist.refl _
    · exact List.nil_sublist _
  refine ⟨fun o ho => ?_, fun o ho => ?_, h.once, roster.nodup.sublist hcovered, fun o ho => ?_,
    fun c hc => hcovered.subset hc⟩
  · obtain ⟨i, hi, j, hj, hne, rfl⟩ := hplace o ho
    exact fun heq => hne ((h.id_inj hi hj).mp heq)
  · obtain ⟨i, hi, j, hj, hne, rfl⟩ := hplace o ho
    exact .inl rfl
  · obtain ⟨i, hi, j, hj, hne, rfl⟩ := hplace o ho
    exact ⟨(h.mem_roster hroster).mpr ⟨i, hi, rfl⟩, (h.mem_roster hroster).mpr ⟨j, hj, rfl⟩⟩

variable {policy : Option PartitionPolicy} {tick : UInt64}
  (hdated : fabric.evidence.topologyGeneration = roster.generation)
  (hfresh : freshBundle (policyAge policy) tick fabric.evidence = true)

include hdated hfresh

/-- **How a pair resolves**: reachable if an edge was drawn, and otherwise as the coverage says. -/
theorem rule_eq {i j : Nat} (hi : i < total) (hj : j < total)
    [Decidable ((i, j) ∈ edges ∨ (j, i) ∈ edges)] :
    evidenceRule roster [fabric.evidence] policy tick (syntheticComponentId i)
        (syntheticComponentId j)
      = if (i, j) ∈ edges ∨ (j, i) ∈ edges then .reachable
        else if options.completeCoverage then .unreachable else .unknown := by
  have hfreshOf : freshOf roster (policyAge policy) tick [fabric.evidence] = [fabric.evidence] := by
    simp [freshOf, hdated, hfresh]
  have hexpiredOf : expiredOf roster (policyAge policy) tick [fabric.evidence] = [] := by
    simp [expiredOf, hfresh]
  have hobserved : ∀ v, Observed [fabric.evidence] (syntheticComponentId i) (syntheticComponentId j) v
      ↔ v = .reachable ∧ ((i, j) ∈ edges ∨ (j, i) ∈ edges) := by
    intro v
    simp only [Observed, List.mem_singleton, exists_eq_left, h.observed_iff hi hj]
  have hcovers : Covers fabric.evidence (syntheticComponentId i) ↔
      options.completeCoverage = true := by
    rw [Covers, h.complete, h.covered]
    refine ⟨And.left, fun hcomplete => ⟨hcomplete, ?_⟩⟩
    rw [if_pos hcomplete, ← hroster]
    exact (h.mem_roster hroster).mpr ⟨i, hi, rfl⟩
  have hsilent : SilentAbout fabric.evidence (syntheticComponentId i) (syntheticComponentId j) ↔
      ¬ ((i, j) ∈ edges ∨ (j, i) ∈ edges) := by
    simp only [SilentAbout, h.observed_iff hi hj, not_and]
    exact ⟨fun hall => hall .reachable rfl, fun hnot _ _ => hnot⟩
  rw [evidenceRule, hfreshOf, hexpiredOf, resolutionRule]
  simp only [hobserved, List.mem_singleton, exists_eq_left, forall_eq, hcovers, hsilent]
  by_cases hedge : (i, j) ∈ edges ∨ (j, i) ∈ edges
  · simp [hedge]
  · cases hcomplete : options.completeCoverage <;> simp [hedge, Observed]

theorem link_iff {i j : Nat} (hi : i < total) (hj : j < total) :
    Link roster (evidenceRule roster [fabric.evidence] policy tick) (syntheticComponentId i)
        (syntheticComponentId j) ↔ (i, j) ∈ edges ∨ (j, i) ∈ edges := by
  classical
  rw [Link, joinDirections_eq_reachable_iff, h.rule_eq hroster hdated hfresh hi hj,
    h.rule_eq hroster hdated hfresh hj hi]
  constructor
  · rintro ⟨-, -, -, hij, -⟩
    by_contra hedge
    rw [if_neg hedge] at hij
    split at hij <;> cases hij
  · intro hedge
    refine ⟨(h.mem_roster hroster).mpr ⟨i, hi, rfl⟩, (h.mem_roster hroster).mpr ⟨j, hj, rfl⟩,
      ?_, if_pos hedge, if_pos hedge.symm⟩
    rw [Ne, h.id_inj hi hj]
    rcases hedge with he | he
    · obtain ⟨-, -, -, -, hne⟩ := h.drawn.inside _ he
      exact hne
    · obtain ⟨-, -, -, -, hne⟩ := h.drawn.inside _ he
      exact hne.symm

/-- Every index of a group is connected to its first. -/
theorem connected_first {s : UInt32 × UInt32} (hs : s ∈ spans) :
    ∀ i ∈ spanIndices s, Connected roster (evidenceRule roster [fabric.evidence] policy tick)
      (syntheticComponentId i) (syntheticComponentId s.1.toNat) := by
  intro i
  induction i using Nat.strong_induction_on with
  | _ i ih =>
    intro hi
    rcases h.drawn.joined s hs i hi with rfl | ⟨j, hji, hj, he⟩
    · exact .refl _
    · have hlink := (h.link_iff hroster hdated hfresh (h.span_le hs hi) (h.span_le hs hj)).mpr (.inl he)
      exact .trans _ _ _ (.rel _ _ hlink) (ih j hji hj)

/-- **The groups are the connected components.** -/
theorem connected_iff {i j : Nat} (hi : i < total) (hj : j < total) :
    Connected roster (evidenceRule roster [fabric.evidence] policy tick) (syntheticComponentId i)
        (syntheticComponentId j) ↔ SameGroup spans i j := by
  constructor
  · intro hconnected
    suffices hpath : ∀ a b,
        Connected roster (evidenceRule roster [fabric.evidence] policy tick) a b →
        a = b ∨ ∃ i < total, ∃ j < total,
          syntheticComponentId i = a ∧ syntheticComponentId j = b ∧ SameGroup spans i j by
      rcases hpath _ _ hconnected with heq | ⟨i', hi', j', hj', h₁, h₂, hsame⟩
      · obtain ⟨s, hs, his⟩ := h.tiles.exists_span hi
        exact ⟨s, hs, his, (h.id_inj hi hj).mp heq ▸ his⟩
      · rwa [(h.id_inj hi' hi).mp h₁, (h.id_inj hj' hj).mp h₂] at hsame
    intro a b hab
    induction hab with
    | rel a b hlink =>
      obtain ⟨i, hi, rfl⟩ := (h.mem_roster hroster).mp hlink.1
      obtain ⟨j, hj, rfl⟩ := (h.mem_roster hroster).mp hlink.2.1
      refine .inr ⟨i, hi, j, hj, rfl, rfl, ?_⟩
      rcases (h.link_iff hroster hdated hfresh hi hj).mp hlink with he | he
      · obtain ⟨s, hs, h₁, h₂, -⟩ := h.drawn.inside _ he
        exact ⟨s, hs, h₁, h₂⟩
      · obtain ⟨s, hs, h₁, h₂, -⟩ := h.drawn.inside _ he
        exact ⟨s, hs, h₂, h₁⟩
    | refl a => exact .inl rfl
    | symm a b _ ih =>
      refine ih.imp Eq.symm ?_
      rintro ⟨i, hi, j, hj, h₁, h₂, s, hs, his, hjs⟩
      exact ⟨j, hj, i, hi, h₂, h₁, s, hs, hjs, his⟩
    | trans a b c _ _ ih₁ ih₂ =>
      rcases ih₁ with rfl | ⟨i, hi, j, hj, rfl, rfl, s, hs, his, hjs⟩
      · exact ih₂
      · rcases ih₂ with rfl | ⟨j', hj', k, hk, hjj', rfl, t, ht, hjt, hkt⟩
        · exact .inr ⟨i, hi, j, hj, rfl, rfl, s, hs, his, hjs⟩
        · rw [(h.id_inj hj' hj).mp hjj'] at hjt
          rw [h.tiles.span_unique ht hs hjt hjs] at hkt
          exact .inr ⟨i, hi, k, hk, rfl, rfl, s, hs, his, hkt⟩
  · rintro ⟨s, hs, his, hjs⟩
    exact .trans _ _ _ (h.connected_first hroster hdated hfresh hs i his)
      (.symm _ _ (h.connected_first hroster hdated hfresh hs j hjs))

/-! ### The tables of the snapshot -/

variable {bounds : Limits} (hset : roster.set = true)

include hset

/-- The label of an index is the first index of its group. -/
theorem label_eq {s : UInt32 × UInt32} (hs : s ∈ spans) {i : Nat} (hi : i ∈ spanIndices s) :
    (buildReachabilitySnapshot roster [fabric.evidence] policy tick bounds).componentOf.getD i 0
      = s.1.toNat := by
  have hform : ∀ b ∈ [fabric.evidence], LedgerForm roster b := by
    simpa using h.ledgerForm hroster
  have hsize := h.roster_size hroster
  have hcanonical := snapshot_canonical hset (by rw [hsize]; exact h.positive.ne') [fabric.evidence]
    policy tick bounds
  have hsame : ∀ i < total, ∀ j < total,
      ((buildReachabilitySnapshot roster [fabric.evidence] policy tick bounds).componentOf.getD i 0
        = (buildReachabilitySnapshot roster [fabric.evidence] policy tick bounds).componentOf.getD j 0
        ↔ SameGroup spans i j) := by
    intro i hi j hj
    refine (componentOf_eq_iff hset hform (hi.trans_eq hsize.symm) (hj.trans_eq hsize.symm)).trans ?_
    rw [h.roster_at hroster hi, h.roster_at hroster hj, h.connected_iff hroster hdated hfresh hi hj]
  generalize (buildReachabilitySnapshot roster [fabric.evidence] policy tick bounds).componentOf
    = labels at hcanonical hsame
  rw [hsize] at hcanonical
  have hfirst : s.1.toNat ∈ spanIndices s := by
    rw [mem_spanIndices] at hi ⊢
    omega
  have hlt := h.span_le hs hfirst
  -- the label of the first index is in its group, and not behind it
  have hlabel : labels.getD s.1.toNat 0 = s.1.toNat := by
    have hself := hcanonical.label_label _ hlt
    obtain ⟨t, ht, hlabel, hat⟩ := (hsame _ (hcanonical.label_lt _ hlt) _ hlt).mp hself
    rw [h.tiles.span_unique ht hs hat hfirst] at hlabel
    exact Nat.le_antisymm (hcanonical.label_le _ hlt) (mem_spanIndices.mp hlabel).1
  rw [← hlabel]
  exact (hsame i (h.span_le hs hi) _ hlt).mpr ⟨s, hs, hi, hfirst⟩

omit hroster hdated hfresh hset in
theorem inhabited_eq :
    fabric.inhabited
      = (spans.filter fun s => !(spanIndices s).isEmpty).map
          fun s => (spanIndices s).map syntheticComponentId := by
  rw [inhabited, h.groups, List.filter_map]
  refine congrArg _ (List.filter_congr fun s _ => ?_)
  simp

/-- **The groups of the snapshot** are those with members. -/
theorem snapshot_groups :
    (buildReachabilitySnapshot roster [fabric.evidence] policy tick bounds).groups
      = (spans.filter fun s => !(spanIndices s).isEmpty).map spanIndices := by
  have hsize := h.roster_size hroster
  have hne : roster.size ≠ 0 := by rw [hsize]; exact h.positive.ne'
  have hlabel := @label_eq fabric options total spans edges h roster hroster policy tick hdated hfresh
    bounds hset
  have hrepresentatives := mem_representatives hset hne [fabric.evidence] policy tick bounds
  have hordered := representatives_pairwise hset hne [fabric.evidence] policy tick bounds
  have hlength :
      (buildReachabilitySnapshot roster [fabric.evidence] policy tick bounds).components.length
        = total := by
    rw [(snapshot_components hset hne [fabric.evidence] policy tick bounds).2.1]
    exact hsize
  rw [(buildReachabilitySnapshot_labelled roster [fabric.evidence] policy tick bounds).groups_eq]
  dsimp only at hrepresentatives
  generalize buildReachabilitySnapshot roster [fabric.evidence] policy tick bounds = snapshot
    at hlabel hrepresentatives hordered hlength ⊢
  rw [hsize] at hrepresentatives
  have hfirst : ∀ {s : UInt32 × UInt32} {i : Nat}, i ∈ spanIndices s →
      s.1.toNat ∈ spanIndices s := by
    intro s i hi
    rw [mem_spanIndices] at hi ⊢
    omega
  have hstarts : snapshot.componentRepresentatives
      = (spans.filter fun s => !(spanIndices s).isEmpty).map fun s => s.1.toNat := by
    refine hordered.eq_of_mem_iff ?_ fun label => ?_
    · rw [List.pairwise_map]
      refine (h.tiles.ordered.filter _).imp_of_mem fun {s t} hs ht hst => ?_
      obtain ⟨i, hi⟩ := List.exists_mem_of_ne_nil (spanIndices s)
        (by simpa using (List.mem_filter.mp hs).2)
      have := mem_spanIndices.mp hi
      omega
    · rw [hrepresentatives, List.mem_map]
      constructor
      · rintro ⟨hlt, hself⟩
        obtain ⟨s, hs, hi⟩ := h.tiles.exists_span hlt
        refine ⟨s, List.mem_filter.mpr ⟨hs, ?_⟩, (hlabel hs hi).symm.trans hself⟩
        simpa using List.ne_nil_of_mem hi
      · rintro ⟨s, hs, rfl⟩
        obtain ⟨hs, hinhabited⟩ := List.mem_filter.mp hs
        obtain ⟨i, hi⟩ := List.exists_mem_of_ne_nil (spanIndices s) (by simpa using hinhabited)
        exact ⟨h.span_le hs (hfirst hi), hlabel hs (hfirst hi)⟩
  rw [hstarts, List.map_map]
  refine List.map_congr_left fun s hs => ?_
  obtain ⟨hs, hinhabited⟩ := List.mem_filter.mp hs
  obtain ⟨k, hk⟩ := List.exists_mem_of_ne_nil (spanIndices s) (by simpa using hinhabited)
  refine List.Pairwise.eq_of_mem_iff (r := (· < ·)) (List.pairwise_lt_range.filter _)
    (List.pairwise_lt_range' _ (by decide)) fun i => ?_
  rw [Function.comp_apply, ReachabilitySnapshot.mem_classOf, hlength]
  constructor
  · rintro ⟨hi, heq⟩
    obtain ⟨t, ht, hit⟩ := h.tiles.exists_span hi
    have hfirsts : t.1.toNat = s.1.toNat := (hlabel ht hit).symm.trans heq
    rwa [h.tiles.span_unique hs ht (hfirst hk) (hfirsts ▸ hfirst hit)]
  · intro hi
    exact ⟨h.span_le hs hi, hlabel hs hi⟩

/-- The snapshot is confirmed if the evidence is complete, or there is nothing to separate. -/
theorem snapshot_confirmed :
    (buildReachabilitySnapshot roster [fabric.evidence] policy tick bounds).confirmed = true ↔
      options.completeCoverage = true ∨ fabric.inhabited.length = 1 := by
  classical
  have hsize := h.roster_size hroster
  have hform : ∀ b ∈ [fabric.evidence], LedgerForm roster b := by
    simpa using h.ledgerForm hroster
  rw [confirmed_iff hset (by rw [hsize]; exact h.positive.ne') hform, h.inhabited_eq, List.length_map]
  -- what is not connected is joined by no edge, and resolves as the coverage says
  have hapart : ReferenceConfirmed roster (evidenceRule roster [fabric.evidence] policy tick) ↔
      ∀ i < total, ∀ j < total, ¬ SameGroup spans i j → options.completeCoverage = true := by
    constructor
    · intro hconfirmed i hi j hj happart
      have hne : syntheticComponentId i ≠ syntheticComponentId j := by
        rw [Ne, h.id_inj hi hj]
        rintro rfl
        obtain ⟨s, hs, his⟩ := h.tiles.exists_span hi
        exact happart ⟨s, hs, his, his⟩
      have hrule := hconfirmed _ ((h.mem_roster hroster).mpr ⟨i, hi, rfl⟩) _
        ((h.mem_roster hroster).mpr ⟨j, hj, rfl⟩) hne
        (by rwa [h.connected_iff hroster hdated hfresh hi hj])
      rw [h.rule_eq hroster hdated hfresh hi hj] at hrule
      split at hrule
      · cases hrule
      · split at hrule
        · assumption
        · cases hrule
    · intro hcomplete a ha b hb hne happart
      obtain ⟨i, hi, rfl⟩ := (h.mem_roster hroster).mp ha
      obtain ⟨j, hj, rfl⟩ := (h.mem_roster hroster).mp hb
      rw [h.connected_iff hroster hdated hfresh hi hj] at happart
      rw [h.rule_eq hroster hdated hfresh hi hj, if_neg, if_pos (hcomplete i hi j hj happart)]
      rintro (he | he)
      · obtain ⟨s, hs, h₁, h₂, -⟩ := h.drawn.inside _ he
        exact happart ⟨s, hs, h₁, h₂⟩
      · obtain ⟨s, hs, h₁, h₂, -⟩ := h.drawn.inside _ he
        exact happart ⟨s, hs, h₂, h₁⟩
  rw [hapart]
  have hmem : ∀ {s : UInt32 × UInt32} {i : Nat}, s ∈ spans → i ∈ spanIndices s →
      s ∈ spans.filter fun s => !(spanIndices s).isEmpty := by
    intro s i hs hi
    refine List.mem_filter.mpr ⟨hs, ?_⟩
    simpa using List.ne_nil_of_mem hi
  constructor
  · intro hall
    by_cases hcomplete : options.completeCoverage = true
    · exact .inl hcomplete
    · -- everything is one group
      right
      obtain ⟨s, hs, hzero⟩ := h.tiles.exists_span h.positive
      have hnodup : (spans.filter fun s => !(spanIndices s).isEmpty).Nodup := by
        refine List.Pairwise.imp_of_mem (fun {t u} ht _ htu => ?_) (h.tiles.ordered.filter _)
        obtain ⟨i, hi⟩ := List.exists_mem_of_ne_nil (spanIndices t)
          (by simpa using (List.mem_filter.mp ht).2)
        rintro rfl
        have := mem_spanIndices.mp hi
        omega
      have hsubset : (spans.filter fun s => !(spanIndices s).isEmpty) ⊆ [s] := by
        intro t ht
        obtain ⟨ht, hinhabited⟩ := List.mem_filter.mp ht
        obtain ⟨i, hi⟩ := List.exists_mem_of_ne_nil (spanIndices t) (by simpa using hinhabited)
        obtain ⟨u, hu, hzero', hi'⟩ := not_not.mp fun happart =>
          hcomplete (hall 0 h.positive i (h.span_le ht hi) happart)
        rw [h.tiles.span_unique ht hu hi hi', h.tiles.span_unique hu hs hzero' hzero]
        exact List.mem_singleton_self s
      exact Nat.le_antisymm (hnodup.subperm hsubset).length_le (List.length_pos_of_mem (hmem hs hzero))
  · rintro (hcomplete | hone) i hi j hj happart
    · exact hcomplete
    · obtain ⟨s, hs, his⟩ := h.tiles.exists_span hi
      obtain ⟨t, ht, hjt⟩ := h.tiles.exists_span hj
      obtain ⟨u, hu⟩ := List.length_eq_one_iff.mp hone
      have hsu := hmem hs his
      have htu := hmem ht hjt
      rw [hu, List.mem_singleton] at hsu htu
      exact absurd ⟨s, hs, his, by rwa [hsu, ← htu]⟩ happart

/-- **The partitions** are the groups with members, in order. -/
theorem partitions_groups {limits : Limits} (generation : PartitionGeneration) (store : LineageStore)
    (hfits : fabric.inhabited.length ≤ limits.maxPartitions) :
    (buildPartitions (buildReachabilitySnapshot roster [fabric.evidence] policy tick bounds) generation
        store limits).map Partition.members = fabric.inhabited := by
  have hsize := h.roster_size hroster
  have hne : roster.size ≠ 0 := by rw [hsize]; exact h.positive.ne'
  have hgroups := @snapshot_groups fabric options total spans edges h roster hroster policy tick hdated
    hfresh bounds hset
  have hlabelled := buildReachabilitySnapshot_labelled roster [fabric.evidence] policy tick bounds
  obtain ⟨hvalid, hcomponents, -⟩ :=
    snapshot_components hset hne [fabric.evidence] policy tick bounds
  generalize buildReachabilitySnapshot roster [fabric.evidence] policy tick bounds = snapshot
    at hgroups hlabelled hvalid hcomponents ⊢
  rw [h.inhabited_eq] at hfits ⊢
  rw [List.length_map] at hfits
  have hcount : snapshot.componentRepresentatives.length
      = (spans.filter fun s => !(spanIndices s).isEmpty).length := by
    have hlength := congrArg List.length hgroups
    rwa [hlabelled.groups_eq, List.length_map, List.length_map] at hlength
  have hmembers : ∀ s ∈ spans,
      (buildPartition snapshot generation store limits (spanIndices s)).members
        = (spanIndices s).map syntheticComponentId := by
    intro s hs
    refine List.map_congr_left fun i hi => ?_
    rw [hcomponents, hroster, h.components, getD_syntheticComponents (h.span_le hs hi)]
  rw [buildPartitions, if_neg (by simp [hvalid]), if_neg (by rw [hcomponents]; exact hne),
    if_neg (by rw [hcount]; exact Nat.not_lt.mpr hfits),
    hgroups, List.map_map]
  rw [List.Pairwise.insertionSort_eq]
  · rw [List.map_map]
    refine List.map_congr_left fun s hs => ?_
    exact hmembers s (List.mem_filter.mp hs).1
  · -- an earlier group begins with a smaller component
    rw [List.pairwise_map]
    refine (h.tiles.ordered.filter _).imp_of_mem fun {s t} hs ht hst => ?_
    obtain ⟨hs, hinhabited⟩ := List.mem_filter.mp hs
    obtain ⟨ht, hinhabited'⟩ := List.mem_filter.mp ht
    rw [partitionCanonicalLess_eq_false_iff, Function.comp_apply, Function.comp_apply, hmembers s hs,
      hmembers t ht]
    obtain ⟨i, is, hi⟩ := List.exists_cons_of_ne_nil (l := spanIndices s) (by simpa using hinhabited)
    obtain ⟨j, js, hj⟩ := List.exists_cons_of_ne_nil (l := spanIndices t)
      (by simpa using hinhabited')
    have hi' : i ∈ spanIndices s := by simp [hi]
    have hj' : j ∈ spanIndices t := by simp [hj]
    have hlt : i < j := by
      have := mem_spanIndices.mp hi'
      have := mem_spanIndices.mp hj'
      omega
    rw [hi, hj, List.map_cons, List.map_cons]
    refine le_of_lt (List.cons_lt_cons_iff.mpr (.inl (syntheticComponentId_lt hlt ?_)))
    have := h.span_le ht hj'
    have := h.small
    omega

omit hroster hdated hfresh hset in
theorem groups_sizes : fabric.groups.map List.length = options.groupSizes.map UInt32.toNat := by
  rw [← h.sized, h.groups, List.map_map]
  exact List.map_congr_left fun s _ => List.length_map _

omit hroster hdated hfresh hset in
/-- The roster of the fixture, and what is detected on it. -/
theorem detected {limits : Limits} (hbound : total ≤ limits.maxComponents) :
    ∃ roster, ComponentRoster.create fabric.topology limits = some roster ∧
      fabric.Detected options.completeCoverage roster := by
  have hsorted := syntheticComponents_sorted total (by have := h.small; omega)
  obtain ⟨roster, hcreate, hlisted, hgeneration, hset⟩ :=
    ComponentRoster.create_of_sorted fabric.topology limits h.named
      (by rw [h.listed, h.components]; simpa using hbound)
      (by rw [h.listed, h.components]; exact hsorted)
      (by
        intro c hc
        rw [h.listed, h.components] at hc
        obtain ⟨i, -, rfl⟩ := List.mem_map.mp hc
        rfl)
  have hroster := hlisted.trans h.listed
  have hdated := h.dated.trans hgeneration.symm
  exact ⟨roster, hcreate, h.ledgerForm hroster, fun policy tick bounds hfresh =>
    h.snapshot_confirmed hroster hdated hfresh hset, fun policy tick bounds generation store limits
      hfresh => h.partitions_groups hroster hdated hfresh hset generation store⟩

end SyntheticFabric.MadeOf

/-- **The groups of a fixture are what is detected**, whatever is drawn: of the sizes that were asked
for, and confirmed when the coverage is complete. -/
theorem synthetic_groups_detected {options : SyntheticFabricOptions} {limits : Limits}
    {boot : PublisherBootId} {fabric : SyntheticFabric} (hlimits : limits.maxComponents + 1 < 2 ^ 32)
    (h : buildSyntheticFabric options limits boot = some fabric) :
    fabric.groups.map List.length = options.groupSizes.map UInt32.toNat ∧
      ∃ roster, ComponentRoster.create fabric.topology limits = some roster ∧
        fabric.Detected options.completeCoverage roster := by
  obtain ⟨total, spans, edges, hmade, hbound⟩ := buildSyntheticFabric_madeOf hlimits h
  exact ⟨hmade.groups_sizes, hmade.detected hbound⟩

/-- Three components and two, of whichever edges. -/
theorem three_and_two_detected :
    ∃ fabric, buildSyntheticFabric { groupSizes := [3, 0, 2], extraIntraEdges := 1 } defaultLimits
        default = some fabric ∧ fabric.groups.map List.length = [3, 0, 2] ∧
      ∃ roster, ComponentRoster.create fabric.topology defaultLimits = some roster ∧
        fabric.Detected true roster := by
  obtain ⟨fabric, hfabric⟩ := Option.isSome_iff_exists.mp (show (buildSyntheticFabric
    { groupSizes := [3, 0, 2], extraIntraEdges := 1 } defaultLimits default).isSome = true by
      decide +kernel)
  exact ⟨fabric, hfabric, synthetic_groups_detected (by decide) hfabric⟩

/-- **A sparse chain** is one partition of its length, and one for each isolated component. -/
theorem sparse_chain_detected {options : SyntheticFabricOptions} {chainLength isolatedCount : Nat}
    {limits : Limits} {boot : PublisherBootId} {fabric : SyntheticFabric}
    (hlimits : limits.maxComponents + 1 < 2 ^ 32)
    (h : buildSyntheticSparseChain options chainLength isolatedCount limits boot = some fabric) :
    fabric.groups.map List.length
        = (if chainLength ≠ 0 then [chainLength] else []) ++ List.replicate isolatedCount 1 ∧
      ∃ roster, ComponentRoster.create fabric.topology limits = some roster ∧
        fabric.Detected options.completeCoverage roster := by
  rw [buildSyntheticSparseChain] at h
  split at h
  · rename_i chain _ hchain _
    obtain ⟨total, spans, edges, hmade, hbound⟩ := buildSyntheticFabric_madeOf hlimits h
    refine ⟨?_, hmade.detected hbound⟩
    rw [hmade.groups_sizes, List.map_append, List.map_replicate]
    have hnarrow : chain.toNat = chainLength := by
      rw [checkedNarrowU32] at hchain
      split at hchain
      · cases hchain
      · cases hchain
        exact UInt32.toNat_ofNat_of_lt' (by
          have : UInt32.size = 2 ^ 32 := rfl
          omega)
    split <;> simp [hnarrow]
  · cases h

end FabricPartition
