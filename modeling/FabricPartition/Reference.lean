import FabricPartition.Components
import FabricPartition.Decomposition
import FabricPartition.Lib.Flood

/-!
# The slow reference

`reference_ordered` and `reference_resolve` of `reference_model.hpp`, the second implementation of the
documented resolution rules: it visits every ordered pair, counts with one loop over all of them, and
labels the components with a traversal of its own.  The test suite runs the two on random instances;
`snapshot_agrees_with_reference` compares them on every roster and on all evidence in ledger form.

* `referenceOrdered_eq_rule` — one ordered pair, by the documented rule;
* `countPairs_eq` — a loop over the ordered pairs counts pairs of components;
* `traversal_labels`, `traversal_groups` — the canonicalised traversal and the forest of
  `Lib.DisjointSet` give one labelling and the same groups in the same order.
-/

set_option autoImplicit false

namespace FabricPartition

open Finset Relation

/-! ## One ordered pair -/

/-- The observations of a bundle about an ordered pair. -/
def ReachabilityEvidence.about (bundle : ReachabilityEvidence) (source target : ComponentId) :
    List LinkObservation :=
  bundle.observations.filter fun o => decide (o.source = source) && decide (o.target = target)

/-- `covers_source`. -/
def ReachabilityEvidence.coversSource (bundle : ReachabilityEvidence) (source : ComponentId) : Bool :=
  decide (bundle.completeness = .complete) && bundle.coveredSources.contains source

/-- The accumulators of the bundle loop of `reference_ordered`. -/
structure PairTally where
  explicitReachable : Bool := false
  explicitUnreachable : Bool := false
  covering : Nat := 0
  coveringHits : Nat := 0

/-- One round of the bundle loop. -/
def PairTally.weigh (source target : ComponentId) (acc : PairTally) (bundle : ReachabilityEvidence) :
    PairTally :=
  let listed := bundle.about source target
  { explicitReachable := acc.explicitReachable || listed.any fun o => o.value == .reachable
    explicitUnreachable := acc.explicitUnreachable || listed.any fun o => o.value == .unreachable
    covering := acc.covering + (bundle.coversSource source).toNat
    coveringHits := acc.coveringHits + (bundle.coversSource source && !listed.isEmpty).toNat }

/-- `reference_ordered`. -/
def referenceOrdered (roster : ComponentRoster) (fresh : List ReachabilityEvidence)
    (stalePairs : List (ComponentId × ComponentId)) (source target : ComponentId) : PairResolution :=
  if (roster.indexOf source).isNone then .unknown
  else
    let tally := fresh.foldl (PairTally.weigh source target) {}
    let impliedUnreachable := tally.covering != 0 && decide (tally.coveringHits < tally.covering)
    if tally.explicitReachable && (tally.explicitUnreachable || impliedUnreachable) then .conflicting
    else if tally.explicitReachable then .reachable
    else if tally.explicitUnreachable || impliedUnreachable then .unreachable
    else if stalePairs.contains (source, target) then .stale
    else .unknown

/-! ## The whole fabric -/

/-- A square table of resolutions. -/
abbrev ResolutionTable := List (List PairResolution)

namespace ResolutionTable

/-- `table[lhs][rhs]`. -/
def cell (table : ResolutionTable) (lhs rhs : Nat) : PairResolution :=
  (table.getD lhs []).getD rhs .unknown

/-- The table of a function; the diagonal stays unknown. -/
def fill (count : Nat) (f : Nat → Nat → PairResolution) : ResolutionTable :=
  (List.range count).map fun lhs => (List.range count).map fun rhs =>
    if lhs = rhs then .unknown else f lhs rhs

end ResolutionTable

/-- A loop over the ordered pairs of indices that counts those with a property. -/
def countPairs (count : Nat) (p : Nat → Nat → Bool) : Nat :=
  ResolutionContext.sumOver count fun lhs =>
    (List.range count).countP fun rhs => lhs != rhs && p lhs rhs

/-- `label[index]` after the traversal. -/
def labelAt (labels : Flood.Labels) (index : Nat) : Nat := (labels.getD index none).getD 0

/-- The loop that gives each label its smallest index. -/
def smallestMembers (slot : Nat → Nat) : List Nat → List (Option Nat) → List (Option Nat)
  | [], table => table
  | index :: rest, table =>
    if table.getD (slot index) none = none then
      smallestMembers slot rest (table.set (slot index) (some index))
    else smallestMembers slot rest table

/-- The loop that collects the indices of each label. -/
def grouped (slot : Nat → Nat) : List Nat → List (List Nat) → List (List Nat)
  | [], table => table
  | index :: rest, table =>
    grouped slot rest (table.set (slot index) (table.getD (slot index) [] ++ [index]))

/-- What `reference_resolve` answers. -/
structure ReferenceOutcome where
  valid : Bool
  ordered : ResolutionTable
  undirected : ResolutionTable
  counters : PairCounters
  componentMembers : List (List Nat)
  componentOf : List Nat
  edges : List (Nat × Nat)
  confirmed : Bool

/-- The freshness test of `reference_resolve`. -/
def referenceFresh (policy : PartitionPolicy) (nowTick : UInt64) (bundle : ReachabilityEvidence) :
    Bool :=
  let future := decide (bundle.observedAtTick > nowTick)
  let elapsed := if future then 0 else nowTick - bundle.observedAtTick
  let horizon :=
    if policy.maxEvidenceAgeTicks ≠ 0
        ∧ (bundle.validityTicks = 0 ∨ policy.maxEvidenceAgeTicks < bundle.validityTicks) then
      policy.maxEvidenceAgeTicks
    else bundle.validityTicks
  !future && decide (elapsed ≤ horizon)

/-- The first loop of `reference_resolve`: the fresh bundles, and the pairs of the others. -/
def referenceGather (roster : ComponentRoster) (policy : PartitionPolicy) (nowTick : UInt64) :
    List ReachabilityEvidence → List ReachabilityEvidence × List (ComponentId × ComponentId) →
    List ReachabilityEvidence × List (ComponentId × ComponentId)
  | [], gathered => gathered
  | bundle :: rest, (fresh, stalePairs) =>
    if bundle.topologyGeneration ≠ roster.generation then
      referenceGather roster policy nowTick rest (fresh, stalePairs)
    else if referenceFresh policy nowTick bundle then
      referenceGather roster policy nowTick rest (fresh ++ [bundle], stalePairs)
    else
      referenceGather roster policy nowTick rest
        (fresh, stalePairs ++ bundle.observations.map fun o => (o.source, o.target))

/-- The traversal of `reference_resolve`: the label of every index, and how many were given. -/
def traversal (undirected : ResolutionTable) (count : Nat) : Flood.Labels × Nat :=
  Flood.floodAll (fun current other => undirected.cell current other == .reachable) count
    (List.range count) (List.replicate count none, 0)

/-- The counting loops of `reference_resolve`, over its tables and the canonicalised components. -/
def referenceTally (count : Nat) (ordered : ResolutionTable) (componentOf : List Nat)
    (componentMembers : List (List Nat)) (edges : List (Nat × Nat)) : PairCounters :=
  let resolved := fun r => countPairs count fun lhs rhs => ordered.cell lhs rhs == r
  let pairs := count * (count - 1)
  let within := (componentMembers.map fun members => members.length * (members.length - 1)).sum
  let crossing := countPairs count fun lhs rhs =>
    componentOf.getD lhs 0 != componentOf.getD rhs 0 && ordered.cell lhs rhs == .unreachable
  { orderedPairs := pairs
    orderedReachable := resolved .reachable
    orderedUnreachable := resolved .unreachable
    orderedConflicting := resolved .conflicting
    orderedStale := resolved .stale
    orderedUnknown := countPairs count fun lhs rhs =>
      !(ordered.cell lhs rhs == .reachable || ordered.cell lhs rhs == .unreachable
        || ordered.cell lhs rhs == .conflicting || ordered.cell lhs rhs == .stale)
    orderedAsymmetric := countPairs count fun lhs rhs =>
      (ordered.cell lhs rhs == .reachable || ordered.cell lhs rhs == .unreachable)
        && ordered.cell rhs lhs == .unknown
    orderedContradictory := countPairs count fun lhs rhs =>
      ordered.cell lhs rhs == .reachable && ordered.cell rhs lhs == .unreachable
    undirectedReachable := edges.length
    crossComponentOrdered := pairs - within
    crossComponentUnreachable := crossing
    crossComponentIndeterminate := pairs - within - crossing }

/-- `reference_resolve`. -/
def referenceResolve (roster : ComponentRoster) (evidence : List ReachabilityEvidence)
    (nowTick : UInt64) (policy : PartitionPolicy) : ReferenceOutcome :=
  let count := roster.size
  let (fresh, stalePairs) := referenceGather roster policy nowTick evidence ([], [])
  let ordered := ResolutionTable.fill count fun lhs rhs =>
    referenceOrdered roster fresh stalePairs (roster.at lhs) (roster.at rhs)
  -- each unordered pair is joined once, from its smaller index, and written both ways
  let undirected := ResolutionTable.fill count fun lhs rhs =>
    joinDirections (ordered.cell (min lhs rhs) (max lhs rhs))
      (ordered.cell (max lhs rhs) (min lhs rhs))
  let (labels, slots) := traversal undirected count
  let representative :=
    smallestMembers (labelAt labels) (List.range count) (List.replicate slots none)
  let componentOf := (List.range count).map fun index =>
    (representative.getD (labelAt labels index) none).getD 0
  let componentMembers :=
    (grouped (labelAt labels) (List.range count) (List.replicate slots [])).filter
      fun members => !members.isEmpty
  let edges := (List.range count).flatMap fun lhs =>
    ((List.range count).filter fun rhs =>
      decide (lhs < rhs) && undirected.cell lhs rhs == .reachable).map fun rhs => (lhs, rhs)
  let counters := referenceTally count ordered componentOf componentMembers edges
  { valid := true
    ordered := ordered
    undirected := undirected
    counters := counters
    componentMembers := componentMembers
    componentOf := componentOf
    edges := edges
    confirmed := counters.crossComponentIndeterminate == 0 && count != 0 }

/-! ## The rule of one pair -/

section OnePair

variable {source target : ComponentId} {fresh expired : List ReachabilityEvidence}

theorem mem_about {bundle : ReachabilityEvidence} {o : LinkObservation} :
    o ∈ bundle.about source target ↔
      o ∈ bundle.observations ∧ o.source = source ∧ o.target = target := by
  simp [ReachabilityEvidence.about]

/-- Listing a pair with a value is observing it. -/
theorem any_about_iff {bundle : ReachabilityEvidence} {v : Reachability} :
    ((bundle.about source target).any fun o => o.value == v) = true ↔
      ⟨source, target, v⟩ ∈ bundle.observations := by
  rw [List.any_eq_true]
  constructor
  · rintro ⟨⟨a, b, w⟩, ho, hv⟩
    obtain ⟨hmem, rfl, rfl⟩ := mem_about.mp ho
    obtain rfl : w = v := by simpa using hv
    exact hmem
  · intro hmem
    exact ⟨_, mem_about.mpr ⟨hmem, rfl, rfl⟩, by simp⟩

theorem about_isEmpty_iff {bundle : ReachabilityEvidence} :
    (bundle.about source target).isEmpty = true ↔ SilentAbout bundle source target := by
  rw [List.isEmpty_iff, List.eq_nil_iff_forall_not_mem]
  constructor
  · intro h v hv
    exact h _ (mem_about.mpr ⟨hv, rfl, rfl⟩)
  · rintro h ⟨a, b, v⟩ ho
    obtain ⟨hmem, rfl, rfl⟩ := mem_about.mp ho
    exact h v hmem

theorem coversSource_iff {bundle : ReachabilityEvidence} :
    bundle.coversSource source = true ↔ Covers bundle source := by
  simp [ReachabilityEvidence.coversSource, Covers]

/-- What the bundle loop has counted. -/
theorem foldl_weigh (acc : PairTally) :
    fresh.foldl (PairTally.weigh source target) acc
      = { explicitReachable := acc.explicitReachable ||
            fresh.any fun b => (b.about source target).any fun o => o.value == .reachable
          explicitUnreachable := acc.explicitUnreachable ||
            fresh.any fun b => (b.about source target).any fun o => o.value == .unreachable
          covering := acc.covering + fresh.countP fun b => b.coversSource source
          coveringHits := acc.coveringHits + fresh.countP fun b =>
            b.coversSource source && !(b.about source target).isEmpty } := by
  induction fresh generalizing acc with
  | nil => simp
  | cons b rest ih =>
    rw [List.foldl_cons, ih]
    simp only [PairTally.weigh, List.any_cons, List.countP_cons, Bool.or_assoc, Nat.add_assoc,
      Nat.add_comm, Bool.toNat, cond_eq_ite]

/-- The hits fall short of the coverage exactly when some covering bundle is silent. -/
theorem countP_hits_lt_iff :
    (fresh.countP fun b => b.coversSource source && !(b.about source target).isEmpty)
        < (fresh.countP fun b => b.coversSource source) ↔
      ∃ bundle ∈ fresh, Covers bundle source ∧ SilentAbout bundle source target := by
  have hsplit : ∀ l : List ReachabilityEvidence,
      (l.countP fun b => b.coversSource source)
        = (l.countP fun b => b.coversSource source && !(b.about source target).isEmpty)
          + l.countP fun b => b.coversSource source && (b.about source target).isEmpty := by
    intro l
    induction l with
    | nil => rfl
    | cons b rest ih =>
      simp only [List.countP_cons, ih]
      cases b.coversSource source <;> cases (b.about source target).isEmpty <;> simp <;> omega
  rw [hsplit, Nat.lt_add_right_iff_pos, List.countP_pos_iff]
  simp only [Bool.and_eq_true, coversSource_iff, about_isEmpty_iff]

/-- **One ordered pair.**  The reference resolves it by the documented rule. -/
theorem referenceOrdered_eq_rule {roster : ComponentRoster}
    {stalePairs : List (ComponentId × ComponentId)}
    (hform : ∀ b ∈ fresh, LedgerForm roster b) (hsource : source ∈ roster.components)
    (hstale : (source, target) ∈ stalePairs ↔ ∃ v, Observed expired source target v) :
    referenceOrdered roster fresh stalePairs source target
      = resolutionRule fresh expired source target := by
  classical
  have hindex : (roster.indexOf source).isNone = false := by
    obtain ⟨i, hi, rfl⟩ := ComponentRoster.exists_at hsource
    rw [(ComponentRoster.indexOf_iff_at hi _).mpr rfl]
    rfl
  have hobserved : ∀ v, (fresh.any fun b => (b.about source target).any fun o => o.value == v) = true ↔
      Observed fresh source target v := by
    intro v
    rw [List.any_eq_true]
    exact exists_congr fun b => and_congr_right fun _ => any_about_iff
  have himplied : ((fresh.countP fun b => b.coversSource source) != 0
      && decide ((fresh.countP fun b => b.coversSource source && !(b.about source target).isEmpty)
        < fresh.countP fun b => b.coversSource source)) = true ↔
      ∃ b ∈ fresh, Covers b source ∧ SilentAbout b source target := by
    rw [Bool.and_eq_true, decide_eq_true_eq, countP_hits_lt_iff, bne_iff_ne, and_iff_right_iff_imp]
    rintro ⟨b, hb, hc, -⟩
    exact (List.countP_pos_iff.mpr ⟨b, hb, coversSource_iff.mpr hc⟩).ne'
  -- a pair observed with neither value is listed nowhere
  have hsilent : ¬ Observed fresh source target .reachable →
      ¬ Observed fresh source target .unreachable →
      ∀ b ∈ fresh, SilentAbout b source target := by
    intro hr hu b hb v hv
    rcases (hform b hb).explicitValue _ hv with h | h
    · exact hr ⟨b, hb, h ▸ hv⟩
    · exact hu ⟨b, hb, h ▸ hv⟩
  rw [referenceOrdered, hindex, if_neg (by simp)]
  simp only [foldl_weigh, Bool.false_or, Nat.zero_add]
  generalize (_ != 0 && _ : Bool) = implied at himplied ⊢
  simp only [resolutionRule, Bool.and_eq_true, Bool.or_eq_true, hobserved, himplied,
    List.contains_iff_mem, hstale]
  by_cases hr : Observed fresh source target .reachable
  · by_cases hu : Observed fresh source target .unreachable
    · simp only [hr, hu, true_and, true_or, if_true]
    · simp only [hr, hu, true_and, false_or, if_false, if_true]
  · simp only [hr, false_and, if_false]
    by_cases hu : Observed fresh source target .unreachable
    · simp only [hu, true_or, if_true]
    · have hall := hsilent hr hu
      have hiff : (∃ b ∈ fresh, Covers b source ∧ SilentAbout b source target) ↔
          ((∃ b ∈ fresh, Covers b source)
            ∧ ∀ b ∈ fresh, Covers b source → SilentAbout b source target) := by
        constructor
        · rintro ⟨b, hb, hc, -⟩
          exact ⟨⟨b, hb, hc⟩, fun b' hb' _ => hall b' hb'⟩
        · rintro ⟨⟨b, hb, hc⟩, -⟩
          exact ⟨b, hb, hc, hall b hb⟩
      simp only [hu, false_or, hiff]

end OnePair

theorem referenceFresh_eq (policy : PartitionPolicy) (nowTick : UInt64)
    (bundle : ReachabilityEvidence) :
    referenceFresh policy nowTick bundle = freshBundle (policyAge (some policy)) nowTick bundle := rfl

/-- The first loop separates the bundles of the roster's generation. -/
theorem referenceGather_eq {roster : ComponentRoster} (policy : PartitionPolicy) (nowTick : UInt64)
    (evidence fresh : List ReachabilityEvidence) (stalePairs : List (ComponentId × ComponentId)) :
    referenceGather roster policy nowTick evidence (fresh, stalePairs)
      = (fresh ++ freshOf roster (policyAge (some policy)) nowTick evidence,
          stalePairs ++ (expiredOf roster (policyAge (some policy)) nowTick evidence).flatMap
            fun b => b.observations.map fun o => (o.source, o.target)) := by
  induction evidence generalizing fresh stalePairs with
  | nil => simp [referenceGather, freshOf, expiredOf]
  | cons b rest ih =>
    rw [referenceGather, referenceFresh_eq]
    split
    · rename_i hforeign
      rw [ih]
      simp [freshOf, expiredOf, hforeign]
    · rename_i hsame
      have hsame : b.topologyGeneration = roster.generation := not_not.mp hsame
      split
      · rename_i hfresh
        rw [ih]
        simp [freshOf, expiredOf, hsame, hfresh]
      · rename_i hfresh
        have hfresh : freshBundle (policyAge (some policy)) nowTick b = false :=
          Bool.eq_false_iff.mpr hfresh
        rw [ih]
        simp [freshOf, expiredOf, hsame, hfresh]

theorem mem_stalePairs_iff {expired : List ReachabilityEvidence} {source target : ComponentId} :
    (source, target) ∈ (expired.flatMap fun b => b.observations.map fun o => (o.source, o.target)) ↔
      ∃ v, Observed expired source target v := by
  simp only [List.mem_flatMap, List.mem_map, Prod.mk.injEq, Observed]
  constructor
  · rintro ⟨b, hb, ⟨a, c, v⟩, ho, rfl, rfl⟩
    exact ⟨v, b, hb, ho⟩
  · rintro ⟨v, b, hb, ho⟩
    exact ⟨b, hb, _, ho, rfl, rfl⟩

/-! ## Tables and counts -/

theorem ResolutionTable.cell_fill {count : Nat} {f : Nat → Nat → PairResolution} {lhs rhs : Nat} :
    (ResolutionTable.fill count f).cell lhs rhs
      = if lhs < count ∧ rhs < count ∧ lhs ≠ rhs then f lhs rhs else .unknown := by
  rw [ResolutionTable.fill, ResolutionTable.cell]
  by_cases hlhs : lhs < count
  · by_cases hrhs : rhs < count
    · by_cases hne : lhs = rhs
      · simp [List.getD_eq_getElem?_getD, hrhs, hne]
      · simp [List.getD_eq_getElem?_getD, hlhs, hrhs, hne]
    · simp [List.getD_eq_getElem?_getD, hlhs, hrhs]
  · simp [List.getD_eq_getElem?_getD, hlhs]

/-- **Counting index pairs counts pairs of components.** -/
theorem countPairs_eq {roster : ComponentRoster} {p : ComponentId → ComponentId → Prop}
    {q : Nat → Nat → Bool}
    (hpq : ∀ s < roster.size, ∀ t < roster.size, s ≠ t →
      (p (roster.at s) (roster.at t) ↔ q s t = true)) :
    countPairs roster.size q = roster.pairCount p := by
  rw [countPairs, sumOver_eq_sum, ComponentRoster.pairCount_eq p (fun s t => q s t = true) hpq]
  refine sum_congr rfl fun s _ => ?_
  rw [countP_eq_card List.nodup_range]
  refine congrArg Finset.card (Finset.ext fun t => ?_)
  simp only [mem_filter, List.mem_toFinset, List.mem_range, mem_others, Bool.and_eq_true, bne_iff_ne]
  tauto

/-! ## The loops over the labels -/

section Slots

variable {slot : Nat → Nat}

/-- The table of smallest indices holds the first index of each label that the loop met. -/
theorem getD_smallestMembers {indices : List Nat} {table : List (Option Nat)} {l : Nat}
    (hslot : ∀ i ∈ indices, slot i < table.length) :
    (smallestMembers slot indices table).getD l none
      = (table.getD l none).or (indices.find? fun i => decide (slot i = l)) := by
  induction indices generalizing table with
  | nil => simp [smallestMembers]
  | cons i rest ih =>
    have hi : slot i < table.length := hslot i List.mem_cons_self
    have hrest : ∀ j ∈ rest, slot j < table.length := fun j hj => hslot j (List.mem_cons_of_mem _ hj)
    rw [smallestMembers]
    split
    · rename_i hnone
      rw [ih (by simpa using hrest), List.find?_cons]
      by_cases hl : slot i = l
      · subst hl
        rw [hnone]
        simp [List.getD_eq_getElem?_getD, hi]
      · simp [List.getD_eq_getElem?_getD, hl]
    · rename_i hsome
      rw [ih hrest, List.find?_cons]
      by_cases hl : slot i = l
      · subst hl
        obtain ⟨r, hr⟩ := Option.ne_none_iff_exists'.mp hsome
        rw [hr, Option.some_or, Option.some_or]
      · simp [hl]

theorem length_grouped {indices : List Nat} {table : List (List Nat)} :
    (grouped slot indices table).length = table.length := by
  induction indices generalizing table with
  | nil => rfl
  | cons i rest ih => rw [grouped, ih, List.length_set]

/-- The groups hold the indices of each label, in order. -/
theorem getD_grouped {indices : List Nat} {table : List (List Nat)} {l : Nat}
    (hslot : ∀ i ∈ indices, slot i < table.length) :
    (grouped slot indices table).getD l []
      = table.getD l [] ++ indices.filter fun i => decide (slot i = l) := by
  induction indices generalizing table with
  | nil => simp [grouped]
  | cons i rest ih =>
    have hi : slot i < table.length := hslot i List.mem_cons_self
    have hrest : ∀ j ∈ rest, slot j < table.length := fun j hj => hslot j (List.mem_cons_of_mem _ hj)
    rw [grouped, ih (by simpa using hrest), List.filter_cons]
    by_cases hl : slot i = l
    · subst hl
      simp [List.getD_eq_getElem?_getD, hi]
    · simp [List.getD_eq_getElem?_getD, hl]

end Slots

/-- What adds nothing need not be summed. -/
theorem sum_map_filter {l : List Nat} {p : Nat → Bool} {f : Nat → Nat}
    (h : ∀ i ∈ l, p i = false → f i = 0) : ((l.filter p).map f).sum = (l.map f).sum := by
  induction l with
  | nil => rfl
  | cons i rest ih =>
    have hrest := ih fun j hj => h j (List.mem_cons_of_mem _ hj)
    cases hp : p i with
    | true => simp [hp, hrest]
    | false => simp [hp, hrest, h i List.mem_cons_self hp]

/-- The pairs inside the groups are the pairs inside the components. -/
theorem sum_classes_eq {n : Nat} {edges : List (Nat × Nat)} {labels : List Nat}
    (hl : CanonicalLabels n edges labels) :
    (((labelRepresentatives n (labelSizes n labels)).map fun r =>
        (List.range n).filter fun index => labels.getD index 0 == r).map fun members =>
          members.length * (members.length - 1)).sum
      = withinComponentPairs (labelSizes n labels) := by
  have hsize : ∀ r < n, ((List.range n).filter fun index => labels.getD index 0 == r).length
      = (labelSizes n labels).getD r 0 := by
    intro r hr
    rw [labelSizes_getD hl hr, ← List.countP_eq_length_filter, countP_eq_card List.nodup_range]
    refine congrArg Finset.card (Finset.ext fun t => ?_)
    simp
  rw [List.map_map, labelRepresentatives, sum_map_filter]
  · rw [withinComponentPairs, labelSizes, List.map_map]
    refine congrArg List.sum (List.map_congr_left fun r hr => ?_)
    have hrn := List.mem_range.mp hr
    rw [Function.comp_apply, hsize r hrn, Function.comp_apply, labelSizes,
      List.getD_eq_getElem?_getD, List.getElem?_map, List.getElem?_range hrn]
    rfl
  · intro r hr hzero
    have hzero : (labelSizes n labels).getD r 0 = 0 := by
      simpa only [decide_eq_false_iff_not, not_not] using hzero
    rw [Function.comp_apply, hsize r (List.mem_range.mp hr), hzero]

/-! ## The traversal and the forest -/

section Traversal

variable {n : Nat} {edges : List (Nat × Nat)} {labels origins : List Nat} {adj : Nat → Nat → Bool}
  {state : Flood.Labels × Nat}
  (hsymm : ∀ u v, adj u v = adj v u)
  (hedges : ∀ u v, Flood.Adj adj n u v ↔ (u, v) ∈ edges ∨ (v, u) ∈ edges)

include hsymm hedges

/-- The forest connects what a path joins. -/
theorem eqvGen_edges_iff_path {u v : Nat} :
    EqvGen (DisjointSet.EdgeOf edges) u v ↔ ReflTransGen (Flood.Adj adj n) u v := by
  constructor
  · intro h
    induction h with
    | rel u v huv => exact .single ((hedges u v).mpr (.inl huv))
    | refl u => exact .refl
    | symm u v _ ih => exact Flood.path_symm hsymm ih
    | trans u v w _ _ ih1 ih2 => exact ih1.trans ih2
  · intro h
    induction h with
    | refl => exact .refl u
    | @tail v w _ hvw ih =>
      refine ih.trans _ _ _ ?_
      rcases (hedges v w).mp hvw with h | h
      · exact .rel v w h
      · exact .symm w v (.rel w v h)

variable (hl : CanonicalLabels n edges labels) (hf : Flood.Flooded adj n n origins state)

include hl hf

/-- The traversal gives two indices one label exactly when the forest does. -/
theorem traversal_eq_iff {u v : Nat} (hu : u < n) (hv : v < n) :
    state.1.getD v none = state.1.getD u none ↔ labels.getD u 0 = labels.getD v 0 := by
  rw [hf.label_eq_iff hsymm hu, hl.eq_iff u hu v hv, eqvGen_edges_iff_path hsymm hedges]

/-- The smallest index with the label of an index is its canonical label. -/
theorem origin_eq {v l : Nat} (hv : v < n) (hlabel : state.1.getD v none = some l) :
    origins[l]? = some (labels.getD v 0) := by
  obtain ⟨r, hr, hle, hpath⟩ := hf.origin v l hlabel
  have hrn : r < n := hle.trans_lt hv
  have hc := hl.label_lt v hv
  have hsame : state.1.getD (labels.getD v 0) none = some l := by
    rw [← hlabel, traversal_eq_iff hsymm hedges hl hf hv hc, hl.label_label v hv]
  obtain ⟨r', hr', hle', -⟩ := hf.origin _ l hsame
  obtain rfl := Option.some.inj (hr'.symm.trans hr)
  have hleast : labels.getD v 0 ≤ r' := by
    refine (label_isLeast hl hv).2 ⟨hrn, ?_⟩
    rw [← traversal_eq_iff hsymm hedges hl hf hv hrn, hlabel]
    exact (hf.own l r' hr).1
  rw [hr, Nat.le_antisymm hle' hleast]

/-- **The starts of the traversal are the representatives.** -/
theorem origins_eq : origins = labelRepresentatives n (labelSizes n labels) := by
  refine hf.sorted.eq_of_mem_iff (List.pairwise_lt_range.filter _) fun r => ?_
  rw [mem_labelRepresentatives hl]
  constructor
  · intro hr
    obtain ⟨l, hl'⟩ := List.mem_iff_getElem?.mp hr
    obtain ⟨hlabel, hrn⟩ := hf.own l r hl'
    have horigin := origin_eq hsymm hedges hl hf hrn hlabel
    exact ⟨hrn, Option.some.inj (horigin.symm.trans hl')⟩
  · rintro ⟨hrn, hself⟩
    obtain ⟨l, hlabel⟩ := Option.ne_none_iff_exists'.mp (hf.done r hrn)
    have horigin := origin_eq hsymm hedges hl hf hrn hlabel
    rw [hself] at horigin
    exact List.mem_of_getElem? horigin

omit hsymm hedges hl in
theorem labelAt_lt {v : Nat} (hv : v < n) : labelAt state.1 v < state.2 := by
  obtain ⟨l, hlabel⟩ := Option.ne_none_iff_exists'.mp (hf.done v hv)
  obtain ⟨r, hr, -⟩ := hf.origin v l hlabel
  rw [labelAt, hlabel, ← hf.count]
  exact (List.getElem?_eq_some_iff.mp hr).1

omit hsymm hedges hl in
theorem labelAt_eq_iff {v l : Nat} (hv : v < n) :
    labelAt state.1 v = l ↔ state.1.getD v none = some l := by
  obtain ⟨k, hlabel⟩ := Option.ne_none_iff_exists'.mp (hf.done v hv)
  rw [labelAt, hlabel, Option.getD_some, Option.some.injEq]

/-- **The canonicalised traversal labels as the forest does.** -/
theorem traversal_labels :
    ((List.range n).map fun index =>
      ((smallestMembers (labelAt state.1) (List.range n) (List.replicate state.2 none)).getD
        (labelAt state.1 index) none).getD 0) = labels := by
  have hslot : ∀ i ∈ List.range n,
      labelAt state.1 i < (List.replicate state.2 (none : Option Nat)).length :=
    fun i hi => by simpa using labelAt_lt hf (List.mem_range.mp hi)
  refine List.ext_getElem (by simp [hl.length_eq]) fun v hv hv' => ?_
  have hvn : v < n := by simpa using hv
  obtain ⟨l, hlabel⟩ := Option.ne_none_iff_exists'.mp (hf.done v hvn)
  have hlabelAt := (labelAt_eq_iff hf hvn).mpr hlabel
  have hc := hl.label_lt v hvn
  have hfirst : ((List.range n).find? fun i => decide (labelAt state.1 i = l))
      = some (labels.getD v 0) := by
    rw [List.find?_range_eq_some]
    refine ⟨?_, List.mem_range.mpr hc, fun j hj => ?_⟩
    · rw [decide_eq_true_eq, labelAt_eq_iff hf hc, ← hlabel,
        traversal_eq_iff hsymm hedges hl hf hvn hc, hl.label_label v hvn]
    · have hjn : j < n := hj.trans hc
      simp only [Bool.not_eq_true', decide_eq_false_iff_not]
      intro hjl
      have hsame : labels.getD v 0 = labels.getD j 0 := by
        rw [← traversal_eq_iff hsymm hedges hl hf hvn hjn, hlabel]
        exact (labelAt_eq_iff hf hjn).mp hjl
      have hle := hl.label_le j hjn
      omega
  rw [List.getElem_map, List.getElem_range, getD_smallestMembers hslot, hlabelAt, hfirst]
  have hnone : (List.replicate state.2 (none : Option Nat)).getD l none = none := by
    rw [List.getD_eq_getElem?_getD, List.getElem?_replicate]
    split <;> rfl
  rw [hnone, Option.none_or, Option.getD_some, List.getD_eq_getElem?_getD,
    List.getElem?_eq_getElem hv', Option.getD_some]

/-- **The groups of the traversal are the classes of the representatives**, in their order. -/
theorem traversal_groups :
    ((grouped (labelAt state.1) (List.range n) (List.replicate state.2 [])).filter
        fun members => !members.isEmpty)
      = (labelRepresentatives n (labelSizes n labels)).map fun r =>
          (List.range n).filter fun index => labels.getD index 0 == r := by
  have hslot : ∀ i ∈ List.range n, labelAt state.1 i < (List.replicate state.2 ([] : List Nat)).length :=
    fun i hi => by simpa using labelAt_lt hf (List.mem_range.mp hi)
  rw [← origins_eq hsymm hedges hl hf]
  have hgroups : grouped (labelAt state.1) (List.range n) (List.replicate state.2 [])
      = origins.map fun r => (List.range n).filter fun index => labels.getD index 0 == r := by
    refine List.ext_getElem (by simp [length_grouped, hf.count]) fun l hlt hlt' => ?_
    have horigin : l < origins.length := by simpa using hlt'
    have hget := @getD_grouped _ (List.range n) (List.replicate state.2 []) l hslot
    rw [List.getD_eq_getElem?_getD, List.getElem?_eq_getElem hlt, Option.getD_some] at hget
    rw [hget, List.getElem_map]
    have hempty : (List.replicate state.2 ([] : List Nat)).getD l [] = [] := by
      rw [List.getD_eq_getElem?_getD, List.getElem?_replicate]
      split <;> rfl
    rw [hempty, List.nil_append]
    obtain ⟨hown, hrn⟩ := hf.own l _ (List.getElem?_eq_getElem horigin)
    refine List.filter_congr fun index hindex => ?_
    have hin := List.mem_range.mp hindex
    have hself := Option.some.inj ((origin_eq hsymm hedges hl hf hrn hown).symm.trans
      (List.getElem?_eq_getElem horigin))
    rw [Bool.eq_iff_iff, decide_eq_true_eq, beq_iff_eq, labelAt_eq_iff hf hin, ← hown, ← hself,
      hself, traversal_eq_iff hsymm hedges hl hf hrn hin, hself, eq_comm]
  rw [hgroups, List.filter_eq_self]
  intro members hmembers
  obtain ⟨r, hr, rfl⟩ := List.mem_map.mp hmembers
  rw [origins_eq hsymm hedges hl hf, mem_labelRepresentatives hl] at hr
  have hmem : r ∈ (List.range n).filter fun index => labels.getD index 0 == r :=
    List.mem_filter.mpr ⟨List.mem_range.mpr hr.1, beq_iff_eq.mpr hr.2⟩
  rw [Bool.not_eq_true', Bool.eq_false_iff, Ne, List.isEmpty_iff]
  exact List.ne_nil_of_mem hmem

end Traversal

/-! ## The counters -/

/-- No ordered pair resolves to what only joining two directions gives. -/
theorem ResolutionContext.resolveOrdered_ne_asymmetric (ctx : ResolutionContext) (s t : Nat) :
    ctx.resolveOrdered s t ≠ .asymmetric := by
  rw [resolveOrdered]
  repeat' split
  all_goals simp

/-- The counting loops of the reference give the counters of the source. -/
theorem referenceTally_eq {roster : ComponentRoster} {ctx : ResolutionContext}
    (h : ctx.Regular roster.size)
    {rule : ComponentId → ComponentId → PairResolution}
    (hrule : ∀ s < roster.size, ∀ t < roster.size,
      ctx.resolveOrdered s t = rule (roster.at s) (roster.at t))
    {ordered : ResolutionTable} (hordered : ∀ s < roster.size, ∀ t < roster.size, s ≠ t →
      ordered.cell s t = rule (roster.at s) (roster.at t)) {labels : List Nat}
    (hlabels : labels = componentLabels roster.size (ctx.provenEdges roster.size))
    {members : List (List Nat)}
    (hmembers : (members.map fun m => m.length * (m.length - 1)).sum
      = withinComponentPairs (labelSizes roster.size labels)) :
    referenceTally roster.size ordered labels members (ctx.provenEdges roster.size)
      = ctx.counters roster.size (ctx.provenEdges roster.size) labels
          (labelSizes roster.size labels) := by
  have hl := componentLabels_canonical (provenEdges_lt h)
  have hsource := counters_eq_reference h hrule
  rw [← hlabels] at hl hsource
  have hconn : ∀ s < roster.size, ∀ t < roster.size,
      labels.getD s 0 = labels.getD t 0 ↔ Connected roster rule (roster.at s) (roster.at t) :=
    fun s hs t ht => (hl.eq_iff s hs t ht).trans (eqvGen_edges_iff h hrule hs ht)
  have hresolved : ∀ r, countPairs roster.size (fun s t => ordered.cell s t == r)
      = roster.pairCount fun a b => rule a b = r := by
    intro r
    refine countPairs_eq fun s hs t ht hst => ?_
    rw [hordered s hs t ht hst, beq_iff_eq]
  have hcross : countPairs roster.size (fun s t => labels.getD s 0 != labels.getD t 0
        && ordered.cell s t == .unreachable)
      = roster.pairCount fun a b => ¬ Connected roster rule a b ∧ rule a b = .unreachable := by
    refine countPairs_eq fun s hs t ht hst => ?_
    rw [hordered s hs t ht hst, ← hconn s hs t ht, Bool.and_eq_true, bne_iff_ne, beq_iff_eq]
  have hcrossing := hcross.trans (congrArg PairCounters.crossComponentUnreachable hsource).symm
  rw [referenceTally, ResolutionContext.counters]
  dsimp only
  rw [hmembers]
  congr 1
  · exact (hresolved .reachable).trans (congrArg PairCounters.orderedReachable hsource).symm
  · exact (hresolved .unreachable).trans (congrArg PairCounters.orderedUnreachable hsource).symm
  · exact (hresolved .conflicting).trans (congrArg PairCounters.orderedConflicting hsource).symm
  · exact (hresolved .stale).trans (congrArg PairCounters.orderedStale hsource).symm
  · refine Eq.trans ?_ (congrArg PairCounters.orderedUnknown hsource).symm
    refine countPairs_eq (p := fun a b => rule a b = .unknown) fun s hs t ht hst => ?_
    rw [hordered s hs t ht hst]
    have hproper := ctx.resolveOrdered_ne_asymmetric s t
    rw [hrule s hs t ht] at hproper
    generalize rule (roster.at s) (roster.at t) = r at hproper
    cases r <;> simp_all
  · refine Eq.trans ?_ (congrArg PairCounters.orderedAsymmetric hsource).symm
    refine countPairs_eq (p := fun a b => (rule a b).isProven = true ∧ rule b a = .unknown)
      fun s hs t ht hst => ?_
    rw [hordered s hs t ht hst, hordered t ht s hs hst.symm, Bool.and_eq_true, beq_iff_eq,
      PairResolution.isProven]
  · refine Eq.trans ?_ (congrArg PairCounters.orderedContradictory hsource).symm
    refine countPairs_eq (p := fun a b => rule a b = .reachable ∧ rule b a = .unreachable)
      fun s hs t ht hst => ?_
    rw [hordered s hs t ht hst, hordered t ht s hs hst.symm, Bool.and_eq_true, beq_iff_eq, beq_iff_eq]
  · exact congrArg (_ - _ - ·) hcrossing

/-! ## The agreement -/

section Agreement

variable {roster : ComponentRoster} {evidence : List ReachabilityEvidence} {policy : PartitionPolicy}
  {tick : UInt64}

/-- The reference resolves the ordered pairs by the documented rule. -/
theorem referenceResolve_ordered (hform : ∀ b ∈ evidence, LedgerForm roster b) {s t : Nat}
    (hs : s < roster.size) (ht : t < roster.size) (hst : s ≠ t) :
    (referenceResolve roster evidence tick policy).ordered.cell s t
      = evidenceRule roster evidence (some policy) tick (roster.at s) (roster.at t) := by
  rw [referenceResolve, referenceGather_eq]
  dsimp only
  rw [ResolutionTable.cell_fill, if_pos ⟨hs, ht, hst⟩, List.nil_append, List.nil_append]
  refine referenceOrdered_eq_rule (fun b hb => ?_) (ComponentRoster.at_mem hs) mem_stalePairs_iff
  exact hform b (List.mem_filter.mp hb).1

theorem referenceResolve_undirected {s t : Nat} :
    (referenceResolve roster evidence tick policy).undirected.cell s t
      = if s < roster.size ∧ t < roster.size ∧ s ≠ t then
          joinDirections
            ((referenceResolve roster evidence tick policy).ordered.cell (min s t) (max s t))
            ((referenceResolve roster evidence tick policy).ordered.cell (max s t) (min s t))
        else .unknown := by
  rw [referenceResolve]
  dsimp only
  rw [ResolutionTable.cell_fill]

/-- The neighbours of the traversal. -/
def referenceAdj (outcome : ReferenceOutcome) (current other : Nat) : Bool :=
  outcome.undirected.cell current other == .reachable

theorem referenceAdj_symm (u v : Nat) :
    referenceAdj (referenceResolve roster evidence tick policy) u v
      = referenceAdj (referenceResolve roster evidence tick policy) v u := by
  rw [referenceAdj, referenceAdj, referenceResolve_undirected, referenceResolve_undirected,
    min_comm u v, max_comm u v]
  refine congrArg (· == PairResolution.reachable) (if_congr ?_ rfl rfl)
  tauto

variable {limits : Limits} (hform : ∀ b ∈ evidence, LedgerForm roster b)

include hform

/-- A usable edge of the reference is a proven edge of the source. -/
theorem undirected_reachable_iff {u v : Nat} (huv : u < v) (hv : v < roster.size) :
    (referenceResolve roster evidence tick policy).undirected.cell u v = .reachable ↔
      (u, v) ∈ (evidenceContext roster (policyAge (some policy)) tick limits evidence).provenEdges
        roster.size := by
  have hu := huv.trans hv
  rw [referenceResolve_undirected, if_pos ⟨hu, hv, huv.ne⟩, min_eq_left huv.le, max_eq_right huv.le,
    referenceResolve_ordered hform hu hv huv.ne, referenceResolve_ordered hform hv hu huv.ne',
    joinDirections_eq_reachable_iff, (evidenceContext_regular hform).mem_provenEdges,
    resolveOrdered_eq_rule hform hu hv, resolveOrdered_eq_rule hform hv hu]
  exact ⟨fun h => ⟨huv, hv, h.1, h.2⟩, fun h => ⟨h.2.2.1, h.2.2.2⟩⟩

/-- The graph the reference floods is the graph of the proven edges. -/
theorem referenceAdj_iff (u v : Nat) :
    Flood.Adj (referenceAdj (referenceResolve roster evidence tick policy)) roster.size u v ↔
      (u, v) ∈ (evidenceContext roster (policyAge (some policy)) tick limits evidence).provenEdges
          roster.size
        ∨ (v, u) ∈ (evidenceContext roster (policyAge (some policy)) tick limits
          evidence).provenEdges roster.size := by
  have hedge := fun {u v : Nat} (h : (u, v) ∈ (evidenceContext roster (policyAge (some policy)) tick
      limits evidence).provenEdges roster.size) => (evidenceContext_regular hform).mem_provenEdges.mp h
  constructor
  · rintro ⟨hu, hv, hne, hadj⟩
    rw [referenceAdj, beq_iff_eq] at hadj
    rcases Nat.lt_or_gt_of_ne hne with hlt | hlt
    · exact .inl ((undirected_reachable_iff hform hlt hv).mp hadj)
    · refine .inr ((undirected_reachable_iff hform hlt hu).mp ?_)
      have hsymm := @referenceAdj_symm roster evidence policy tick u v
      rw [referenceAdj, referenceAdj, hadj] at hsymm
      simpa using hsymm.symm
  · rintro (h | h)
    · obtain ⟨hlt, hv, -⟩ := hedge h
      refine ⟨hlt.trans hv, hv, hlt.ne, beq_iff_eq.mpr ?_⟩
      exact (undirected_reachable_iff hform hlt hv).mpr h
    · obtain ⟨hlt, hu, -⟩ := hedge h
      refine ⟨hu, hlt.trans hu, hlt.ne', ?_⟩
      rw [referenceAdj_symm]
      exact beq_iff_eq.mpr ((undirected_reachable_iff hform hlt hu).mpr h)

omit hform in
theorem mem_referenceResolve_edges {e : Nat × Nat} :
    e ∈ (referenceResolve roster evidence tick policy).edges ↔ e.1 < e.2 ∧ e.2 < roster.size
      ∧ (referenceResolve roster evidence tick policy).undirected.cell e.1 e.2 = .reachable := by
  conv_lhs => rw [referenceResolve]
  dsimp only
  simp only [List.mem_flatMap, List.mem_map, List.mem_filter, List.mem_range, Bool.and_eq_true,
    decide_eq_true_eq, beq_iff_eq]
  constructor
  · rintro ⟨lhs, -, rhs, ⟨hrhs, hlt, hcell⟩, rfl⟩
    exact ⟨hlt, hrhs, hcell⟩
  · rintro ⟨hlt, hrhs, hcell⟩
    exact ⟨e.1, hlt.trans hrhs, e.2, ⟨hrhs, hlt, hcell⟩, rfl⟩

omit hform in
/-- The loops that collect the edges visit them in order. -/
theorem referenceResolve_edges_pairwise :
    (referenceResolve roster evidence tick policy).edges.Pairwise fun a b => toLex a < toLex b := by
  rw [referenceResolve]
  dsimp only
  refine List.pairwise_flatMap.mpr ⟨fun lhs _ => ?_, ?_⟩
  · refine List.pairwise_map.mpr ((List.pairwise_lt_range.filter _).imp fun h => ?_)
    exact Prod.Lex.toLex_lt_toLex.mpr (.inr ⟨rfl, h⟩)
  · refine List.pairwise_lt_range.imp fun h a ha b hb => ?_
    obtain ⟨r, -, rfl⟩ := List.mem_map.mp ha
    obtain ⟨r', -, rfl⟩ := List.mem_map.mp hb
    exact Prod.Lex.toLex_lt_toLex.mpr (.inl h)

/-- **The edges of the reference are the proven edges**, in their order. -/
theorem referenceResolve_edges :
    (referenceResolve roster evidence tick policy).edges
      = (evidenceContext roster (policyAge (some policy)) tick limits evidence).provenEdges
          roster.size := by
  have hsorted : ((evidenceContext roster (policyAge (some policy)) tick limits
      evidence).provenEdges roster.size).Pairwise fun a b => toLex a < toLex b := by
    rw [ResolutionContext.provenEdges]
    exact List.pairwise_map.mpr (SortedList.unique_pairwise_lt (List.pairwise_insertionSort _ _))
  have : Std.Antisymm fun a b : Nat × Nat => toLex a < toLex b := ⟨fun _ _ h h' => (lt_asymm h h').elim⟩
  have : Std.Irrefl fun a b : Nat × Nat => toLex a < toLex b := ⟨fun _ => lt_irrefl _⟩
  refine referenceResolve_edges_pairwise.eq_of_mem_iff hsorted fun e => ?_
  rw [mem_referenceResolve_edges]
  constructor
  · rintro ⟨hlt, hrhs, hcell⟩
    exact (undirected_reachable_iff hform hlt hrhs).mp hcell
  · intro he
    obtain ⟨hlt, hrhs, -⟩ := (evidenceContext_regular hform).mem_provenEdges.mp he
    exact ⟨hlt, hrhs, (undirected_reachable_iff hform hlt hrhs).mpr he⟩

/-- The labels and the groups of the reference are those of the source. -/
theorem referenceResolve_components :
    let edges := (evidenceContext roster (policyAge (some policy)) tick limits evidence).provenEdges
      roster.size
    let labels := componentLabels roster.size edges
    (referenceResolve roster evidence tick policy).componentOf = labels ∧
      (referenceResolve roster evidence tick policy).componentMembers
        = (labelRepresentatives roster.size (labelSizes roster.size labels)).map fun r =>
            (List.range roster.size).filter fun index => labels.getD index 0 == r := by
  dsimp only
  obtain ⟨origins, hf⟩ := Flood.floodAll_flooded
    (@referenceAdj_symm roster evidence policy tick) roster.size
  have hl := componentLabels_canonical (provenEdges_lt
    (@evidenceContext_regular roster (policyAge (some policy)) tick limits evidence hform))
  exact ⟨traversal_labels referenceAdj_symm (referenceAdj_iff hform) hl hf,
    traversal_groups referenceAdj_symm (referenceAdj_iff hform) hl hf⟩

end Agreement

/-- A snapshot, resolved in a context, agrees with what the reference answers. -/
structure AgreesWithReference (ctx : ResolutionContext) (snapshot : ReachabilitySnapshot)
    (outcome : ReferenceOutcome) : Prop where
  valid : snapshot.valid = outcome.valid
  ordered : ∀ s < snapshot.components.length, ∀ t < snapshot.components.length, s ≠ t →
    ctx.resolveOrdered s t = outcome.ordered.cell s t
  edges : snapshot.edges = outcome.edges
  componentOf : snapshot.componentOf = outcome.componentOf
  groups : snapshot.groups = outcome.componentMembers
  counters : snapshot.counters = outcome.counters
  confirmed : snapshot.confirmed = outcome.confirmed

/-- A roster without components has nothing to resolve. -/
theorem empty_agrees_with_reference {roster : ComponentRoster} {evidence : List ReachabilityEvidence}
    {policy : PartitionPolicy} {tick : UInt64} {limits : Limits} (hset : roster.set = true)
    (hempty : roster.size = 0) :
    AgreesWithReference (evidenceContext roster (policyAge (some policy)) tick limits evidence)
      (buildReachabilitySnapshot roster evidence (some policy) tick limits)
      (referenceResolve roster evidence tick policy) := by
  have hnil : roster.components = [] := List.eq_nil_of_length_eq_zero hempty
  rw [buildReachabilitySnapshot, if_neg (by simp [hset])]
  dsimp only
  rw [if_pos hempty, referenceResolve, hempty]
  refine ⟨rfl, fun s hs => ?_, ?_, ?_, ?_, ?_, ?_⟩
  · simp [hnil] at hs
  · simp [ResolutionTable.cell]
  · simp
  · simp [ReachabilitySnapshot.groups, grouped, traversal, Flood.floodAll]
  · simp [referenceTally, countPairs, ResolutionContext.sumOver, traversal, Flood.floodAll, grouped]
  · simp

/-- **The two implementations agree.**  On every roster, and on all evidence in ledger form, the
snapshot of the source and the answer of the reference have the same resolution of every ordered pair,
the same edges, labels and groups in the same order, the same counters and the same verdict. -/
theorem snapshot_agrees_with_reference (roster : ComponentRoster) (evidence : List ReachabilityEvidence)
    (policy : PartitionPolicy) (tick : UInt64) (limits : Limits) (hset : roster.set = true)
    (hform : ∀ b ∈ evidence, LedgerForm roster b) :
    AgreesWithReference (evidenceContext roster (policyAge (some policy)) tick limits evidence)
      (buildReachabilitySnapshot roster evidence (some policy) tick limits)
      (referenceResolve roster evidence tick policy) := by
  rcases Nat.eq_zero_or_pos roster.size with hempty | hpos
  · exact empty_agrees_with_reference hset hempty
  have hregular := @evidenceContext_regular roster (policyAge (some policy)) tick limits evidence hform
  have hrule : ∀ s < roster.size, ∀ t < roster.size,
      (evidenceContext roster (policyAge (some policy)) tick limits evidence).resolveOrdered s t
        = evidenceRule roster evidence (some policy) tick (roster.at s) (roster.at t) :=
    fun s hs t ht => resolveOrdered_eq_rule hform hs ht
  have hordered := fun s hs t ht hst =>
    @referenceResolve_ordered roster evidence policy tick hform s t hs ht hst
  have hrefEdges := @referenceResolve_edges roster evidence policy tick limits hform
  obtain ⟨hof, hmembers⟩ := @referenceResolve_components roster evidence policy tick limits hform
  have hl := componentLabels_canonical (provenEdges_lt hregular)
  obtain ⟨hedges, hlabels, hsizes, hcounters, hconfirmed⟩ :=
    buildReachabilitySnapshot_eq hset hpos.ne' evidence (some policy) tick limits
  have hrest : (buildReachabilitySnapshot roster evidence (some policy) tick limits).valid = true ∧
      (buildReachabilitySnapshot roster evidence (some policy) tick limits).components
        = roster.components ∧
      (buildReachabilitySnapshot roster evidence (some policy) tick limits).componentRepresentatives
        = labelRepresentatives roster.size
          (buildReachabilitySnapshot roster evidence (some policy) tick limits).componentSizes := by
    rw [buildReachabilitySnapshot, if_neg (by simp [hset])]
    dsimp only
    rw [if_neg hpos.ne']
    exact ⟨rfl, rfl, rfl⟩
  have hgroups := (buildReachabilitySnapshot_labelled roster evidence (some policy) tick
    limits).groups_eq
  have hcount : (buildReachabilitySnapshot roster evidence (some policy) tick
      limits).components.length = roster.size := congrArg List.length hrest.2.1
  rw [hedges] at hlabels hcounters
  rw [hlabels] at hsizes hcounters
  rw [hsizes] at hcounters hrest
  have hwithin := sum_classes_eq hl
  rw [← hmembers] at hwithin
  have htally : (referenceResolve roster evidence tick policy).counters
      = (buildReachabilitySnapshot roster evidence (some policy) tick limits).counters := by
    rw [hcounters, ← referenceTally_eq hregular hrule hordered rfl hwithin, ← hof, ← hrefEdges]
    rfl
  refine ⟨hrest.1, fun s hs t ht hst => ?_, ?_, ?_, ?_, htally.symm, ?_⟩
  · rw [hcount] at hs ht
    rw [hordered s hs t ht hst, hrule s hs t ht]
  · rw [hedges, hrefEdges]
  · rw [hlabels, hof]
  · rw [hgroups, hrest.2.2, hmembers]
    refine List.map_congr_left fun r _ => ?_
    rw [ReachabilitySnapshot.classOf, hcount, hlabels]
  · rw [hconfirmed, ← htally]
    have hverdict : (referenceResolve roster evidence tick policy).confirmed
        = ((referenceResolve roster evidence tick policy).counters.crossComponentIndeterminate == 0
          && roster.size != 0) := rfl
    rw [hverdict, bne_iff_ne.mpr hpos.ne', Bool.and_true]

/-- Two components that reach each other, by both implementations. -/
theorem pair_agrees_with_reference :
    (∀ b ∈ [pairEvidence], LedgerForm pairRoster b) ∧
      AgreesWithReference
        (evidenceContext pairRoster (policyAge (some (defaultPolicy ⟨1⟩))) 0 defaultLimits [pairEvidence])
        (buildReachabilitySnapshot pairRoster [pairEvidence] (some (defaultPolicy ⟨1⟩)) 0 defaultLimits)
        (referenceResolve pairRoster [pairEvidence] 0 (defaultPolicy ⟨1⟩)) :=
  ⟨pairEvidence_ledgerForm, snapshot_agrees_with_reference pairRoster [pairEvidence]
    (defaultPolicy ⟨1⟩) 0 defaultLimits rfl pairEvidence_ledgerForm⟩

end FabricPartition
