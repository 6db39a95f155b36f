import FabricPartition.Evidence
import FabricPartition.Lib.DisjointSet
import FabricPartition.Lib.Sorted

/-!
# Resolving an evidence set

`build_reachability_snapshot` of `reachability.cpp`, cut along its own section comments: gathering
the bundles (`gather`), the three indices (`OrderedIndex`, `CoverCounter`, `PackedKeySet`), the
resolution of an ordered pair (`ResolutionContext.resolveOrdered`), the tally of each source, the
proven edges and the canonical labelling, the crossing proof, and the asymmetry and contradiction
counts.

The source never visits the pairs of the fabric.  Nothing here does either: every counter is the
closed form the source computes, and `Accounting` compares it with the pair-by-pair count.

A packed 64-bit key `(source << 32) | target` is the pair of its halves, compared
lexicographically.
-/

set_option autoImplicit false

namespace FabricPartition

open SortedList

/-! ## Packed observations and their indices -/

/-- The two explicit-observation bits of a pair. -/
structure ObservationFlags where
  reachable : Bool := false
  unreachable : Bool := false
  deriving DecidableEq

/-- `flags |= value`. -/
def ObservationFlags.or (a b : ObservationFlags) : ObservationFlags :=
  ⟨a.reachable || b.reachable, a.unreachable || b.unreachable⟩

/-- The byte the two bits make. -/
def ObservationFlags.value (f : ObservationFlags) : Nat :=
  (if f.reachable then 1 else 0) + if f.unreachable then 2 else 0

/-- `kExplicitReachable` for a reachable observation, `kExplicitUnreachable` for any other. -/
def observationFlags (r : Reachability) : ObservationFlags :=
  if r = .reachable then { reachable := true } else { unreachable := true }

/-- A packed `(source, target)` key. -/
abbrev PairKey := Nat ×ₗ Nat

/-- The key of an ordered pair of indices. -/
def pairKey (source target : Nat) : PairKey := toLex (source, target)

/-- `key_source`. -/
def keySource (key : PairKey) : Nat := (ofLex key).1

/-- `key_target`. -/
def keyTarget (key : PairKey) : Nat := (ofLex key).2

/-- An observation over roster indices. -/
structure PackedObservation where
  source : Nat
  target : Nat
  value : ObservationFlags
  deriving DecidableEq

/-- The pair an observation is about. -/
def PackedObservation.key (o : PackedObservation) : PairKey := pairKey o.source o.target

/-- The order of `observation_less`. -/
def PackedObservation.sortKey (o : PackedObservation) : PairKey ×ₗ Nat := toLex (o.key, o.value.value)

/-- `std::sort` with `observation_less`. -/
def sortObservations (os : List PackedObservation) : List PackedObservation :=
  os.insertionSort fun a b => a.sortKey ≤ b.sortKey

/-- A row of the ordered index: a pair and the union of the observations of it. -/
structure OrderedRow where
  source : Nat
  target : Nat
  flags : ObservationFlags
  deriving DecidableEq

/-- The folded ordered-pair index. -/
structure OrderedIndex where
  sourceCount : Nat
  rows : List OrderedRow

namespace OrderedIndex

/-- `OrderedIndex::build`. -/
def build (sourceCount : Nat) (os : List PackedObservation) : OrderedIndex where
  sourceCount := sourceCount
  rows := (groupRuns PackedObservation.key (sortObservations os)).map fun kr =>
    ⟨keySource kr.1, keyTarget kr.1, kr.2.foldl (fun flags o => flags.or o.value) {}⟩

/-- The rows from `begin(source)` to `end(source)`. -/
def row (index : OrderedIndex) (source : Nat) : List OrderedRow :=
  slice OrderedRow.source index.sourceCount index.rows source

/-- `OrderedIndex::lookup`. -/
def lookup (index : OrderedIndex) (source target : Nat) : Option ObservationFlags :=
  (lowerBound? OrderedRow.target (index.row source) target).map OrderedRow.flags

end OrderedIndex

/-- How many covering observations each pair received. -/
structure CoverCounter where
  entries : List (PairKey × Nat)

namespace CoverCounter

/-- `CoverCounter::build`. -/
def build (os : List PackedObservation) : CoverCounter where
  entries := (groupRuns PackedObservation.key (sortObservations os)).map fun kr =>
    (kr.1, kr.2.length)

/-- `CoverCounter::hits`. -/
def hits (counter : CoverCounter) (source target : Nat) : Nat :=
  match lowerBound? Prod.fst counter.entries (pairKey source target) with
  | none => 0
  | some entry => entry.2

end CoverCounter

/-- A sorted set of packed keys. -/
structure PackedKeySet where
  keys : List PairKey

namespace PackedKeySet

/-- `PackedKeySet::assign`. -/
def assign (keys : List PairKey) : PackedKeySet := ⟨unique (keys.insertionSort (· ≤ ·))⟩

/-- `PackedKeySet::contains`. -/
def contains (s : PackedKeySet) (source target : Nat) : Bool :=
  (lowerBound? id s.keys (pairKey source target)).isSome

end PackedKeySet

/-! ## The resolution of an ordered pair -/

/-- What `resolve_ordered` reads. -/
structure ResolutionContext where
  ordered : OrderedIndex
  stale : PackedKeySet
  coverCount : List Nat
  coverHits : CoverCounter

namespace ResolutionContext

/-- How many fresh complete claims cover a source. -/
def covering (ctx : ResolutionContext) (source : Nat) : Nat := ctx.coverCount.getD source 0

/-- `ResolutionContext::silent`. -/
def silent (ctx : ResolutionContext) (source target : Nat) : Bool :=
  if ctx.covering source = 0 then false
  else decide (ctx.coverHits.hits source target < ctx.covering source)

/-- `ResolutionContext::resolve_ordered`. -/
def resolveOrdered (ctx : ResolutionContext) (source target : Nat) : PairResolution :=
  let flags := (ctx.ordered.lookup source target).getD {}
  let impliedUnreachable := ctx.silent source target
  if flags.reachable && (flags.unreachable || impliedUnreachable) then .conflicting
  else if flags.reachable then .reachable
  else if flags.unreachable || impliedUnreachable then .unreachable
  else if ctx.stale.contains source target then .stale
  else .unknown

end ResolutionContext

/-! ## Gathering the bundles -/

/-- Is a bundle of the right topology fresh at the evaluation tick? -/
def freshBundle (policyAge tickNow : UInt64) (bundle : ReachabilityEvidence) : Bool :=
  let futureDated := decide (bundle.observedAtTick > tickNow)
  let elapsed := if futureDated then 0 else tickNow - bundle.observedAtTick
  let horizon :=
    if policyAge ≠ 0 ∧ (bundle.validityTicks = 0 ∨ policyAge < bundle.validityTicks) then policyAge
    else bundle.validityTicks
  !futureDated && decide (elapsed ≤ horizon)

/-- The observations of a bundle between roster members, over their indices. -/
def packObservations (roster : ComponentRoster) (bundle : ReachabilityEvidence) :
    List PackedObservation :=
  bundle.observations.filterMap fun o =>
    match roster.indexOf o.source, roster.indexOf o.target with
    | some source, some target => some ⟨source, target, observationFlags o.value⟩
    | _, _ => none

/-- The indices of the sources a bundle covers. -/
def coveredIndices (roster : ComponentRoster) (bundle : ReachabilityEvidence) : List Nat :=
  bundle.coveredSources.filterMap roster.indexOf

/-- The accumulators of the bundle loop. -/
structure Gathered where
  foreignBundleCount : Nat := 0
  freshBundleCount : Nat := 0
  staleBundleCount : Nat := 0
  anyEvidenceFresh : Bool := false
  contributingEvidence : List EvidenceId := []
  reachabilityGeneration : ReachabilityGeneration := .zero
  reasons : List Reason := []
  fresh : List PackedObservation := []
  covering : List PackedObservation := []
  staleKeys : List PairKey := []
  coverCount : List Nat
  coverageConflict : Bool := false

/-- `++cover_count[index]`, and the conflict flag once a source is covered twice. -/
def Gathered.cover (acc : Gathered) (index : Nat) : Gathered :=
  let covered := acc.coverCount.getD index 0 + 1
  { acc with
    coverCount := acc.coverCount.set index covered
    coverageConflict := acc.coverageConflict || decide (covered ≥ 2) }

/-- One round of the bundle loop. -/
def Gathered.absorb (roster : ComponentRoster) (policyAge tickNow : UInt64) (limits : Limits)
    (acc : Gathered) (bundle : ReachabilityEvidence) : Gathered :=
  if bundle.topologyGeneration ≠ roster.generation then
    { acc with foreignBundleCount := acc.foreignBundleCount + 1 }
  else if freshBundle policyAge tickNow bundle then
    let acc := { acc with
      freshBundleCount := acc.freshBundleCount + 1
      anyEvidenceFresh := true
      contributingEvidence := acc.contributingEvidence ++ [bundle.id]
      reachabilityGeneration :=
        if bundle.generation.value > acc.reachabilityGeneration.value then bundle.generation
        else acc.reachabilityGeneration
      fresh := acc.fresh ++ packObservations roster bundle }
    if bundle.completeness = .complete then
      let coveredHere := coveredIndices roster bundle
      let acc := coveredHere.foldl Gathered.cover acc
      { acc with
        covering := acc.covering ++
          (packObservations roster bundle).filter fun o => coveredHere.contains o.source }
    else acc
  else
    { acc with
      staleBundleCount := acc.staleBundleCount + 1
      reasons := appendReason acc.reasons .evidenceRejectedStale bundle.id.text
        (ascii "evidence is outside its freshness horizon at the evaluation tick") limits
      staleKeys := acc.staleKeys ++ (packObservations roster bundle).map PackedObservation.key }

/-- The bundle loop. -/
def gather (roster : ComponentRoster) (policyAge tickNow : UInt64) (limits : Limits)
    (evidence : List ReachabilityEvidence) : Gathered :=
  evidence.foldl (Gathered.absorb roster policyAge tickNow limits)
    { coverCount := List.replicate roster.size 0 }

/-- The context the gathered observations are resolved in. -/
def Gathered.context (g : Gathered) (count : Nat) : ResolutionContext where
  ordered := OrderedIndex.build count g.fresh
  stale := PackedKeySet.assign g.staleKeys
  coverCount := g.coverCount
  coverHits := CoverCounter.build g.covering

/-! ## The tally of each source -/

/-- The ordered classification of the pairs of one source. -/
structure SourceTally where
  reachable : Nat
  unreachable : Nat
  conflicting : Nat
  stale : Nat
  unknown : Nat
  deriving DecidableEq

namespace ResolutionContext

/-- `observed_targets[source]`: the length of the source's row. -/
def observedTargets (ctx : ResolutionContext) (source : Nat) : Nat := (ctx.ordered.row source).length

/-- `stale_only_targets[source]`: the expired pairs of the source with no fresh observation. -/
def staleOnlyTargets (ctx : ResolutionContext) (source : Nat) : Nat :=
  ctx.stale.keys.countP fun key =>
    keySource key == source && (ctx.ordered.lookup (keySource key) (keyTarget key)).isNone

/-- How many pairs of a source's row resolve one way. -/
def rowCount (ctx : ResolutionContext) (source : Nat) (r : PairResolution) : Nat :=
  (ctx.ordered.row source).countP fun row => ctx.resolveOrdered source row.target == r

/-- The pairs of a source that nothing fresh was observed about. -/
def unobserved (ctx : ResolutionContext) (total source : Nat) : Nat :=
  (total - 1) - ctx.observedTargets source

/-- The tally of one source: its row resolved, and the closed form for the rest. -/
def tallySource (ctx : ResolutionContext) (total source : Nat) : SourceTally :=
  if ctx.covering source ≠ 0 then
    { reachable := ctx.rowCount source .reachable
      unreachable := ctx.rowCount source .unreachable + ctx.unobserved total source
      conflicting := ctx.rowCount source .conflicting
      stale := ctx.rowCount source .stale
      unknown := 0 }
  else
    { reachable := ctx.rowCount source .reachable
      unreachable := ctx.rowCount source .unreachable
      conflicting := ctx.rowCount source .conflicting
      stale := ctx.rowCount source .stale + ctx.staleOnlyTargets source
      unknown := ctx.unobserved total source - ctx.staleOnlyTargets source }

/-! ## Proven edges and canonical components -/

/-- The edges proven from one source's row: both directions resolve reachable. -/
def edgesFrom (ctx : ResolutionContext) (source : Nat) : List PairKey :=
  (ctx.ordered.row source).filterMap fun row =>
    if row.flags.reachable && ctx.resolveOrdered source row.target == .reachable
        && ctx.resolveOrdered row.target source == .reachable then
      some (pairKey (min source row.target) (max source row.target))
    else none

/-- The proven edges, sorted and without repetition. -/
def provenEdges (ctx : ResolutionContext) (count : Nat) : List (Nat × Nat) :=
  (unique (((List.range count).flatMap ctx.edgesFrom).insertionSort (· ≤ ·))).map ofLex

end ResolutionContext

/-- The first loop over the forest: the smallest index of each root becomes its representative. -/
def representatives : List Nat → DisjointSet × List (Option Nat) → DisjointSet × List (Option Nat)
  | [], state => state
  | index :: rest, (sets, representative) =>
    let (root, sets) := sets.find index
    match representative.getD root none with
    | none => representatives rest (sets, representative.set root (some index))
    | some _ => representatives rest (sets, representative)

/-- The second loop over the forest: each index is labelled with the representative of its root. -/
def canonicalLabels (representative : List (Option Nat)) : List Nat → DisjointSet → List Nat
  | [], _ => []
  | index :: rest, sets =>
    let (root, sets) := sets.find index
    (representative.getD root none).getD 0 :: canonicalLabels representative rest sets

/-- The label of every component of the graph the edges span. -/
def componentLabels (count : Nat) (edges : List (Nat × Nat)) : List Nat :=
  let sets := (DisjointSet.ofCount count).uniteAll edges
  let (sets, representative) :=
    representatives (List.range count) (sets, List.replicate count none)
  canonicalLabels representative (List.range count) sets

/-- `++sizes[canonical[index]]` over all indices. -/
def labelSizes (count : Nat) (labels : List Nat) : List Nat :=
  (List.range count).map fun label => labels.count label

/-- `component_representatives`: the labels of non-empty components, in order. -/
def labelRepresentatives (count : Nat) (sizes : List Nat) : List Nat :=
  (List.range count).filter fun index => sizes.getD index 0 ≠ 0

/-- The ordered pairs inside components: an empty slot of the size table contributes zero, whatever
its predecessor wraps to. -/
def withinComponentPairs (sizes : List Nat) : Nat := (sizes.map fun value => value * (value - 1)).sum

/-! ## Cross-component proof accounting -/

namespace ResolutionContext

/-- The components outside a source's own component set. -/
def outside (total : Nat) (labels sizes : List Nat) (source : Nat) : Nat :=
  total - sizes.getD (labels.getD source 0) 0

/-- The crossing pairs of a source's row that are not proven unreachable. -/
def exceptionsOutside (ctx : ResolutionContext) (labels : List Nat) (source : Nat) : Nat :=
  (ctx.ordered.row source).countP fun row =>
    ctx.resolveOrdered source row.target != .unreachable
      && labels.getD row.target 0 != labels.getD source 0

/-- The pairs of one source that cross a component boundary and are proven unreachable. -/
def crossUnreachable (ctx : ResolutionContext) (total : Nat) (labels sizes : List Nat)
    (source : Nat) : Nat :=
  if ctx.covering source ≠ 0 then
    outside total labels sizes source - ctx.exceptionsOutside labels source
  else
    (ctx.ordered.row source).countP fun row =>
      ctx.resolveOrdered source row.target == .unreachable
        && labels.getD row.target 0 != labels.getD source 0

/-! ## Asymmetry and contradiction accounting -/

/-- The reverse directions that some uncovered source observed, fresh or expired. -/
def reverseKeys (ctx : ResolutionContext) (count : Nat) : List PairKey :=
  let fresh := ((List.range count).filter fun source => ctx.covering source == 0).flatMap
    fun source => (ctx.ordered.row source).map fun row => pairKey row.target source
  let stale := (ctx.stale.keys.filter fun key => ctx.covering (keySource key) == 0).map
    fun key => pairKey (keyTarget key) (keySource key)
  unique ((fresh ++ stale).insertionSort (· ≤ ·))

/-- `covered_source_total`. -/
def coveredSourceTotal (ctx : ResolutionContext) (count : Nat) : Nat :=
  (List.range count).countP fun source => ctx.covering source != 0

/-- `reverse_touch[target]`. -/
def reverseTouch (ctx : ResolutionContext) (count target : Nat) : Nat :=
  (ctx.reverseKeys count).countP fun key => keySource key == target

/-- The reverse directions of a source that do not resolve unknown. -/
def nonUnknownReverse (ctx : ResolutionContext) (count source : Nat) : Nat :=
  ctx.coveredSourceTotal count - (if ctx.covering source ≠ 0 then 1 else 0)
    + ctx.reverseTouch count source

/-- The pairs of one source that are proven while their reverse is unknown. -/
def asymmetricFrom (ctx : ResolutionContext) (count source : Nat) : Nat :=
  if ctx.covering source ≠ 0 then
    (ctx.ordered.row source).foldl (fun value row =>
      if ctx.resolveOrdered row.target source ≠ .unknown then value
      else if ctx.resolveOrdered source row.target = .conflicting ∧ value > 0 then value - 1
      else value) ((count - 1) - ctx.nonUnknownReverse count source)
  else
    (ctx.ordered.row source).countP fun row =>
      (ctx.resolveOrdered source row.target == .reachable
        || ctx.resolveOrdered source row.target == .unreachable)
        && ctx.resolveOrdered row.target source == .unknown

/-- The pairs of one source that are reachable while their reverse is unreachable. -/
def contradictoryFrom (ctx : ResolutionContext) (source : Nat) : Nat :=
  (ctx.ordered.row source).countP fun row =>
    row.flags.reachable && ctx.resolveOrdered source row.target == .reachable
      && ctx.resolveOrdered row.target source == .unreachable

/-- A loop that adds up one number for each source. -/
def sumOver (count : Nat) (f : Nat → Nat) : Nat := ((List.range count).map f).sum

/-- Every counter of the snapshot. -/
def counters (ctx : ResolutionContext) (count : Nat) (edges : List (Nat × Nat))
    (labels sizes : List Nat) : PairCounters :=
  let allPairs := count * (count - 1)
  let crossOrdered := allPairs - withinComponentPairs sizes
  let crossUnreachable := sumOver count (ctx.crossUnreachable count labels sizes)
  { orderedPairs := allPairs
    orderedReachable := sumOver count fun s => (ctx.tallySource count s).reachable
    orderedUnreachable := sumOver count fun s => (ctx.tallySource count s).unreachable
    orderedConflicting := sumOver count fun s => (ctx.tallySource count s).conflicting
    orderedStale := sumOver count fun s => (ctx.tallySource count s).stale
    orderedUnknown := sumOver count fun s => (ctx.tallySource count s).unknown
    orderedAsymmetric := sumOver count (ctx.asymmetricFrom count)
    orderedContradictory := sumOver count ctx.contradictoryFrom
    undirectedReachable := edges.length
    crossComponentOrdered := crossOrdered
    crossComponentUnreachable := crossUnreachable
    crossComponentIndeterminate := crossOrdered - crossUnreachable }

end ResolutionContext

/-! ## The snapshot -/

/-- `compute_evidence_digest`: a digest over the resolved edge set only. -/
def computeEvidenceDigest (topologyGeneration : TopologyGeneration) (components : List ComponentId)
    (edges : List (Nat × Nat)) : EvidenceSetDigest :=
  let hasher := ({} : Sha256).updateText
    (ascii "fabric-partition-manager/resolved-connectivity/v1")
  let hasher := hasher.updateBe64 topologyGeneration.value
  let hasher := hasher.updateBe64 (UInt64.ofNat components.length)
  let hasher := hasher.updateBe64 (UInt64.ofNat edges.length)
  ⟨(edges.foldl (fun h e => (h.updateText (components.getD e.1 .nil).text).updateText
    (components.getD e.2 .nil).text) hasher).finish⟩

/-- The closing explanations of a snapshot. -/
def snapshotReasons (reasons : List Reason) (confirmed : Bool) (counters : PairCounters)
    (limits : Limits) : List Reason :=
  let reasons :=
    if confirmed then
      appendReason reasons .partitionConfirmed (ascii "fabric")
        (ascii "every component-crossing ordered pair is proven unreachable") limits
    else
      appendReason reasons .partitionPartial (ascii "fabric")
        (decimal counters.crossComponentIndeterminate
          ++ ascii " component-crossing ordered pairs are not proven unreachable") limits
  let reasons :=
    if counters.orderedConflicting ≠ 0 then
      appendReason reasons .evidenceConflictingPairs (ascii "fabric")
        (decimal counters.orderedConflicting
          ++ ascii " ordered pairs carry contradictory observations") limits
    else reasons
  let reasons :=
    if counters.orderedStale ≠ 0 then
      appendReason reasons .evidenceStalePairs (ascii "fabric")
        (decimal counters.orderedStale
          ++ ascii " ordered pairs are covered only by expired observations") limits
    else reasons
  if counters.orderedAsymmetric ≠ 0 then
    appendReason reasons .evidenceAsymmetricPairs (ascii "fabric")
      (decimal counters.orderedAsymmetric
        ++ ascii " ordered pairs have a proven direction and an unobserved reverse") limits
  else reasons

/-- The age beyond which a policy lets evidence expire; zero when there is no policy. -/
def policyAge : Option PartitionPolicy → UInt64
  | some p => p.maxEvidenceAgeTicks
  | none => 0

/-- `build_reachability_snapshot`.  An absent policy weighs every component one and ages nothing. -/
def buildReachabilitySnapshot (roster : ComponentRoster) (evidence : List ReachabilityEvidence)
    (policy : Option PartitionPolicy) (nowTick : UInt64) (limits : Limits) :
    ReachabilitySnapshot :=
  if roster.set = false then
    { reasons := appendReason [] .subjectUnknown (ascii "roster")
        (ascii "no authoritative roster has been accepted") limits }
  else
    let count := roster.size
    let weights := match policy with
      | some p => roster.components.map p.weightOf
      | none => List.replicate count 1
    let voters := match policy with
      | some p => roster.components.map p.isVoter
      | none => List.replicate count false
    if count = 0 then
      { valid := true
        topologyGeneration := roster.generation
        components := roster.components
        weights := weights
        voters := voters
        reasons := appendReason [] .partitionRosterEmpty (ascii "roster")
          (ascii "the authoritative roster contains no components") limits }
    else
      let g := gather roster (policyAge policy) nowTick limits evidence
      let ctx := g.context count
      let reasons :=
        if g.coverageConflict then
          appendReason g.reasons .evidenceDuplicateCoverage (ascii "coverage")
            (ascii "two fresh bundles claim complete coverage of the same source component") limits
        else g.reasons
      let edges := ctx.provenEdges count
      let labels := componentLabels count edges
      let sizes := labelSizes count labels
      let counters := ctx.counters count edges labels sizes
      let confirmed := counters.crossComponentIndeterminate == 0
      { valid := true
        topologyGeneration := roster.generation
        reachabilityGeneration := g.reachabilityGeneration
        evidenceDigest := computeEvidenceDigest roster.generation roster.components edges
        components := roster.components
        weights := weights
        voters := voters
        edges := edges
        componentOf := labels
        componentSizes := sizes
        componentRepresentatives := labelRepresentatives count sizes
        counters := counters
        confirmed := confirmed
        completeCoverageConflict := g.coverageConflict
        anyEvidenceFresh := g.anyEvidenceFresh
        freshBundleCount := g.freshBundleCount
        staleBundleCount := g.staleBundleCount
        foreignBundleCount := g.foreignBundleCount
        contributingEvidence := g.contributingEvidence
        reasons := snapshotReasons reasons confirmed counters limits }

/-! ## The labels of a snapshot -/

/-- The entries of the representative table are indices the loop went over. -/
theorem representatives_lt {n : Nat} (is : List Nat) (his : ∀ i ∈ is, i < n) (sets : DisjointSet)
    (table : List (Option Nat)) (htable : ∀ k v, table.getD k none = some v → v < n) (k v : Nat)
    (h : (representatives is (sets, table)).2.getD k none = some v) : v < n := by
  induction is generalizing sets table with
  | nil => exact htable k v h
  | cons index rest ih =>
    have hrest : ∀ i ∈ rest, i < n := fun i hi => his i (List.mem_cons_of_mem _ hi)
    rw [representatives] at h
    dsimp only at h
    split at h
    · refine ih hrest _ _ ?_ h
      intro k' v' h'
      rw [List.getD_eq_getElem?_getD, List.getElem?_set] at h'
      split at h'
      · split at h'
        · have hv : index = v' := by simpa using h'
          rw [← hv]
          exact his index List.mem_cons_self
        · simp at h'
      · rw [← List.getD_eq_getElem?_getD] at h'
        exact htable k' v' h'
    · exact ih hrest _ _ htable h

theorem canonicalLabels_length (table : List (Option Nat)) (is : List Nat) (sets : DisjointSet) :
    (canonicalLabels table is sets).length = is.length := by
  induction is generalizing sets with
  | nil => rfl
  | cons index rest ih =>
    rw [canonicalLabels]
    exact congrArg (· + 1) (ih _)

theorem canonicalLabels_lt {n : Nat} (hn : 0 < n) {table : List (Option Nat)}
    (htable : ∀ k v, table.getD k none = some v → v < n) (is : List Nat) (sets : DisjointSet) :
    ∀ label ∈ canonicalLabels table is sets, label < n := by
  induction is generalizing sets with
  | nil => intro label h; cases h
  | cons index rest ih =>
    intro label h
    rw [canonicalLabels] at h
    rcases List.mem_cons.mp h with rfl | h
    · have hentry := htable (sets.find index).1
      change (table.getD (sets.find index).1 none).getD 0 < n
      cases hv : table.getD (sets.find index).1 none with
      | none => exact hn
      | some v => exact hentry v hv
    · exact ih _ label h

theorem componentLabels_length (count : Nat) (edges : List (Nat × Nat)) :
    (componentLabels count edges).length = count := by
  rw [componentLabels]
  dsimp only
  rw [canonicalLabels_length, List.length_range]

theorem componentLabels_lt {count : Nat} {edges : List (Nat × Nat)} {label : Nat}
    (h : label ∈ componentLabels count edges) : label < count := by
  have hcount : 0 < count := by
    have := List.length_pos_of_mem h
    rwa [componentLabels_length] at this
  rw [componentLabels] at h
  refine canonicalLabels_lt hcount ?_ _ _ label h
  intro k v hv
  refine representatives_lt (List.range count) (fun i hi => List.mem_range.mp hi) _ _ ?_ k v hv
  intro k v hkv
  simp [List.getD_eq_getElem?_getD, List.getElem?_replicate] at hkv
  split at hkv <;> simp at hkv

/-- **The labels of a snapshot are its representatives.** -/
theorem buildReachabilitySnapshot_labelled (roster : ComponentRoster)
    (evidence : List ReachabilityEvidence) (policy : Option PartitionPolicy) (nowTick : UInt64)
    (limits : Limits) :
    (buildReachabilitySnapshot roster evidence policy nowTick limits).Labelled := by
  rw [buildReachabilitySnapshot]
  split
  · exact ⟨List.nodup_nil, fun index h => absurd h (Nat.not_lt_zero _)⟩
  · dsimp only
    split
    · rename_i hcount
      refine ⟨List.nodup_nil, fun index h => ?_⟩
      exact absurd (hcount ▸ h : index < 0) (Nat.not_lt_zero _)
    · refine ⟨List.nodup_range.filter _, fun index h => ?_⟩
      generalize ResolutionContext.provenEdges _ roster.size = edges
      have hlen := componentLabels_length roster.size edges
      have hindex : index < (componentLabels roster.size edges).length := by
        rw [hlen]
        exact h
      have hmem : (componentLabels roster.size edges).getD index 0
          ∈ componentLabels roster.size edges := by
        rw [List.getD_eq_getElem?_getD, List.getElem?_eq_getElem hindex]
        exact List.getElem_mem hindex
      have hlt := componentLabels_lt hmem
      rw [labelRepresentatives, List.mem_filter]
      refine ⟨List.mem_range.mpr hlt, ?_⟩
      rw [labelSizes, List.getD_eq_getElem?_getD, List.getElem?_map, List.getElem?_range hlt]
      simpa using (List.count_pos_iff.mpr hmem).ne'

end FabricPartition
