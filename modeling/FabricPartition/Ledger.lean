import FabricPartition.Evidence
import FabricPartition.Lib.Sorted
import FabricPartition.Policy
import Mathlib.Data.List.Destutter
import Mathlib.Data.Prod.Lex

/-!
# The evidence ledger

`EvidenceLedger` of `evidence.hpp`: what a bundle must satisfy to be retained, and the form in which
it is then stored.  A refusal is examined before anything is written — the chain of checks of
`accept` is `examine`, a pure function of the ledger — except for the two table bounds at the end,
which stand where the source has them.

The one result here is the contract the reachability resolution relies on: **every bundle the ledger
retains is in `LedgerForm`** (`accept_ledgerForm`), so nothing downstream meets a self observation,
an unknown value, a repeated observation, a repeated source or a component outside the roster.
-/

set_option autoImplicit false

namespace FabricPartition

/-- Why a bundle was, or was not, accepted. -/
inductive EvidenceAcceptanceStatus
  | accepted | rejectedEmpty | rejectedMalformed | rejectedUnknownComponent | rejectedFutureDated
  | rejectedStale | rejectedDuplicate | rejectedRegression | rejectedRetiredBoot | rejectedLimit
  | rejectedGeneration | rejectedUnsupported
  deriving DecidableEq

/-- The answer of the ledger. -/
structure EvidenceAcceptance where
  status : EvidenceAcceptanceStatus := .rejectedMalformed
  id : EvidenceId
  publisher : PublisherId
  sequence : EvidenceSequence
  duplicateObservationDropped : Bool := false
  reasons : List Reason := []
  deriving DecidableEq

/-- What the ledger remembers of a publisher. -/
structure PublisherCursor where
  publisher : PublisherId
  boot : PublisherBootId
  lastSequence : EvidenceSequence
  acceptedBundles : Nat := 0
  deriving DecidableEq

/-- The live evidence. -/
structure EvidenceLedger where
  limits : Limits
  retained : List ReachabilityEvidence := []
  cursors : List PublisherCursor := []
  retiredBoots : List PublisherBootId := []
  retainedBytes : Nat := 0
  highestGeneration : ReachabilityGeneration := .zero
  deriving DecidableEq

/-- The arguments of a rejection. -/
structure EvidenceRefusal where
  status : EvidenceAcceptanceStatus
  code : ReasonCode
  subject : Text
  detail : String
  deriving DecidableEq

/-- `evidence_canonical_size`: a bound on the canonical byte image, in checked arithmetic. -/
def evidenceCanonicalSize (evidence : ReachabilityEvidence) : Option Nat := do
  let total ← checkedSizeAdd 0 4
  let total ← checkedSizeAdd total evidence.id.text.length
  let total ← checkedSizeAdd total 4
  let total ← checkedSizeAdd total evidence.publisher.text.length
  let total ← checkedSizeAdd total (8 * 5 + 16 + 1 + 4)
  let total ← checkedSizeAdd total 4
  let total ← checkedSizeAdd total evidence.provenance.text.length
  let total ← checkedSizeAdd total 4
  let covered ← checkedSizeMul evidence.coveredSources.length 100
  let total ← checkedSizeAdd total covered
  let observations ← checkedSizeMul evidence.observations.length 201
  checkedSizeAdd total observations

/-! ## Canonical order of the observations -/

/-- The comparison of the observation sort: source, then target, then value. -/
def LinkObservation.le (lhs rhs : LinkObservation) : Bool :=
  if lhs.source ≠ rhs.source then lhs.source < rhs.source
  else if lhs.target ≠ rhs.target then lhs.target < rhs.target
  else lhs.value.value ≤ rhs.value.value

/-- The triple the comparison is lexicographic in. -/
def LinkObservation.key (o : LinkObservation) : ComponentId ×ₗ (ComponentId ×ₗ Nat) :=
  toLex (o.source, toLex (o.target, o.value.value))

theorem LinkObservation.le_iff {lhs rhs : LinkObservation} :
    lhs.le rhs = true ↔ lhs.key ≤ rhs.key := by
  simp only [le, key, Prod.Lex.toLex_le_toLex]
  by_cases hs : lhs.source = rhs.source
  · by_cases ht : lhs.target = rhs.target
    · simp [hs, ht]
    · simp [hs, ht]
  · simp [hs]

theorem LinkObservation.key_injective : Function.Injective LinkObservation.key := by
  intro a b h
  have hvalue : ∀ v w : Reachability, v.value = w.value → v = w := by
    intro v w h
    cases v <;> cases w <;> first | rfl | cases h
  cases a
  cases b
  simp only [key, EmbeddingLike.apply_eq_iff_eq, Prod.mk.injEq] at h
  obtain ⟨rfl, rfl, hv⟩ := h
  rw [hvalue _ _ hv]

instance : Std.Total fun a b : LinkObservation => a.le b = true :=
  ⟨fun a b => by simpa only [LinkObservation.le_iff] using le_total a.key b.key⟩

instance : IsTrans LinkObservation fun a b => a.le b = true :=
  ⟨fun a b c => by simpa only [LinkObservation.le_iff] using fun h => le_trans h⟩

/-- `std::sort` and `std::unique` over the observations of a bundle. -/
def canonicalObservations (observations : List LinkObservation) : List LinkObservation :=
  (observations.insertionSort fun lhs rhs => lhs.le rhs = true).destutter (· ≠ ·)

namespace EvidenceLedger

/-- The loop over the sorted coverage claim: the first source that is not in the roster or repeats
its predecessor. -/
def coveredRefusal (roster : ComponentRoster) : Option ComponentId → List ComponentId →
    Option EvidenceRefusal
  | _, [] => none
  | previous, c :: rest =>
    if !roster.contains c then
      some ⟨.rejectedUnknownComponent, .evidenceRejectedUnknownComponent, c.text,
        "covered source is not a member of the authoritative roster"⟩
    else if previous = some c then
      some ⟨.rejectedMalformed, .evidenceRejectedMalformed, c.text,
        "the coverage claim repeats the same source"⟩
    else coveredRefusal roster (some c) rest

/-- The checks made on each observation. -/
def observationRefusal (roster : ComponentRoster) (o : LinkObservation) : Option EvidenceRefusal :=
  if o.source = o.target then
    some ⟨.rejectedMalformed, .evidenceRejectedMalformed, o.source.text,
      "an observation of a component against itself is invalid"⟩
  else if o.value ≠ .reachable ∧ o.value ≠ .unreachable then
    some ⟨.rejectedMalformed, .evidenceRejectedMalformed, o.source.text,
      "an explicit observation must be reachable or unreachable"⟩
  else if !roster.contains o.source then
    some ⟨.rejectedUnknownComponent, .evidenceRejectedUnknownComponent, o.source.text,
      "observation source is not a member of the authoritative roster"⟩
  else if !roster.contains o.target then
    some ⟨.rejectedUnknownComponent, .evidenceRejectedUnknownComponent, o.target.text,
      "observation target is not a member of the authoritative roster"⟩
  else none

/-- `EvidenceLedger::find_cursor`. -/
def findCursor (ledger : EvidenceLedger) (publisher : PublisherId) : Option PublisherCursor :=
  ledger.cursors.find? fun cursor => cursor.publisher == publisher

/-- The checks on the bundle's own header. -/
def headerRefusal (ledger : EvidenceLedger) (evidence : ReachabilityEvidence)
    (roster : ComponentRoster) (nowTick : UInt64) : Option EvidenceRefusal :=
  if evidence.id.isNil || evidence.publisher.isNil then
    some ⟨.rejectedMalformed, .evidenceRejectedMalformed, evidence.id.text,
      "evidence id and publisher id are both required"⟩
  else if evidence.validityTicks = 0 then
    some ⟨.rejectedMalformed, .evidenceRejectedMalformed, evidence.id.text,
      "a validity horizon of zero ticks is not a usable observation"⟩
  else if evidence.observations.length > ledger.limits.maxObservationsPerEvidence then
    some ⟨.rejectedLimit, .evidenceRejectedLimit, evidence.id.text,
      "observation count exceeds the configured bound"⟩
  else if evidence.coveredSources.length > ledger.limits.maxCoveredComponentsPerEvidence then
    some ⟨.rejectedLimit, .evidenceRejectedLimit, evidence.id.text,
      "covered source count exceeds the configured bound"⟩
  else
    match evidenceCanonicalSize evidence with
    | none =>
      some ⟨.rejectedLimit, .arithmeticRefused, evidence.id.text,
        "canonical size computation overflowed"⟩
    | some canonicalSize =>
      if canonicalSize > ledger.limits.maxEvidenceBytes then
        some ⟨.rejectedLimit, .evidenceRejectedLimit, evidence.id.text,
          "canonical evidence size exceeds the configured bound"⟩
      else if evidence.observations.isEmpty && evidence.coveredSources.isEmpty then
        some ⟨.rejectedEmpty, .evidenceRejectedEmpty, evidence.id.text,
          "the bundle carries no observation and no coverage claim"⟩
      else if evidence.topologyGeneration ≠ roster.generation then
        some ⟨.rejectedGeneration, .evidenceRejectedGeneration, evidence.id.text,
          "evidence was observed against a different topology generation"⟩
      else if evidence.observedAtTick > nowTick then
        some ⟨.rejectedFutureDated, .evidenceRejectedFutureDated, evidence.id.text,
          "observation tick is in the future relative to the runtime clock"⟩
      else none

/-- The checks on the coverage claim as a whole. -/
def completenessRefusal (evidence : ReachabilityEvidence) : Option EvidenceRefusal :=
  if evidence.completeness = .partialCoverage ∧ evidence.coveredSources ≠ [] then
    some ⟨.rejectedMalformed, .evidenceRejectedMalformed, evidence.id.text,
      "a partial bundle must not carry a coverage claim"⟩
  else if evidence.completeness = .complete ∧ evidence.coveredSources = [] then
    some ⟨.rejectedMalformed, .evidenceRejectedMalformed, evidence.id.text,
      "a complete bundle must name the sources it covered"⟩
  else none

/-- The checks against what the ledger remembers of the publisher. -/
def publisherRefusal (ledger : EvidenceLedger) (evidence : ReachabilityEvidence) :
    Option EvidenceRefusal :=
  if ledger.retiredBoots.contains evidence.publisherBoot then
    some ⟨.rejectedRetiredBoot, .evidenceRejectedRetiredBoot, evidence.publisher.text,
      "the publisher incarnation that produced this evidence has been retired"⟩
  else
    match ledger.findCursor evidence.publisher with
    | none => none
    | some cursor =>
      if cursor.boot ≠ evidence.publisherBoot then none
      else if evidence.sequence = cursor.lastSequence then
        some ⟨.rejectedDuplicate, .evidenceRejectedDuplicate, evidence.publisher.text,
          "the publisher sequence has already been accepted"⟩
      else if evidence.sequence.value < cursor.lastSequence.value then
        some ⟨.rejectedRegression, .evidenceRejectedRegression, evidence.publisher.text,
          "the publisher sequence regressed"⟩
      else none

/-- `retained_bytes_` with the bundle added, if that stays within the budget. -/
def projectedBytes (ledger : EvidenceLedger) (evidence : ReachabilityEvidence) : Option Nat := do
  let canonicalSize ← evidenceCanonicalSize evidence
  let projected ← checkedSizeAdd ledger.retainedBytes canonicalSize
  if projected > ledger.limits.maxEvidenceBytes then none else some projected

/-- The checks on the retained table and on the age of the bundle. -/
def retentionRefusal (ledger : EvidenceLedger) (evidence : ReachabilityEvidence)
    (policy : PartitionPolicy) (nowTick : UInt64) : Option EvidenceRefusal :=
  if ledger.retained.length ≥ ledger.limits.maxRetainedEvidence then
    some ⟨.rejectedLimit, .evidenceRejectedLimit, evidence.id.text,
      "the retained evidence table is full"⟩
  else if (ledger.projectedBytes evidence).isNone then
    some ⟨.rejectedLimit, .evidenceRejectedLimit, evidence.id.text,
      "the retained evidence budget is exhausted"⟩
  else
    let horizon := policy.maxEvidenceAgeTicks
    let effective := if horizon = 0 ∨ horizon > evidence.validityTicks then evidence.validityTicks
      else horizon
    if nowTick - evidence.observedAtTick > effective then
      some ⟨.rejectedStale, .evidenceRejectedStale, evidence.id.text,
        "the bundle is already outside its freshness horizon"⟩
    else none

/-- The checks `accept` makes before it changes anything, in its order. -/
def examine (ledger : EvidenceLedger) (evidence : ReachabilityEvidence) (roster : ComponentRoster)
    (policy : PartitionPolicy) (nowTick : UInt64) : Option EvidenceRefusal :=
  (ledger.headerRefusal evidence roster nowTick).or <|
  (coveredRefusal roster none (sortedComponents evidence.coveredSources)).or <|
  (completenessRefusal evidence).or <|
  (evidence.observations.findSome? (observationRefusal roster)).or <|
  (ledger.publisherRefusal evidence).or <|
  ledger.retentionRefusal evidence policy nowTick

/-- The answer before any check: everything but the status and the reasons. -/
def emptyAcceptance (evidence : ReachabilityEvidence) : EvidenceAcceptance where
  id := evidence.id
  publisher := evidence.publisher
  sequence := evidence.sequence

/-- The `reject` lambda. -/
def reject (ledger : EvidenceLedger) (result : EvidenceAcceptance) (refusal : EvidenceRefusal) :
    EvidenceAcceptance :=
  { result with
    status := refusal.status
    reasons := appendReason result.reasons refusal.code refusal.subject (ascii refusal.detail)
      ledger.limits }

/-- The bundle as it is stored: sources sorted, observations sorted and without repetition. -/
def storedForm (evidence : ReachabilityEvidence) : ReachabilityEvidence :=
  { evidence with
    coveredSources := sortedComponents evidence.coveredSources
    observations := canonicalObservations evidence.observations }

/-- Does the bundle come from another boot of its publisher than the one on record? -/
def replacesBoot (cursor : Option PublisherCursor) (evidence : ReachabilityEvidence) : Bool :=
  cursor.any fun c => c.boot != evidence.publisherBoot

/-- The publisher's cursor, moved to the bundle. -/
def advanceCursor (evidence : ReachabilityEvidence) : List PublisherCursor → List PublisherCursor
  | [] => []
  | c :: rest =>
    if c.publisher = evidence.publisher then
      { c with
        boot := evidence.publisherBoot
        lastSequence := evidence.sequence
        acceptedBundles := c.acceptedBundles + 1 } :: rest
    else c :: advanceCursor evidence rest

/-- `EvidenceLedger::accept`. -/
def accept (ledger : EvidenceLedger) (evidence : ReachabilityEvidence) (roster : ComponentRoster)
    (policy : PartitionPolicy) (nowTick : UInt64) : EvidenceAcceptance × EvidenceLedger :=
  match ledger.examine evidence roster policy nowTick with
  | some refusal => (ledger.reject (emptyAcceptance evidence) refusal, ledger)
  | none =>
    let cursor := ledger.findCursor evidence.publisher
    let stored := storedForm evidence
    let result := { emptyAcceptance evidence with
      duplicateObservationDropped := stored.observations.length != evidence.observations.length }
    if replacesBoot cursor evidence
        && decide (ledger.retiredBoots.length ≥ ledger.limits.maxRetainedEvidence) then
      (ledger.reject result ⟨.rejectedLimit, .capacityExhausted, evidence.publisher.text,
        "the retired publisher incarnation table is full"⟩, ledger)
    else
      let retiredBoots := match cursor with
        | some c =>
          if c.boot != evidence.publisherBoot then ledger.retiredBoots ++ [c.boot]
          else ledger.retiredBoots
        | none => ledger.retiredBoots
      if cursor.isNone && decide (ledger.cursors.length ≥ ledger.limits.maxRetainedEvidence) then
        (ledger.reject result ⟨.rejectedLimit, .capacityExhausted, evidence.publisher.text,
          "the publisher cursor table is full"⟩, { ledger with retiredBoots := retiredBoots })
      else
        let cursors := if cursor.isSome then advanceCursor evidence ledger.cursors
          else ledger.cursors ++
            [⟨evidence.publisher, evidence.publisherBoot, evidence.sequence, 1⟩]
        ({ result with
            status := .accepted
            reasons := appendReason result.reasons .evidenceAccepted evidence.id.text
              (ascii "observation accepted into the live evidence ledger") ledger.limits },
          { ledger with
            retained := ledger.retained ++ [stored]
            cursors := cursors
            retiredBoots := retiredBoots
            retainedBytes := (ledger.projectedBytes evidence).getD ledger.retainedBytes
            highestGeneration :=
              if evidence.generation.value > ledger.highestGeneration.value then evidence.generation
              else ledger.highestGeneration })

/-- `EvidenceLedger::drop_dynamic_state`. -/
def dropDynamicState (ledger : EvidenceLedger) : EvidenceLedger := { limits := ledger.limits }

end EvidenceLedger

/-! ## The form of what is retained -/

/-- The form in which the ledger stores a bundle. -/
structure LedgerForm (roster : ComponentRoster) (b : ReachabilityEvidence) : Prop where
  noSelf : ∀ o ∈ b.observations, o.source ≠ o.target
  explicitValue : ∀ o ∈ b.observations, o.value = .reachable ∨ o.value = .unreachable
  observations_nodup : b.observations.Nodup
  covered_nodup : b.coveredSources.Nodup
  observed_mem : ∀ o ∈ b.observations,
    o.source ∈ roster.components ∧ o.target ∈ roster.components
  covered_mem : ∀ c ∈ b.coveredSources, c ∈ roster.components

theorem mem_of_mem_canonicalObservations {observations : List LinkObservation}
    {o : LinkObservation} (h : o ∈ canonicalObservations observations) : o ∈ observations := by
  have h' := (List.destutter_sublist _ _).subset h
  simpa only [List.mem_insertionSort] using h'

theorem canonicalObservations_nodup (observations : List LinkObservation) :
    (canonicalObservations observations).Nodup := by
  have hsorted : (canonicalObservations observations).Pairwise fun a b => a.le b = true :=
    (List.pairwise_insertionSort _ observations).sublist (List.destutter_sublist _ _)
  have hchain : (canonicalObservations observations).IsChain (· ≠ ·) :=
    List.isChain_destutter _ _
  have hkey : SortedList.SortedBy LinkObservation.key (canonicalObservations observations) :=
    hsorted.imp LinkObservation.le_iff.mp
  -- Sorted and without equal neighbours is strictly sorted, hence without repetition.
  have hlt := hkey.pairwise_lt (hchain.imp fun a b hne h => hne (LinkObservation.key_injective h))
  exact hlt.imp fun h hab => absurd (congrArg LinkObservation.key hab) (ne_of_lt h)

theorem coveredRefusal_eq_none {roster : ComponentRoster} :
    ∀ {covered : List ComponentId} {previous : Option ComponentId},
      EvidenceLedger.coveredRefusal roster previous covered = none →
        (∀ c ∈ covered, c ∈ roster.components) ∧
          (∀ p ∈ previous, ∀ c ∈ covered.head?, c ≠ p) ∧ covered.IsChain (· ≠ ·)
  | [], previous, _ => by simp
  | c :: rest, previous, h => by
    rw [EvidenceLedger.coveredRefusal] at h
    split at h
    · cases h
    · rename_i hmem
      split at h
      · cases h
      · rename_i hprev
        obtain ⟨hin, hhead, hchain⟩ := coveredRefusal_eq_none h
        refine ⟨?_, ?_, ?_⟩
        · intro x hx
          rcases List.mem_cons.mp hx with rfl | hx
          · simpa [ComponentRoster.contains] using hmem
          · exact hin x hx
        · rintro p hp x hx rfl
          simp only [List.head?_cons, Option.mem_some_iff] at hx
          subst hx
          exact hprev (Option.mem_def.mp hp)
        · cases rest with
          | nil => exact List.isChain_singleton c
          | cons d rest =>
            refine List.isChain_cons_cons.mpr ⟨?_, hchain⟩
            exact fun hcd => hhead c rfl d rfl hcd.symm

theorem observationRefusal_eq_none {roster : ComponentRoster} {o : LinkObservation}
    (h : EvidenceLedger.observationRefusal roster o = none) :
    o.source ≠ o.target ∧ (o.value = .reachable ∨ o.value = .unreachable) ∧
      o.source ∈ roster.components ∧ o.target ∈ roster.components := by
  simp only [EvidenceLedger.observationRefusal] at h
  split at h
  · cases h
  · rename_i hself
    split at h
    · cases h
    · rename_i hvalue
      split at h
      · cases h
      · rename_i hsource
        split at h
        · cases h
        · rename_i htarget
          refine ⟨hself, ?_, ?_, ?_⟩
          · by_cases hr : o.value = .reachable
            · exact .inl hr
            · exact .inr (by_contra fun hu => hvalue ⟨hr, hu⟩)
          · simpa [ComponentRoster.contains] using hsource
          · simpa [ComponentRoster.contains] using htarget

/-- A bundle that passed every check is in ledger form once it is stored. -/
theorem storedForm_ledgerForm {ledger : EvidenceLedger} {evidence : ReachabilityEvidence}
    {roster : ComponentRoster} {policy : PartitionPolicy} {nowTick : UInt64}
    (h : ledger.examine evidence roster policy nowTick = none) :
    LedgerForm roster (EvidenceLedger.storedForm evidence) := by
  simp only [EvidenceLedger.examine, Option.or_eq_none_iff, List.findSome?_eq_none_iff] at h
  obtain ⟨-, hcovered, -, hobs, -⟩ := h
  obtain ⟨hcmem, -, hchain⟩ := coveredRefusal_eq_none hcovered
  have hobs' : ∀ o ∈ canonicalObservations evidence.observations, _ := fun o ho =>
    observationRefusal_eq_none (hobs o (mem_of_mem_canonicalObservations ho))
  have hsorted : (sortedComponents evidence.coveredSources).Pairwise (· ≤ ·) :=
    List.pairwise_insertionSort _ _
  have hlt : (sortedComponents evidence.coveredSources).Pairwise (· < ·) :=
    @SortedList.SortedBy.pairwise_lt _ _ _ id _ hsorted hchain
  exact
    { noSelf := fun o ho => (hobs' o ho).1
      explicitValue := fun o ho => (hobs' o ho).2.1
      observations_nodup := canonicalObservations_nodup _
      covered_nodup := hlt.imp fun h => ne_of_lt h
      observed_mem := fun o ho => (hobs' o ho).2.2
      covered_mem := hcmem }

/-- **The ledger only retains bundles in ledger form.** -/
theorem accept_ledgerForm {ledger : EvidenceLedger} {roster : ComponentRoster}
    (hledger : ∀ b ∈ ledger.retained, LedgerForm roster b) (evidence : ReachabilityEvidence)
    (policy : PartitionPolicy) (nowTick : UInt64) :
    ∀ b ∈ (ledger.accept evidence roster policy nowTick).2.retained, LedgerForm roster b := by
  rw [EvidenceLedger.accept]
  split
  · exact hledger
  · rename_i hexamine
    dsimp only
    split
    · exact hledger
    · split
      · exact hledger
      · intro b hb
        rcases List.mem_append.mp hb with hb | hb
        · exact hledger b hb
        · rw [List.mem_singleton.mp hb]
          exact storedForm_ledgerForm hexamine

end FabricPartition
