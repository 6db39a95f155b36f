import FabricPartition.Accounting
import FabricPartition.Replay

/-!
# Refused evidence

`EvidenceLedger::accept` writes to its tables one after the other, and two of its refusals stand
between the writes: the table of retired boots is extended before the one of cursors is found to be
full.  `acceptInOrder` makes the writes and the refusals in the order of the source, and is `accept`
(`acceptInOrder_eq`).  No refusal follows a write: a boot is retired only for a publisher that has a
cursor, and a cursor is refused only to a publisher that has none (`acceptInOrder_atomic`).
-/

set_option autoImplicit false

namespace FabricPartition

namespace EvidenceLedger

/-- A step of `accept` after its checks: a refusal perhaps, and the ledger as it has been written. -/
abbrev Written := Option EvidenceRefusal × EvidenceLedger

/-- The boot that the publisher's cursor names is retired, if the bundle comes from another one. -/
def retireBoot (ledger : EvidenceLedger) (cursor : Option PublisherCursor)
    (evidence : ReachabilityEvidence) : Written :=
  match cursor with
  | none => (none, ledger)
  | some c =>
    if c.boot = evidence.publisherBoot then (none, ledger)
    else if ledger.retiredBoots.length ≥ ledger.limits.maxRetainedEvidence then
      (some ⟨.rejectedLimit, .capacityExhausted, evidence.publisher.text,
        "the retired publisher incarnation table is full"⟩, ledger)
    else (none, { ledger with retiredBoots := ledger.retiredBoots ++ [c.boot] })

/-- The loop over the cursors, and the new one if it has updated none. -/
def moveCursor (ledger : EvidenceLedger) (evidence : ReachabilityEvidence) : Written :=
  if ledger.cursors.any fun c => c.publisher == evidence.publisher then
    (none, { ledger with cursors := advanceCursor evidence ledger.cursors })
  else if ledger.cursors.length ≥ ledger.limits.maxRetainedEvidence then
    (some ⟨.rejectedLimit, .capacityExhausted, evidence.publisher.text,
      "the publisher cursor table is full"⟩, ledger)
  else
    (none, { ledger with
      cursors := ledger.cursors ++
        [⟨evidence.publisher, evidence.publisherBoot, evidence.sequence, 1⟩] })

/-- The last writes: the generation, the bytes and the bundle. -/
def retain (ledger : EvidenceLedger) (evidence : ReachabilityEvidence) (projected : Nat) :
    EvidenceLedger :=
  { ledger with
    highestGeneration :=
      if evidence.generation.value > ledger.highestGeneration.value then evidence.generation
      else ledger.highestGeneration
    retainedBytes := projected
    retained := ledger.retained ++ [storedForm evidence] }

/-- `EvidenceLedger::accept`, write by write. -/
def acceptInOrder (ledger : EvidenceLedger) (evidence : ReachabilityEvidence)
    (roster : ComponentRoster) (policy : PartitionPolicy) (nowTick : UInt64) :
    EvidenceAcceptance × EvidenceLedger :=
  match ledger.examine evidence roster policy nowTick with
  | some refusal => (ledger.reject (emptyAcceptance evidence) refusal, ledger)
  | none =>
    let result := { emptyAcceptance evidence with
      duplicateObservationDropped :=
        (storedForm evidence).observations.length != evidence.observations.length }
    let projected := (ledger.projectedBytes evidence).getD ledger.retainedBytes
    match ledger.retireBoot (ledger.findCursor evidence.publisher) evidence with
    | (some refusal, ledger) => (ledger.reject result refusal, ledger)
    | (none, ledger) =>
      match ledger.moveCursor evidence with
      | (some refusal, ledger) => (ledger.reject result refusal, ledger)
      | (none, ledger) =>
        ({ result with
            status := .accepted
            reasons := appendReason result.reasons .evidenceAccepted evidence.id.text
              (ascii "observation accepted into the live evidence ledger") ledger.limits },
          ledger.retain evidence projected)

theorem any_publisher (ledger : EvidenceLedger) (publisher : PublisherId) :
    (ledger.cursors.any fun c => c.publisher == publisher)
      = (ledger.findCursor publisher).isSome := by
  rw [findCursor, Bool.eq_iff_iff, List.find?_isSome, List.any_eq_true]

/-- **A refused step has written nothing**, and a boot is retired only where there is a cursor. -/
theorem retireBoot_refused {ledger ledger' : EvidenceLedger} {cursor : Option PublisherCursor}
    {evidence : ReachabilityEvidence} {refusal : EvidenceRefusal}
    (h : ledger.retireBoot cursor evidence = (some refusal, ledger')) : ledger' = ledger := by
  rcases cursor with _ | c
  · cases h
  · rw [retireBoot] at h
    split at h
    · cases h
    · split at h
      · exact (Prod.mk.inj h).2.symm
      · cases h

theorem retireBoot_cursors {ledger ledger' : EvidenceLedger} {cursor : Option PublisherCursor}
    {evidence : ReachabilityEvidence} {refusal : Option EvidenceRefusal}
    (h : ledger.retireBoot cursor evidence = (refusal, ledger')) :
    ledger'.cursors = ledger.cursors := by
  rcases cursor with _ | c
  · cases h
    rfl
  · rw [retireBoot] at h
    split at h
    · cases h
      rfl
    · split at h <;>
      · cases h
        rfl

/-- **A cursor is refused only to a publisher that has none.** -/
theorem moveCursor_refused {ledger ledger' : EvidenceLedger} {evidence : ReachabilityEvidence}
    {refusal : EvidenceRefusal} (h : ledger.moveCursor evidence = (some refusal, ledger')) :
    ledger' = ledger ∧ ledger.findCursor evidence.publisher = none := by
  rw [moveCursor, any_publisher] at h
  split at h
  · cases h
  · rename_i hnone
    split at h
    · exact ⟨(Prod.mk.inj h).2.symm, by simpa using hnone⟩
    · cases h

/-- **Refusing evidence is atomic**: whatever the status that is not acceptance, no table has
changed. -/
theorem acceptInOrder_atomic (ledger : EvidenceLedger) (evidence : ReachabilityEvidence)
    (roster : ComponentRoster) (policy : PartitionPolicy) (nowTick : UInt64)
    (h : (ledger.acceptInOrder evidence roster policy nowTick).1.status ≠ .accepted) :
    (ledger.acceptInOrder evidence roster policy nowTick).2 = ledger := by
  rw [acceptInOrder] at h ⊢
  rcases hexamine : ledger.examine evidence roster policy nowTick with _ | refusal
  · rw [hexamine] at h
    dsimp only at h ⊢
    rcases hretire : ledger.retireBoot (ledger.findCursor evidence.publisher) evidence with
      ⟨_ | refusal, first⟩
    · rw [hretire] at h
      dsimp only at h ⊢
      rcases hmove : first.moveCursor evidence with ⟨_ | refusal, second⟩
      · rw [hmove] at h
        exact absurd rfl h
      · -- the publisher has no cursor, so that no boot was retired
        obtain ⟨rfl, hnone⟩ := moveCursor_refused hmove
        rw [findCursor, retireBoot_cursors hretire, ← findCursor] at hnone
        rw [hnone] at hretire
        exact (Prod.mk.inj hretire).2.symm
    · exact retireBoot_refused hretire
  · rfl

/-- The writes, in their order, are those of `accept`. -/
theorem acceptInOrder_eq (ledger : EvidenceLedger) (evidence : ReachabilityEvidence)
    (roster : ComponentRoster) (policy : PartitionPolicy) (nowTick : UInt64) :
    ledger.acceptInOrder evidence roster policy nowTick
      = ledger.accept evidence roster policy nowTick := by
  rw [acceptInOrder, accept]
  rcases ledger.examine evidence roster policy nowTick with _ | refusal
  · dsimp only
    have hany := ledger.any_publisher evidence.publisher
    rcases hcursor : ledger.findCursor evidence.publisher with _ | c
    · -- a publisher without a cursor: no boot is retired, and a cursor is added
      rw [hcursor, Option.isSome_none] at hany
      simp only [retireBoot, moveCursor, hany, replacesBoot, Option.any_none, Bool.false_and,
        Bool.false_eq_true, if_false, Option.isNone_none, Bool.true_and, decide_eq_true_eq,
        Option.isSome_none]
      by_cases hfull : ledger.cursors.length ≥ ledger.limits.maxRetainedEvidence
      · rw [if_pos hfull, if_pos hfull]
      · rw [if_neg hfull, if_neg hfull]
        rfl
    · rw [hcursor, Option.isSome_some] at hany
      by_cases hboot : c.boot = evidence.publisherBoot
      · simp only [retireBoot, moveCursor, hany, replacesBoot, hboot, if_true, Option.any_some,
          bne_self_eq_false, Bool.false_and, Bool.false_eq_true, if_false, Option.isNone_some,
          Option.isSome_some, retain]
      · have hne : (c.boot != evidence.publisherBoot) = true := bne_iff_ne.mpr hboot
        by_cases hfull : ledger.retiredBoots.length ≥ ledger.limits.maxRetainedEvidence
        · simp only [retireBoot, replacesBoot, hboot, if_false, hfull, if_true, Option.any_some, hne,
            decide_true, Bool.and_self]
        · simp only [retireBoot, moveCursor, hany, replacesBoot, hboot, if_false, hfull, if_true,
            Option.any_some, hne, decide_false, Bool.and_false, Bool.false_eq_true,
            Option.isNone_some, Bool.false_and, Option.isSome_some, retain]
  · rfl

/-- A ledger with room for one publisher, which is another one. -/
def takenLedger : EvidenceLedger where
  limits := { maxRetainedEvidence := 1 }
  cursors := [⟨TextId.fromValidated (ascii "other") (by decide), default, ⟨4⟩, 1⟩]

/-- The publisher finds no room, after the point where boots are retired. -/
theorem cursor_table_full_atomic :
    (takenLedger.acceptInOrder pairEvidence pairRoster (defaultPolicy ⟨1⟩) 0).1.status ≠ .accepted ∧
      (takenLedger.acceptInOrder pairEvidence pairRoster (defaultPolicy ⟨1⟩) 0).2 = takenLedger := by
  have hrefused : (takenLedger.acceptInOrder pairEvidence pairRoster (defaultPolicy ⟨1⟩) 0).1.status
      ≠ .accepted := by
    decide +kernel
  exact ⟨hrefused, acceptInOrder_atomic takenLedger pairEvidence pairRoster (defaultPolicy ⟨1⟩) 0
    hrefused⟩

end EvidenceLedger

end FabricPartition
