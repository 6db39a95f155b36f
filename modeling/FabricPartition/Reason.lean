import FabricPartition.Identity
import FabricPartition.Limits

/-!
# Reasons

Every outcome carries an ordered, bounded list of reasons (`reason.hpp`).  A reason code is a
16-bit value with stable names: the decoders of the durable store cast whatever 16 bits they find,
so the type is the 16-bit value and the names are constants, those that a modelled function uses.

Texts are clipped to the configured bound on the way in (`assignBounded`), which is what makes a
reason built by `makeReason` always short enough to be read back.
-/

set_option autoImplicit false

namespace FabricPartition

/-- A stable reason code. -/
structure ReasonCode where
  /-- The wire value. -/
  value : UInt16
  deriving DecidableEq, Inhabited

namespace ReasonCode

def ok : ReasonCode := ⟨0⟩

def evidenceAccepted : ReasonCode := ⟨100⟩
def evidenceRejectedStale : ReasonCode := ⟨102⟩
def evidenceRejectedDuplicate : ReasonCode := ⟨103⟩
def evidenceRejectedRegression : ReasonCode := ⟨104⟩
def evidenceRejectedRetiredBoot : ReasonCode := ⟨105⟩
def evidenceRejectedLimit : ReasonCode := ⟨106⟩
def evidenceRejectedUnknownComponent : ReasonCode := ⟨107⟩
def evidenceRejectedFutureDated : ReasonCode := ⟨108⟩
def evidenceRejectedGeneration : ReasonCode := ⟨109⟩
def evidenceRejectedEmpty : ReasonCode := ⟨111⟩
def evidenceRejectedMalformed : ReasonCode := ⟨112⟩
def evidenceUnknownPairs : ReasonCode := ⟨120⟩
def evidenceConflictingPairs : ReasonCode := ⟨121⟩
def evidenceStalePairs : ReasonCode := ⟨122⟩
def evidenceAsymmetricPairs : ReasonCode := ⟨123⟩
def evidenceIncompleteCoverage : ReasonCode := ⟨125⟩
def evidenceDuplicateCoverage : ReasonCode := ⟨126⟩

def partitionConfirmed : ReasonCode := ⟨200⟩
def partitionPartial : ReasonCode := ⟨201⟩
def partitionDetected : ReasonCode := ⟨202⟩
def partitionRetired : ReasonCode := ⟨203⟩
def partitionMembershipCanonical : ReasonCode := ⟨204⟩
def partitionGenerationAdvanced : ReasonCode := ⟨205⟩
def partitionRosterEmpty : ReasonCode := ⟨210⟩

def authorityQuorumSatisfied : ReasonCode := ⟨300⟩
def authorityComponentsNotSatisfied : ReasonCode := ⟨301⟩
def authorityWeightNotSatisfied : ReasonCode := ⟨302⟩
def authorityVoterNotSatisfied : ReasonCode := ⟨303⟩
def authorityDowngradedUnknownEvidence : ReasonCode := ⟨304⟩
def authorityDowngradedPartialPartition : ReasonCode := ⟨305⟩
def authoritySplitBrainConflict : ReasonCode := ⟨306⟩
def authorityIsolated : ReasonCode := ⟨307⟩
def authorityObserveOnly : ReasonCode := ⟨308⟩
def authorityReadOnly : ReasonCode := ⟨309⟩
def authorityDegraded : ReasonCode := ⟨310⟩
def authorityDeniedFailClosed : ReasonCode := ⟨311⟩
def authorityRetained : ReasonCode := ⟨312⟩
def authorityInterruptedByRestart : ReasonCode := ⟨313⟩

def mergeAccepted : ReasonCode := ⟨400⟩
def mergeRejectedGenerationMismatch : ReasonCode := ⟨401⟩
def mergeRejectedLineageConflict : ReasonCode := ⟨402⟩
def mergeRejectedNotReachable : ReasonCode := ⟨403⟩
def mergeRejectedStaleEvidence : ReasonCode := ⟨404⟩
def mergeRejectedAuthorityConflict : ReasonCode := ⟨405⟩
def mergeRejectedIndeterminate : ReasonCode := ⟨406⟩
def mergeRejectedUnknownSubject : ReasonCode := ⟨407⟩
def mergeRejectedAlreadyMerged : ReasonCode := ⟨408⟩
def mergeRejectedPolicy : ReasonCode := ⟨409⟩
def mergeFencedPriorAuthority : ReasonCode := ⟨410⟩
def mergeNewLineageEstablished : ReasonCode := ⟨411⟩
def mergeInheritedLineage : ReasonCode := ⟨412⟩
def mergeRejectedDuplicate : ReasonCode := ⟨413⟩

def isolationApplied : ReasonCode := ⟨500⟩
def isolationRejectedUnknownSubject : ReasonCode := ⟨501⟩
def degradationApplied : ReasonCode := ⟨502⟩
def revalidationGranted : ReasonCode := ⟨510⟩
def revalidationDenied : ReasonCode := ⟨511⟩
def revalidationIndeterminate : ReasonCode := ⟨512⟩
def revalidationRequired : ReasonCode := ⟨513⟩

def restartEpochAdvanced : ReasonCode := ⟨600⟩
def restartIncarnationAdvanced : ReasonCode := ⟨601⟩
def restartAuthorityInterrupted : ReasonCode := ⟨602⟩
def restartEvidenceDropped : ReasonCode := ⟨603⟩
def restartFencesRetained : ReasonCode := ⟨604⟩
def restartLineageRetained : ReasonCode := ⟨605⟩
def restartAttemptSequenceRetained : ReasonCode := ⟨606⟩
def fenceIssued : ReasonCode := ⟨610⟩

def searchLimitReached : ReasonCode := ⟨700⟩
def indeterminateResult : ReasonCode := ⟨701⟩
def unsupportedRequest : ReasonCode := ⟨702⟩
def invalidRequest : ReasonCode := ⟨703⟩
def deterministicOrdering : ReasonCode := ⟨704⟩

def durableCommitAdvanced : ReasonCode := ⟨800⟩
def storeTornTailRecovered : ReasonCode := ⟨802⟩
def storeIntegrityFailure : ReasonCode := ⟨803⟩
def storeVersionUnsupported : ReasonCode := ⟨806⟩
def storeSequenceRegression : ReasonCode := ⟨807⟩
def storeTrailingGarbage : ReasonCode := ⟨808⟩
def storeIoFailure : ReasonCode := ⟨809⟩

def limitExceededReason : ReasonCode := ⟨900⟩
def arithmeticRefused : ReasonCode := ⟨901⟩
def capacityExhausted : ReasonCode := ⟨902⟩

def subjectOutOfScope : ReasonCode := ⟨1000⟩
def subjectUnknown : ReasonCode := ⟨1001⟩
def epochMismatchReason : ReasonCode := ⟨1002⟩
def bootMismatchReason : ReasonCode := ⟨1003⟩
def attemptDuplicate : ReasonCode := ⟨1005⟩
def attemptRegression : ReasonCode := ⟨1006⟩
def attemptUnknown : ReasonCode := ⟨1007⟩

end ReasonCode

/-- One explanation: a code, what it is about, and a bounded detail. -/
structure Reason where
  code : ReasonCode := .ok
  subject : Text := []
  detail : Text := []
  deriving DecidableEq

/-- `kTruncationMarker`. -/
def truncationMarker : Text := ascii "..."

/-- `assign_bounded`: clip a text to a bound, and mark the clip when there is room for the mark. -/
def assignBounded (text : Text) (bound : Nat) : Text :=
  if bound = 0 then []
  else if text.length ≤ bound then text
  else
    let keep := if bound > truncationMarker.length + 1 then bound - truncationMarker.length
      else bound
    let target := text.take (min keep text.length)
    if bound > truncationMarker.length ∧ target.length + truncationMarker.length ≤ bound then
      target ++ truncationMarker
    else target

/-- `make_reason`. -/
def makeReason (code : ReasonCode) (subject detail : Text) (limits : Limits) : Reason where
  code := code
  subject := assignBounded subject limits.maxTextBytes
  detail := assignBounded detail limits.maxTextBytes

/-- `append_reason`, which drops the reason once the list is full. -/
def appendReason (reasons : List Reason) (code : ReasonCode) (subject detail : Text)
    (limits : Limits) : List Reason :=
  if reasons.length ≥ limits.maxReasonsPerDecision then reasons
  else reasons ++ [makeReason code subject detail limits]

/-- `has_reason_code`. -/
def hasReasonCode (reasons : List Reason) (code : ReasonCode) : Bool :=
  reasons.any fun r => r.code == code

/-! ## Every built reason is bounded -/

/-- A reason whose texts respect the configured bound. -/
def Reason.Bounded (limits : Limits) (r : Reason) : Prop :=
  r.subject.length ≤ limits.maxTextBytes ∧ r.detail.length ≤ limits.maxTextBytes

/-- A list of bounded reasons that is itself within its bound. -/
structure BoundedReasons (limits : Limits) (reasons : List Reason) : Prop where
  count_le : reasons.length ≤ limits.maxReasonsPerDecision
  each : ∀ r ∈ reasons, r.Bounded limits

theorem assignBounded_length_le (text : Text) (bound : Nat) :
    (assignBounded text bound).length ≤ bound := by
  unfold assignBounded
  split
  · simp
  · split
    · assumption
    · dsimp only
      generalize hkeep : (if bound > truncationMarker.length + 1 then
        bound - truncationMarker.length else bound) = keep
      have hle : keep ≤ bound := by
        split at hkeep <;> omega
      split
      · rw [List.length_append]
        omega
      · rw [List.length_take]
        omega

theorem makeReason_bounded (code : ReasonCode) (subject detail : Text) (limits : Limits) :
    (makeReason code subject detail limits).Bounded limits :=
  ⟨assignBounded_length_le _ _, assignBounded_length_le _ _⟩

theorem BoundedReasons.nil (limits : Limits) : BoundedReasons limits [] :=
  ⟨Nat.zero_le _, by simp⟩

theorem BoundedReasons.append {limits : Limits} {reasons : List Reason}
    (h : BoundedReasons limits reasons) (code : ReasonCode) (subject detail : Text) :
    BoundedReasons limits (appendReason reasons code subject detail limits) := by
  unfold appendReason
  split
  · exact h
  · refine ⟨?_, ?_⟩
    · rw [List.length_append, List.length_singleton]
      omega
    · intro r hr
      rcases List.mem_append.mp hr with hr | hr
      · exact h.each r hr
      · rw [List.mem_singleton.mp hr]
        exact makeReason_bounded _ _ _ _

end FabricPartition
