import Mathlib.Algebra.Order.BigOperators.Ring.Finset

/-!
# Limits

The bounds a runtime instance enforces (`limits.hpp`).  They are captured at construction and a
caller may choose any values, so every theorem of the development is about arbitrary limits; only
the audit encoder of `encode_decision` reaches for `defaultLimits`, whatever the runtime was given.

Only the bounds that a modelled function reads are kept: the bounds that no function of the source
reads are left out.
-/

set_option autoImplicit false

namespace FabricPartition

/-- The exact bounds a runtime instance enforces. -/
structure Limits where
  maxComponents : Nat := 1000000
  maxObservationsPerEvidence : Nat := 8000000
  maxEvidenceBytes : Nat := 256 * 1024 * 1024
  maxRetainedEvidence : Nat := 4096
  maxCoveredComponentsPerEvidence : Nat := 1000000
  maxPartitions : Nat := 1000000
  maxReasonsPerDecision : Nat := 64
  maxDecisionHistory : Nat := 4096
  maxFenceRecords : Nat := 4096
  maxLineageRecords : Nat := 16384
  maxLineageMemberEntries : Nat := 2000000
  maxAttemptRecords : Nat := 4096
  maxRevalidationsRetained : Nat := 4096
  maxLineageWalkNodes : Nat := 8192
  maxLineageWalkDepth : Nat := 256
  maxSnapshotBytes : Nat := 128 * 1024 * 1024
  maxRecordBytes : Nat := 64 * 1024 * 1024
  maxJournalRecords : Nat := 200000
  maxFrameBytes : Nat := 1024 * 1024
  maxSessions : Nat := 64
  maxTextBytes : Nat := 192
  deriving DecidableEq

/-- `default_limits()`. -/
def defaultLimits : Limits := {}

/-- The largest value of `std::size_t`. -/
def sizeMax : Nat := 2 ^ 64 - 1

/-- `checked_size_add`. -/
def checkedSizeAdd (lhs rhs : Nat) : Option Nat :=
  if rhs > sizeMax - lhs then none else some (lhs + rhs)

/-- `checked_size_mul`. -/
def checkedSizeMul (lhs rhs : Nat) : Option Nat :=
  if lhs = 0 ∨ rhs = 0 then some 0 else if lhs > sizeMax / rhs then none else some (lhs * rhs)

end FabricPartition
