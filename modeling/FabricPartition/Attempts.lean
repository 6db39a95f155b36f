import FabricPartition.Incarnations

/-!
# Attempts and the clock

An attempt is accepted at most once, and the clock does not go back, as long as one incarnation lasts:
`check_attempt` takes only attempts above the floor, `record_attempt` raises the floor to the attempt,
and `advance_ticks` adds.  A restart resumes both from the last epoch state on the disk, which only
assessments and starts commit.  So what the last epoch state does not hold is forgotten: the law
holds over all incarnations exactly as far as each restart finds the floor and the clock where they
were (`Moment.Resumes`).
-/

set_option autoImplicit false

namespace FabricPartition

/-- The attempt a governed operation is made under. -/
def Operation.attempt : Operation → Option AttemptToken
  | .requestMerge request => some request.attempt
  | .isolate request => some request.attempt
  | .clearIsolation request => some request.attempt
  | .retire request => some request.attempt
  | .revalidate request => some request.attempt
  | _ => none

namespace PartitionRuntime

/-- The sequence of the attempt, if `check_attempt` accepts it. -/
def acceptedAttempts (r : PartitionRuntime) (operation : Operation) : List Nat :=
  match operation.attempt with
  | some attempt =>
    if (r.admissionCheck attempt {}).isNone then [attempt.sequence.value.toNat] else []
  | none => []

/-- The decision that is refused plays no part in the check. -/
theorem admissionCheck_isNone (r : PartitionRuntime) (attempt : AttemptToken) (d d' : Decision) :
    (r.admissionCheck attempt d).isNone = (r.admissionCheck attempt d').isNone := by
  rw [admissionCheck, admissionCheck]
  split
  · rfl
  · rw [checkAttempt, checkAttempt]
    split
    · rfl
    · split
      · rfl
      · split <;> rfl

/-- Accepted attempts are above the floor. -/
theorem lt_of_admissionCheck {r : PartitionRuntime} {attempt : AttemptToken} {d : Decision}
    (h : r.admissionCheck attempt d = none) :
    r.state.attemptSequence.value.toNat < attempt.sequence.value.toNat := by
  rw [admissionCheck] at h
  split at h
  · cases h
  · rw [checkAttempt] at h
    split at h
    · cases h
    · split at h
      · cases h
      · split at h
        · cases h
        · rename_i hfloor
          exact UInt64.lt_iff_toNat_lt.mp (UInt64.not_le.mp hfloor)

/-- The floor of the attempts. -/
def attemptFloor (r : PartitionRuntime) : Nat := r.state.attemptSequence.value.toNat

/-- The clock. -/
def clock (r : PartitionRuntime) : Nat := r.state.tick.toNat

/-- A method of the runtime is started: its attempt is accepted above the floor, and becomes it. -/
structure Starts (accepted : List Nat) (r r' : PartitionRuntime) : Prop where
  accepted : accepted = [] ∧ r'.attemptFloor = r.attemptFloor ∨
    accepted = [r'.attemptFloor] ∧ r.attemptFloor < r'.attemptFloor
  clock : r.clock ≤ r'.clock

theorem admitted_starts (r : PartitionRuntime) (attempt : AttemptToken) (kind : DecisionKind)
    (d : Decision) :
    Starts (if (r.admissionCheck attempt {}).isNone then [attempt.sequence.value.toNat] else []) r
      (r.admitted attempt kind d) := by
  rw [admitted, r.admissionCheck_isNone attempt {} d]
  rcases hcheck : r.admissionCheck attempt d with _ | refused
  · exact ⟨.inr ⟨rfl, lt_of_admissionCheck hcheck⟩, Nat.le_refl _⟩
  · exact ⟨.inl ⟨rfl, rfl⟩, Nat.le_refl _⟩

theorem le_checkedAdd {tick delta next : UInt64} (h : checkedAdd tick delta = some next) :
    tick.toNat ≤ next.toNat := by
  rw [checkedAdd] at h
  split at h
  · cases h
  · rename_i hbound
    obtain rfl := Option.some.inj h
    have hle := UInt64.le_iff_toNat_le.mp (UInt64.not_lt.mp hbound)
    have htick := UInt64.toNat_lt tick
    rw [UInt64.toNat_sub_of_le _ _ (UInt64.le_iff_toNat_le.mpr (by
      show tick.toNat ≤ 18446744073709551615
      omega))] at hle
    rw [show (0xFFFFFFFFFFFFFFFF : UInt64).toNat = 18446744073709551615 from rfl] at hle
    rw [UInt64.toNat_add, Nat.mod_eq_of_lt (by omega)]
    exact Nat.le_add_right _ _

theorem advanceTicks_starts (delta : UInt64) (r : PartitionRuntime) :
    Starts [] r (advanceTicks delta r).2 := by
  rw [advanceTicks]
  split
  · exact ⟨.inl ⟨rfl, rfl⟩, Nat.le_refl _⟩
  · rcases hsum : checkedAdd r.state.tick delta with _ | next
    · exact ⟨.inl ⟨rfl, rfl⟩, Nat.le_refl _⟩
    · exact ⟨.inl ⟨rfl, rfl⟩, le_checkedAdd hsum⟩

theorem close_starts (r : PartitionRuntime) : Starts [] r r.close := by
  rw [close]
  split <;> exact ⟨.inl ⟨rfl, rfl⟩, Nat.le_refl _⟩

theorem started_starts (r : PartitionRuntime) (operation : Operation) :
    Starts (r.acceptedAttempts operation) r (r.started operation) := by
  rcases operation with delta | _ | _ | _ | _ | request | request | request | request | request |
    _ | _ | _
  · exact advanceTicks_starts delta r
  all_goals first
    | exact admitted_starts r _ _ _
    | exact close_starts r
    | exact ⟨.inl ⟨rfl, rfl⟩, Nat.le_refl _⟩

/-- **One call**: its attempt is accepted above the floor, and becomes it; the clock does not go
back. -/
theorem call_starts (r : PartitionRuntime) (c : Call) :
    Starts (r.acceptedAttempts c.operation) r (r.call c).2 := by
  have hsteady := (perform_writes (r.withFaults c.faults) c.operation).steady
  obtain ⟨haccepted, hclock⟩ := started_starts (r.withFaults c.faults) c.operation
  have hfloor : (r.call c).2.attemptFloor
      = ((r.withFaults c.faults).started c.operation).attemptFloor :=
    congrArg (fun s : AttemptSequence => s.value.toNat) hsteady.attemptSequence
  have htick : (r.call c).2.clock = ((r.withFaults c.faults).started c.operation).clock :=
    congrArg UInt64.toNat hsteady.tick
  rw [← hfloor] at haccepted
  rw [← htick] at hclock
  exact ⟨haccepted, hclock⟩

end PartitionRuntime

namespace Moment

open PartitionRuntime

/-- The sequences of the attempts that were accepted. -/
def attempts : Moment → List Nat
  | called s => s.before.acceptedAttempts s.call.operation
  | restarted _ _ _ _ _ => []

/-- A restart is one of a durable runtime, and finds the attempt floor and the clock where they
were. -/
def Resumes : Moment → Prop
  | called _ => True
  | restarted before options ids _ _ => options.durable = true ∧
      before.state.attemptSequence.value ≤
        (durableState options before.remains ids).attemptSequence.value ∧
      before.state.tick ≤ (durableState options before.remains ids).tick

instance : (m : Moment) → Decidable m.Resumes
  | called _ => .isTrue trivial
  | restarted _ _ _ _ _ => inferInstanceAs (Decidable (_ ∧ _ ∧ _))

end Moment

namespace PartitionRuntime

/-- One moment. -/
theorem draws_attempts {m : Moment} (h : Happened m) (hresumes : m.Resumes) :
    Draws attemptFloor Moment.attempts m ∧ m.before.clock ≤ m.after.clock := by
  rcases m with s | ⟨before, options, ids, faults, after⟩
  · obtain ⟨haccepted, hclock⟩ := call_starts s.before s.call
    rw [← show s.after = (s.before.call s.call).2 from congrArg Prod.snd h] at haccepted hclock
    refine ⟨?_, hclock⟩
    have hattempts : Moment.attempts (.called s) = s.before.acceptedAttempts s.call.operation := rfl
    rcases haccepted with ⟨hnone, hfloor⟩ | ⟨hone, hlt⟩
    · rw [hnone] at hattempts
      exact ⟨hfloor.ge, by simp [hattempts], by simp [hattempts], by simp [hattempts]⟩
    · rw [hone] at hattempts
      refine ⟨hlt.le, by simp [hattempts], fun v hv => ?_, fun v hv => ?_⟩
      · rw [hattempts, List.mem_singleton] at hv
        exact hv ▸ hlt
      · rw [hattempts, List.mem_singleton] at hv
        exact hv.le
  · obtain ⟨hdurable, hfloor, htick⟩ := hresumes
    obtain ⟨restored, hrevived⟩ := construct_revived hdurable h
    obtain ⟨fences, fenceSequence, epoch, bootSequence, sequence, -, -, -, -, hstate, -⟩ :=
      hrevived.entered
    have hafter : after.attemptFloor
          = (durableState options before.remains ids).attemptSequence.value.toNat ∧
        after.clock = (durableState options before.remains ids).tick.toNat := by
      rw [attemptFloor, clock, hstate]
      exact ⟨rfl, rfl⟩
    refine ⟨⟨?_, .nil, fun v hv => (nomatch hv), fun v hv => (nomatch hv)⟩, ?_⟩
    · exact (UInt64.le_iff_toNat_le.mp hfloor).trans hafter.1.ge
    · exact (UInt64.le_iff_toNat_le.mp htick).trans hafter.2.ge

/-- The attempts that are accepted in a history increase, and the clock does not go back in it. -/
structure UsedOnce (moments : List Moment) : Prop where
  attempts : (moments.flatMap Moment.attempts).Pairwise (· < ·)
  clock : ∀ m ∈ moments, m.before.state.tick ≤ m.after.state.tick

/-- **Attempts are used once, and the clock does not go back**, over all incarnations of which each
resumes where the one before it stopped. -/
theorem attempts_used_once {r : PartitionRuntime} {incidents : List Incident}
    (hresumes : ∀ m ∈ r.history incidents, m.Resumes) : UsedOnce (r.history incidents) where
  attempts := (history_increasing fun m hm =>
    (draws_attempts (mem_history hm) (hresumes m hm)).1).1
  clock m hm :=
    UInt64.le_iff_toNat_le.mpr (draws_attempts (mem_history hm) (hresumes m hm)).2

/-- A store with room for epoch states, and none for decisions. -/
def narrowOptions : RuntimeOptions := { limits := { maxRecordBytes := 256 } }

/-- A runtime on such a store. -/
def narrowRuntime : PartitionRuntime := (construct narrowOptions {} default).2

/-- An isolation under the attempt of a number. -/
def attemptIsolation (number : Nat) : Incident :=
  .call ⟨.isolate { attempt := smallAttempt number, expectedEpoch := ⟨2⟩, lineage := .nil }, []⟩

/-- An assessment before the process dies makes the attempt durable, and the next one is a later
one. -/
theorem assessed_attempts_used_once :
    UsedOnce (narrowRuntime.history [attemptIsolation 1,
      .call ⟨.adoptTopology (smallTopology 1 ["a"]), []⟩, .call ⟨.assess, []⟩,
      reopen narrowOptions, attemptIsolation 2]) :=
  attempts_used_once (by decide +kernel)

/-- **Without one the attempt is accepted again**, by the next incarnation; and ticks are lost. -/
theorem attempt_used_twice :
    ¬ UsedOnce (narrowRuntime.history [attemptIsolation 1, reopen narrowOptions,
        attemptIsolation 1]) ∧
      ¬ UsedOnce (durableRuntime.history [.call ⟨.advanceTicks 5, []⟩, reopen {}]) :=
  ⟨fun h => absurd h.attempts (by decide +kernel), fun h => absurd h.clock (by decide +kernel)⟩

end PartitionRuntime

end FabricPartition
