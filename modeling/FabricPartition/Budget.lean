import FabricPartition.Run
import FabricPartition.Shortening

/-!
# The byte budget of the ledger

`evidence_canonical_size` adds up what the fields of a bundle take at most, in checked arithmetic and
without looking at the encoder.  `evidenceCanonicalSize_eq_some` says what it adds up and when it
overflows, `length_encodeEvidence_le` that no image is longer; so the bytes the ledger has charged
itself cover the images of all it retains (`Budgeted`), whatever the runtime does.
-/

set_option autoImplicit false

namespace FabricPartition

/-! ## Checked arithmetic -/

theorem checkedSizeAdd_eq_some {lhs rhs total : Nat} (h : lhs ≤ sizeMax) :
    checkedSizeAdd lhs rhs = some total ↔ lhs + rhs = total ∧ total ≤ sizeMax := by
  rw [checkedSizeAdd]
  split
  · simp only [reduceCtorEq, false_iff, not_and]
    omega
  · rw [Option.some.injEq]
    omega

theorem checkedSizeMul_eq_some {lhs rhs product : Nat} :
    checkedSizeMul lhs rhs = some product ↔ lhs * rhs = product ∧ product ≤ sizeMax := by
  rw [checkedSizeMul]
  split
  · rename_i hzero
    rw [Nat.mul_eq_zero.mpr hzero, Option.some.injEq]
    exact ⟨fun h => ⟨h, h ▸ Nat.zero_le _⟩, And.left⟩
  · rename_i hpos
    have hle : lhs > sizeMax / rhs ↔ ¬ lhs * rhs ≤ sizeMax := by
      rw [gt_iff_lt, ← not_le, Nat.le_div_iff_mul_le (Nat.pos_of_ne_zero fun h => hpos (.inr h))]
    split
    · simp only [reduceCtorEq, false_iff, not_and]
      rintro rfl
      exact hle.mp ‹_›
    · rw [Option.some.injEq]
      refine ⟨fun h => ⟨h, ?_⟩, And.left⟩
      rw [← h]
      exact not_not.mp (hle.not.mp ‹_›)

/-! ## The estimate -/

namespace ReachabilityEvidence

/-- The sum of `evidence_canonical_size`: the texts with their lengths, 61 bytes of fixed width, the
two counts, a hundred bytes for a covered source and 201 for an observation. -/
def sizeBound (e : ReachabilityEvidence) : Nat :=
  4 + e.id.text.length + 4 + e.publisher.text.length + 61 + 4 + e.provenance.text.length + 4
    + e.coveredSources.length * 100 + e.observations.length * 201

/-- **The estimate is the sum**, and there is none exactly if that is too large for a size. -/
theorem evidenceCanonicalSize_eq_some (e : ReachabilityEvidence) (size : Nat) :
    evidenceCanonicalSize e = some size ↔ e.sizeBound = size ∧ size ≤ sizeMax := by
  simp only [evidenceCanonicalSize, Option.bind_eq_bind, Option.bind_eq_some_iff]
  constructor
  · rintro ⟨_, h₁, _, h₂, _, h₃, _, h₄, _, h₅, _, h₆, _, h₇, _, h₈, _, hcovered, _, h₉, _,
      hobservations, h₁₀⟩
    obtain ⟨rfl, hle⟩ := (checkedSizeAdd_eq_some (Nat.zero_le _)).mp h₁
    obtain ⟨rfl, hle⟩ := (checkedSizeAdd_eq_some hle).mp h₂
    obtain ⟨rfl, hle⟩ := (checkedSizeAdd_eq_some hle).mp h₃
    obtain ⟨rfl, hle⟩ := (checkedSizeAdd_eq_some hle).mp h₄
    obtain ⟨rfl, hle⟩ := (checkedSizeAdd_eq_some hle).mp h₅
    obtain ⟨rfl, hle⟩ := (checkedSizeAdd_eq_some hle).mp h₆
    obtain ⟨rfl, hle⟩ := (checkedSizeAdd_eq_some hle).mp h₇
    obtain ⟨rfl, hle⟩ := (checkedSizeAdd_eq_some hle).mp h₈
    obtain ⟨rfl, -⟩ := checkedSizeMul_eq_some.mp hcovered
    obtain ⟨rfl, hle⟩ := (checkedSizeAdd_eq_some hle).mp h₉
    obtain ⟨rfl, -⟩ := checkedSizeMul_eq_some.mp hobservations
    obtain ⟨rfl, hle⟩ := (checkedSizeAdd_eq_some hle).mp h₁₀
    exact ⟨rfl, hle⟩
  · rintro ⟨rfl, hle⟩
    rw [sizeBound] at hle ⊢
    -- every partial sum is below the whole
    have hadd : ∀ {lhs rhs : Nat}, lhs + rhs ≤ sizeMax →
        checkedSizeAdd lhs rhs = some (lhs + rhs) := fun h =>
      (checkedSizeAdd_eq_some (by omega)).mpr ⟨rfl, h⟩
    refine ⟨_, hadd (by omega), _, hadd (by omega), _, hadd (by omega), _, hadd (by omega), _,
      hadd (by omega), _, hadd (by omega), _, hadd (by omega), _, hadd (by omega), _,
      checkedSizeMul_eq_some.mpr ⟨rfl, by omega⟩, _, hadd (by omega), _,
      checkedSizeMul_eq_some.mpr ⟨rfl, by omega⟩, ?_⟩
    exact hadd (by omega)

theorem evidenceCanonicalSize_eq_none (e : ReachabilityEvidence) :
    evidenceCanonicalSize e = none ↔ sizeMax < e.sizeBound := by
  rw [Option.eq_none_iff_forall_ne_some, ← not_le]
  simp only [ne_eq, evidenceCanonicalSize_eq_some, not_and]
  exact ⟨fun h => h _ rfl, fun h _ heq => heq ▸ h⟩

/-- **No image is longer than the sum**, under any limits. -/
theorem length_encodeEvidence_le (e : ReachabilityEvidence) (limits : Limits) :
    (encodeEvidence e limits).length ≤ e.sizeBound := by
  have hid : ∀ id : ComponentId, (Write.textId id).length ≤ 100 := by
    intro id
    have hlength : id.text.length ≤ 96 := id.length_le
    rw [Write.length_textId]
    omega
  have hcovered : ((e.coveredSources.take limits.maxCoveredComponentsPerEvidence).flatMap
      Write.textId).length ≤ e.coveredSources.length * 100 :=
    (length_flatMap_le hid _).trans (Nat.mul_le_mul_right _ (List.length_take_le' _ _))
  have hobservations : ((e.observations.take limits.maxObservationsPerEvidence).flatMap
      encodeObservation).length ≤ e.observations.length * 201 :=
    (length_flatMap_le (fun o => (length_encodeObservation o).2) _).trans
      (Nat.mul_le_mul_right _ (List.length_take_le' _ _))
  have hcounter : ∀ {tag : CounterTag} (c : Counter tag), (Write.counter c).length = 8 :=
    fun c => rfl
  have hboot : (Write.binaryId e.publisherBoot).length = 16 := e.publisherBoot.size
  have hu64 : ∀ v, (Write.u64 v).length = 8 := fun v => rfl
  have hu8 : ∀ v, (Write.u8 v).length = 1 := fun v => rfl
  have hcount : ∀ n, (Write.count n).length = 4 := fun n => rfl
  simp only [encodeEvidence, Write.counted, List.length_append, Write.length_textId, hcounter,
    hboot, hu64, hu8, hcount, sizeBound]
  omega

/-- What is stored of a bundle takes no more than the bundle. -/
theorem sizeBound_storedForm_le (e : ReachabilityEvidence) :
    (EvidenceLedger.storedForm e).sizeBound ≤ e.sizeBound := by
  have hcovered : (sortedComponents e.coveredSources).length = e.coveredSources.length :=
    List.length_insertionSort _ _
  have hobservations : (canonicalObservations e.observations).length ≤ e.observations.length := by
    have hsub := (List.destutter_sublist (· ≠ ·)
      (e.observations.insertionSort fun lhs rhs => lhs.le rhs = true)).length_le
    rwa [List.length_insertionSort] at hsub
  have hmul := Nat.mul_le_mul_right 201 hobservations
  simp only [sizeBound, EvidenceLedger.storedForm, hcovered]
  omega

end ReachabilityEvidence

/-! ## The ledger -/

namespace EvidenceLedger

/-- The bytes that are charged cover the estimates of all that is retained. -/
def Budgeted (ledger : EvidenceLedger) : Prop :=
  (ledger.retained.map ReachabilityEvidence.sizeBound).sum ≤ ledger.retainedBytes

/-- What is accepted is charged its estimate. -/
theorem Budgeted.accept {ledger : EvidenceLedger} (h : ledger.Budgeted)
    (evidence : ReachabilityEvidence) (roster : ComponentRoster) (policy : PartitionPolicy)
    (nowTick : UInt64) : (ledger.accept evidence roster policy nowTick).2.Budgeted := by
  rw [EvidenceLedger.accept]
  split
  · exact h
  · rename_i hexamine
    dsimp only
    split
    · exact h
    · split
      · exact h
      · -- the budget check has added the estimate without an overflow
        have hprojected : ledger.projectedBytes evidence ≠ none := by
          intro hnone
          simp only [examine, Option.or_eq_none_iff] at hexamine
          obtain ⟨-, -, -, -, -, hretention⟩ := hexamine
          rw [retentionRefusal, hnone] at hretention
          split at hretention <;> cases hretention
        obtain ⟨projected, hsome⟩ := Option.ne_none_iff_exists'.mp hprojected
        have hcharged : ledger.retainedBytes + evidence.sizeBound ≤ projected := by
          simp only [projectedBytes, Option.bind_eq_bind, Option.bind_eq_some_iff] at hsome
          obtain ⟨size, hsize, total, htotal, hprojected⟩ := hsome
          split at hprojected
          · cases hprojected
          obtain rfl := Option.some.inj hprojected
          rw [((evidence.evidenceCanonicalSize_eq_some size).mp hsize).1]
          rw [checkedSizeAdd] at htotal
          split at htotal
          · cases htotal
          · exact (Option.some.inj htotal).le
        have hstored := evidence.sizeBound_storedForm_le
        rw [Budgeted] at h ⊢
        rw [List.map_append, List.sum_append, List.map_singleton, List.sum_singleton, hsome]
        exact (Nat.add_le_add h hstored).trans hcharged

/-- The images of what is retained, under any limits, take no more than the bytes that are
charged. -/
theorem Budgeted.encoded {ledger : EvidenceLedger} (h : ledger.Budgeted) (limits : Limits) :
    (ledger.retained.map fun e => (encodeEvidence e limits).length).sum ≤ ledger.retainedBytes :=
  (List.sum_le_sum fun e _ => e.length_encodeEvidence_le limits).trans h

end EvidenceLedger

namespace PartitionRuntime

/-- **Every move** keeps the ledger in its budget: it takes evidence, or starts anew, or stays. -/
theorem Move.budgeted {r r' : PartitionRuntime} (hmove : Move r r') (h : r.ledger.Budgeted) :
    r'.ledger.Budgeted := by
  cases hmove with
  | evidence e => exact h.accept e _ _ _
  | roster => exact Nat.zero_le _
  | quiet hq =>
    obtain ⟨_, _, _, _, _, -, rfl⟩ := hq
    exact h
  | stored hst =>
    obtain ⟨_, -, rfl⟩ := hst
    exact h
  | interrupted _ hint =>
    obtain ⟨_, _, -, -, _, _, _, -, -, -, rfl⟩ := hint
    exact h
  | fenced _ hf =>
    obtain ⟨_, _, _, -, -, -, rfl⟩ := hf
    exact h
  | abandoned _ _ hq =>
    obtain ⟨_, _, _, _, _, -, rfl⟩ := hq
    exact h
  | surveyed _ _ hs =>
    obtain ⟨-, -, _, _, _, _, _, _, _, _, _, -, rfl⟩ := hs.cases
    exact h
  | faults | clock | policy | superseded | isolations | forgot | recorded | acknowledged | verified
  | refused | closed => exact h

/-- **The size estimate is an upper bound**: of every image, whatever the limits; it is missing only
where the sum is too large for a size.  So in every run of a runtime the bytes the ledger has charged
itself are at least those of the images of what it retains. -/
theorem evidence_size_bounded :
    (∀ (e : ReachabilityEvidence) (limits : Limits) (size : Nat),
      evidenceCanonicalSize e = some size → (encodeEvidence e limits).length ≤ size) ∧
    (∀ e : ReachabilityEvidence, evidenceCanonicalSize e = none ↔ sizeMax < e.sizeBound) ∧
    ∀ (options : RuntimeOptions) (disk : Disk) (ids : BootIdentities)
      (faults : List (Option AppendFault)) (r : PartitionRuntime),
      construct options disk ids faults = (.ok (), r) → ∀ (cs : List Call) (limits : Limits),
        ((r.after cs).ledger.retained.map fun e => (encodeEvidence e limits).length).sum
          ≤ (r.after cs).ledger.retainedBytes := by
  refine ⟨fun e limits size hsize => ?_, ReachabilityEvidence.evidenceCanonicalSize_eq_none, ?_⟩
  · rw [← ((e.evidenceCanonicalSize_eq_some size).mp hsize).1]
    exact e.length_encodeEvidence_le limits
  · intro options disk ids faults r hstart cs limits
    have hbooted := (construct_booted options disk ids faults).ledger
    rw [hstart] at hbooted
    have hinit : r.ledger.Budgeted := by
      rw [show r.ledger = (unstarted options disk ids faults).ledger from hbooted]
      exact Nat.zero_le _
    exact (after_invariant (P := fun s => s.ledger.Budgeted) (fun _ _ => Move.budgeted) hinit
      cs).encoded limits

/-- A bundle of two observations. -/
def takenBundle : ReachabilityEvidence := smallBundle 1 0 (bothWays [("a", "b")] .reachable)

/-- A runtime that has taken it. -/
def takenRuntime : PartitionRuntime :=
  smallRuntime.after [⟨.adoptTopology (smallTopology 1 ["a", "b"]), []⟩,
    ⟨.ingestEvidence takenBundle, []⟩]

/-- Its image takes 102 bytes, and 482 are charged. -/
theorem taken_bundle_size_bounded :
    (encodeEvidence takenBundle {}).length ≤ 482 ∧ takenRuntime.ledger.retained ≠ [] ∧
      ∀ limits : Limits,
        (takenRuntime.ledger.retained.map fun e => (encodeEvidence e limits).length).sum
          ≤ takenRuntime.ledger.retainedBytes :=
  ⟨evidence_size_bounded.1 _ _ _ (by decide +kernel), by decide +kernel,
    evidence_size_bounded.2.2 _ _ _ _ _ smallRuntime_started _⟩

end PartitionRuntime

end FabricPartition
