import FabricPartition.Run

/-!
# Between the assessments

The watermark of the store, its epoch state, is written by assessments only.  Everything else a
method does — recording decisions and attempts, fencing, adopting a topology or a policy, the parts
of a governed operation before and after the assessment it triggers — leaves the epoch, the boot
identity and the generation alone, lets the authority counter only grow, and keeps the marks of the
grants.  `Drift` says so once, together with what was committed to the journal on the way: an explicit
list of entries, in order, whose fence records are exactly the fences that were added to the table.

A governed operation is cut where it calls `assess_locked`.  Its *opening* is the text of the method
up to there; `assessing` is the runtime the opening hands over.  **Every operation drifts up to its
assessment, and drifts again after it** (`perform_phases`).
-/

set_option autoImplicit false

namespace FabricPartition

/-- The mark a grant leaves in the epoch state. -/
def Partition.mark (p : Partition) : AuthorityGrantMark := ⟨p.id, p.lineage, p.authoritySequence⟩

namespace PartitionRuntime

/-! ## Logs -/

/-- What a commit asks the journal to keep. -/
abbrev Entry := DurableRecordType × Bytes

/-- Commit the entries of a log, one after another. -/
def commitAll (log : List Entry) (j : Journal) : Journal :=
  log.foldl (fun j entry => (commitJournal entry.1 entry.2 j).2) j

@[simp]
theorem commitAll_nil (j : Journal) : commitAll [] j = j := rfl

theorem commitAll_cons (entry : Entry) (log : List Entry) (j : Journal) :
    commitAll (entry :: log) j = commitAll log (commitJournal entry.1 entry.2 j).2 := rfl

theorem commitAll_append (log log' : List Entry) (j : Journal) :
    commitAll (log ++ log') j = commitAll log' (commitAll log j) :=
  List.foldl_append

theorem Journaled.exists_log {allowed : DurableRecordType → Bytes → Prop} {j k : Journal}
    (h : Journaled allowed j k) :
    ∃ log : List Entry, (∀ entry ∈ log, allowed entry.1 entry.2) ∧ k = commitAll log j := by
  induction h with
  | refl => exact ⟨[], by simp, rfl⟩
  | @commit k type payload _ ha ih =>
    obtain ⟨log, hall, rfl⟩ := ih
    refine ⟨log ++ [(type, payload)], ?_, ?_⟩
    · intro entry hentry
      rcases List.mem_append.mp hentry with h | h
      · exact hall entry h
      · rw [List.mem_singleton.mp h]
        exact ha
    · rw [commitAll_append]
      rfl

/-- The entry a fence is committed as. -/
def fenceEntry (fence : FenceRecord) : Entry := (.fenceRecord, encodeFence fence)

/-- The fence entries of a log. -/
def fenceEntries (log : List Entry) : List Entry := log.filter fun entry => entry.1 = .fenceRecord

theorem fenceEntries_append (log log' : List Entry) :
    fenceEntries (log ++ log') = fenceEntries log ++ fenceEntries log' :=
  List.filter_append ..

theorem fenceEntries_of_type {type : DurableRecordType} (htype : type ≠ .fenceRecord)
    {log : List Entry} (h : ∀ entry ∈ log, OfType type entry.1 entry.2) : fenceEntries log = [] := by
  refine List.filter_eq_nil_iff.mpr fun entry hentry => ?_
  rw [show entry.1 = type from h entry hentry]
  simpa using htype

/-! ## Drifting -/

/-- Fences numbered upwards, from one value of the fence counter to another. -/
def Ascending : FenceSequence → List FenceRecord → FenceSequence → Prop
  | low, [], high => low.value.toNat ≤ high.value.toNat
  | low, fence :: rest, high =>
    low.value.toNat < fence.sequence.value.toNat ∧ Ascending fence.sequence rest high

theorem Ascending.le {fences : List FenceRecord} {low high : FenceSequence}
    (h : Ascending low fences high) : low.value.toNat ≤ high.value.toNat := by
  induction fences generalizing low with
  | nil => exact h
  | cons fence rest ih => exact (Nat.le_of_lt h.1).trans (ih h.2)

theorem Ascending.append {fences fences' : List FenceRecord} {low mid high : FenceSequence}
    (h : Ascending low fences mid) (h' : Ascending mid fences' high) :
    Ascending low (fences ++ fences') high := by
  induction fences generalizing low with
  | nil =>
    cases fences' with
    | nil => exact Nat.le_trans h h'
    | cons fence rest => exact ⟨Nat.lt_of_le_of_lt h h'.1, h'.2⟩
  | cons fence rest ih => exact ⟨h.1, ih h.2⟩

/-- The text of a fence identity. -/
def fenceIdText (sequence : FenceSequence) (boot : CoordinatorBootId) : Text :=
  102 :: decimal sequence.value.toNat ++ 45 :: boot.shortHex

/-- A fence as a runtime issues it in its own name. -/
structure Signed (epoch : CoordinatorEpoch) (boot : CoordinatorBootId) (fence : FenceRecord) :
    Prop where
  id : fence.id.text = fenceIdText fence.sequence boot
  epoch : fence.issuingEpoch = epoch
  boot : fence.issuingBoot = boot

/-- The adopted roster is one that was created. -/
def RosterSound (r : PartitionRuntime) : Prop := r.rosterSet = true → r.roster.set = true

/-- Nothing was assessed: the log is what was committed, and the fences are those that were added. -/
structure Drift (r : PartitionRuntime) (log : List Entry) (added : List FenceRecord)
    (r' : PartitionRuntime) : Prop where
  options : r'.options = r.options
  closed : r'.closed = r.closed
  roster : r.RosterSound → r'.RosterSound
  epoch : r'.state.epoch = r.state.epoch
  boot : r'.state.boot = r.state.boot
  assessment : r'.assessment = r.assessment
  generation : r'.state.partitionGeneration = r.state.partitionGeneration
  decisions : r.state.decisionSequence.value.toNat ≤ r'.state.decisionSequence.value.toNat
  authority : r.state.authoritySequence.value.toNat ≤ r'.state.authoritySequence.value.toNat
  partitions : ∀ p ∈ r'.partitions, ∃ q ∈ r.partitions, q.mark = p.mark ∧ q.granted = p.granted
  journal : r'.journal = commitAll log r.journal
  unmarked : ∀ entry ∈ log, entry.1 ≠ .epochState
  fences : r'.fences = r.fences ++ added
  fenceLog : fenceEntries log = added.map fenceEntry
  numbered : Ascending r.state.fenceSequence added r'.state.fenceSequence
  signed : ∀ fence ∈ added, Signed r.state.epoch r.state.boot fence

/-- The members a drift keeps account of, but for the decision counter. -/
def frame (r : PartitionRuntime) :=
  (r.options, r.closed, r.roster, r.rosterSet, r.state.epoch, r.state.boot, r.assessment,
    r.state.partitionGeneration, r.state.authoritySequence, r.partitions, r.journal, r.fences,
    r.state.fenceSequence)

/-- Nothing was assessed. -/
def Drifts (r r' : PartitionRuntime) : Prop := ∃ log added, Drift r log added r'

namespace Drifts

/-- A write to members that a drift says nothing about. -/
theorem of_frame {r r' : PartitionRuntime} (h : r'.frame = r.frame)
    (hdecisions : r.state.decisionSequence.value.toNat
      ≤ r'.state.decisionSequence.value.toNat) : Drifts r r' := by
  simp only [frame, Prod.mk.injEq] at h
  obtain ⟨hoptions, hclosed, hroster, hset, hepoch, hboot, hassessment, hgeneration, hauthority,
    hpartitions, hjournal, hfences, hsequence⟩ := h
  refine ⟨[], [], hoptions, hclosed, ?_, hepoch, hboot, hassessment, hgeneration, hdecisions, ?_, ?_,
    hjournal, by simp, ?_, rfl, ?_, by simp⟩
  · rw [RosterSound, RosterSound, hroster, hset]
    exact id
  · rw [hauthority]
  · rw [hpartitions]
    exact fun p hp => ⟨p, hp, rfl, rfl⟩
  · rw [hfences, List.append_nil]
  · rw [hsequence]
    exact Nat.le_refl _

theorem refl (r : PartitionRuntime) : Drifts r r := of_frame rfl (Nat.le_refl _)

theorem trans (r s t : PartitionRuntime) (h : Drifts r s) (h' : Drifts s t) : Drifts r t := by
  obtain ⟨log, added, h⟩ := h
  obtain ⟨log', added', h'⟩ := h'
  refine ⟨log ++ log', added ++ added', h'.options.trans h.options, h'.closed.trans h.closed,
    fun hr => h'.roster (h.roster hr), h'.epoch.trans h.epoch, h'.boot.trans h.boot,
    h'.assessment.trans h.assessment, h'.generation.trans h.generation,
    h.decisions.trans h'.decisions, h.authority.trans h'.authority, ?_, ?_, ?_, ?_, ?_,
    h.numbered.append h'.numbered, ?_⟩
  · intro p hp
    obtain ⟨q, hq, hmark, hgranted⟩ := h'.partitions p hp
    obtain ⟨o, ho, hmark', hgranted'⟩ := h.partitions q hq
    exact ⟨o, ho, hmark'.trans hmark, hgranted'.trans hgranted⟩
  · rw [commitAll_append, ← h.journal, h'.journal]
  · intro entry hentry
    rcases List.mem_append.mp hentry with hentry | hentry
    · exact h.unmarked entry hentry
    · exact h'.unmarked entry hentry
  · rw [h'.fences, h.fences, List.append_assoc]
  · rw [fenceEntries_append, h.fenceLog, h'.fenceLog, List.map_append]
  · intro fence hfence
    rcases List.mem_append.mp hfence with hfence | hfence
    · exact h.signed fence hfence
    · have hsigned := h'.signed fence hfence
      rwa [h.epoch, h.boot] at hsigned

end Drifts

/-- Committing records of a type that is neither of the two a drift keeps account of. -/
theorem Journaled.drift {type : DurableRecordType} (hepoch : type ≠ .epochState)
    (hfence : type ≠ .fenceRecord) {r r' : PartitionRuntime} {j : Journal}
    (h : Journaled (OfType type) r.journal j)
    (hframe : Drifts { r with store := j.1, durableSequence := j.2 } r') : Drifts r r' := by
  refine Drifts.trans _ { r with store := j.1, durableSequence := j.2 } _ ?_ hframe
  obtain ⟨log, htypes, hj⟩ := h.exists_log
  refine ⟨log, [], rfl, rfl, id, rfl, rfl, rfl, rfl, Nat.le_refl _,
    Nat.le_refl _, fun p hp => ⟨p, hp, rfl, rfl⟩,
    hj, ?_, (List.append_nil _).symm, fenceEntries_of_type hfence htypes, Nat.le_refl _, by simp⟩
  intro entry hentry
  rw [show entry.1 = type from htypes entry hentry]
  exact hepoch

/-- A quiet move that did not set back the decision counter. -/
theorem Quiet.drifts {r r' : PartitionRuntime} (h : Quiet r r')
    (hdecisions : r.state.decisionSequence.value.toNat ≤ r'.state.decisionSequence.value.toNat) :
    Drifts r r' := by
  obtain ⟨_, _, _, _, _, hj, rfl⟩ := h
  exact hj.drift (by decide) (by decide)
    (.of_frame rfl hdecisions)

/-- Setting members that `Drifts` says nothing about, and going on from there. -/
theorem modify_then_drifts {α : Type} {f : PartitionRuntime → PartitionRuntime}
    {k : Unit → RuntimeAct α} (hframe : ∀ r, (f r).frame = r.frame)
    (hdecisions : ∀ r, (f r).state.decisionSequence = r.state.decisionSequence)
    (hk : Act.Within Drifts (k ())) : Act.Within Drifts (Act.modify f >>= k) := by
  refine .bind Drifts.trans (fun r => ?_) fun _ => hk
  refine .of_frame (hframe r) (Nat.le_of_eq ?_)
  rw [Act.modify_apply, hdecisions]

/-! ## The parts of the methods -/

/-- An identity bears the number it was drawn under. -/
theorem assignDecisionIdentity_numbers {decision : Decision} {r r' : PartitionRuntime}
    {res : Except PartitionError Decision} (h : assignDecisionIdentity decision r = (res, r')) :
    r.state.decisionSequence.value.toNat ≤ r'.state.decisionSequence.value.toNat ∧
      (decision.id = .nil → ∀ d, res = .ok d →
        r.state.decisionSequence.value.toNat < r'.state.decisionSequence.value.toNat ∧
          d.bindings.decisionSequence = r'.state.decisionSequence) := by
  rw [assignDecisionIdentity, Act.read_bind] at h
  split at h
  · rename_i hid
    cases h
    refine ⟨Nat.le_refl _, fun hnil => ?_⟩
    simp [TextId.isNil_iff.mpr hnil] at hid
  · rcases hnext : r.state.decisionSequence.next with _ | sequence
    · rw [hnext] at h
      cases h
      exact ⟨Nat.le_refl _, fun _ d hd => by cases hd⟩
    · rw [hnext] at h
      cases h
      have hlt := Counter.next_toNat hnext
      refine ⟨?_, fun _ d hd => ⟨?_, ?_⟩⟩
      · show r.state.decisionSequence.value.toNat ≤ sequence.value.toNat
        omega
      · show r.state.decisionSequence.value.toNat < sequence.value.toNat
        omega
      · cases hd
        rfl

theorem publishDecision_numbers (decision : Decision) (r : PartitionRuntime) :
    (publishDecision decision r).2.state.decisionSequence = r.state.decisionSequence ∧
      (publishDecision decision r).1.bindings = decision.bindings := by
  rw [publishDecision]
  dsimp only
  split
  · exact ⟨rfl, rfl⟩
  · exact ⟨rfl, rfl⟩

/-- **A decision bears the number it was finalized under.** -/
theorem finalizeDecision_numbers {decision : Decision} {r r' : PartitionRuntime}
    {res : Except PartitionError Decision} (h : finalizeDecision decision r = (res, r')) :
    r.state.decisionSequence.value.toNat ≤ r'.state.decisionSequence.value.toNat ∧
      (decision.id = .nil → ∀ d, res = .ok d →
        r.state.decisionSequence.value.toNat < r'.state.decisionSequence.value.toNat ∧
          d.bindings.decisionSequence = r'.state.decisionSequence) := by
  rcases Act.bind_cases h with ⟨d, s, hd, hs⟩ | ⟨e, he, rfl⟩
  · have hassigned := assignDecisionIdentity_numbers hd
    obtain ⟨hsequence, hbindings⟩ := publishDecision_numbers d s
    cases hs
    rw [hsequence]
    refine ⟨hassigned.1, fun hnil d' hd' => ?_⟩
    cases hd'
    rw [hbindings]
    exact hassigned.2 hnil d rfl
  · exact ⟨(assignDecisionIdentity_numbers he).1, fun _ d hd => by cases hd⟩

theorem finalizeDecision_drifts (decision : Decision) :
    Act.Within Drifts (finalizeDecision decision) := fun r =>
  (finalizeDecision_cases (Prod.eta (finalizeDecision decision r)).symm).1.drifts
    (finalizeDecision_numbers (Prod.eta (finalizeDecision decision r)).symm).1

theorem assignDecisionIdentity_drifts (decision : Decision) :
    Act.Within Drifts (assignDecisionIdentity decision) := fun r =>
  (assignDecisionIdentity_cases (Prod.eta (assignDecisionIdentity decision r)).symm).1.drifts
    (assignDecisionIdentity_numbers (Prod.eta (assignDecisionIdentity decision r)).symm).1

theorem recordAttempt_drifts (attempt : AttemptToken) (kind : DecisionKind) :
    Act.Within Drifts (Act.modify (recordAttempt attempt kind) : RuntimeAct Unit) := fun r =>
  (recordAttempt_quiet attempt kind r).drifts (Nat.le_refl _)

theorem commitRecord_drifts {type : DurableRecordType} (hepoch : type ≠ .epochState)
    (hfence : type ≠ .fenceRecord) (payload : Bytes) (r : PartitionRuntime) :
    Drifts r (commitRecord type payload r).2 := by
  have hj : Journaled (OfType type) r.journal (commitJournal type payload r.journal).2 :=
    .single rfl
  exact hj.drift hepoch hfence (.of_frame rfl (Nat.le_refl _))

/-- Storing a fence that bears the next number. -/
theorem storeFence_drifts {fence : FenceRecord} {next : FenceSequence} {r : PartitionRuntime}
    (hnext : r.state.fenceSequence.next = some next) (hsequence : fence.sequence = next)
    (hsigned : Signed r.state.epoch r.state.boot fence) :
    Drifts r (storeFence fence { r with state := { r.state with fenceSequence := next } }) := by
  have hlt := Counter.next_toNat hnext
  rw [storeFence]
  split
  · refine ⟨[], [], rfl, rfl, id, rfl, rfl, rfl, rfl, Nat.le_refl _,
    Nat.le_refl _, fun p hp => ⟨p, hp, rfl, rfl⟩,
      rfl, by simp, (List.append_nil _).symm, rfl, ?_, by simp⟩
    show r.state.fenceSequence.value.toNat ≤ next.value.toNat
    omega
  · refine ⟨[fenceEntry fence], [fence], rfl, rfl, id, rfl, rfl, rfl, rfl, Nat.le_refl _,
    Nat.le_refl _,
      fun p hp => ⟨p, hp, rfl, rfl⟩, rfl, ?_, rfl, rfl, ?_, ?_⟩
    · intro entry hentry
      rw [List.mem_singleton.mp hentry]
      exact fun h => by cases h
    · refine ⟨?_, ?_⟩
      · rw [hsequence]
        omega
      · show fence.sequence.value.toNat ≤ next.value.toNat
        rw [hsequence]
    · intro f hf
      rw [List.mem_singleton.mp hf]
      exact hsigned

theorem issueFence_drifts (p : Partition) (sequence : AuthoritySequence) (cause : ReasonCode) :
    Act.Within Drifts (issueFence p sequence cause) := by
  intro r
  rw [issueFence, makeFence, Act.bind_apply, Act.read_bind]
  cases hnext : r.state.fenceSequence.next with
  | none => exact .refl r
  | some next => exact storeFence_drifts hnext rfl ⟨rfl, rfl, rfl⟩

theorem interruptAuthorities_drifts (cause : ReasonCode) (ps : List Partition) :
    Act.Within Drifts (interruptAuthorities cause ps) := by
  induction ps with
  | nil => exact .pure Drifts.refl ()
  | cons p rest ih =>
    rw [interruptAuthorities]
    split
    · exact ih
    · intro r
      rw [Act.modify_bind, Act.read_bind]
      refine Drifts.trans _ { r with interrupted := r.interrupted ++ [r.interruption p] } _
        (.of_frame rfl (Nat.le_refl _)) ?_
      dsimp only
      cases hnext : r.state.authoritySequence.next with
      | none => exact .refl _
      | some next =>
        dsimp only
        rw [Act.modify_bind]
        have hlt := Counter.next_toNat hnext
        refine Drifts.trans _ { r with
          interrupted := r.interrupted ++ [r.interruption p]
          state := { r.state with authoritySequence := next } } _ ?_ ?_
        · exact ⟨[], [], rfl, rfl, id, rfl, rfl, rfl, rfl, Nat.le_refl _,
            (show r.state.authoritySequence.value.toNat ≤ next.value.toNat by omega),
            fun p hp => ⟨p, hp, rfl, rfl⟩, rfl, by simp, (List.append_nil _).symm, rfl, Nat.le_refl _,
            by simp⟩
        · exact Act.Within.bind Drifts.trans (issueFence_drifts p p.authoritySequence cause)
            (fun _ => ih) _

theorem interruptAllAuthority_drifts (cause : ReasonCode) :
    Act.Within Drifts (interruptAllAuthority cause) :=
  .read_bind fun r => interruptAuthorities_drifts cause r.partitions r

theorem supersedePartitions_drifts : Act.Within Drifts supersedePartitions := by
  refine .read_bind fun r => ?_
  split
  · refine Act.Within.bind Drifts.trans (interruptAllAuthority_drifts _) (fun _ r => ?_) r
    refine ⟨[], [], rfl, rfl, id, rfl, rfl, rfl, rfl, Nat.le_refl _,
    Nat.le_refl _, ?_, rfl, by simp,
      (List.append_nil _).symm, rfl, Nat.le_refl _, by simp⟩
    intro p hp
    obtain ⟨q, hq, rfl⟩ := List.mem_map.mp hp
    exact ⟨q, hq, rfl, rfl⟩
  · exact .refl r

/-! ## The methods that assess nothing -/

theorem create_set {definition : TopologyDefinition} {limits : Limits} {roster : ComponentRoster}
    (h : ComponentRoster.create definition limits = some roster) : roster.set = true := by
  rw [ComponentRoster.create] at h
  split at h
  · cases h
  · split at h
    · cases h
    · split at h
      · split at h
        · cases h
          rfl
        · cases h
      · cases h

theorem advanceTicks_drifts (delta : UInt64) (r : PartitionRuntime) :
    Drifts r (advanceTicks delta r).2 := by
  rcases advanceTicks_cases (Prod.eta (advanceTicks delta r)).symm with h | ⟨tick, h⟩
  · rw [h]
    exact .refl r
  · rw [h]
    exact .of_frame rfl (Nat.le_refl _)

theorem adoptTopology_drifts (definition : TopologyDefinition) :
    Act.Within Drifts (adoptTopology definition) := by
  refine .read_then fun r => ?_
  dsimp only
  split
  · exact finalizeDecision_drifts _
  · rename_i roster hcheck
    have hset := create_set (adoptionCheck_ok hcheck).2
    refine .bind Drifts.trans (fun r => commitRecord_drifts (by decide) (by decide) _ r)
      fun committed => ?_
    split
    · exact finalizeDecision_drifts _
    · refine .bind Drifts.trans supersedePartitions_drifts fun _ => ?_
      refine .bind Drifts.trans (fun r => ?_) fun _ => finalizeDecision_drifts _
      exact ⟨[], [], rfl, rfl, fun _ _ => hset, rfl, rfl, rfl, rfl, Nat.le_refl _, Nat.le_refl _,
        fun p hp => ⟨p, hp, rfl, rfl⟩, rfl, by simp, (List.append_nil _).symm, rfl, Nat.le_refl _,
        by simp⟩

theorem setPolicy_drifts (policy : PartitionPolicy) : Act.Within Drifts (setPolicy policy) := by
  refine .read_then fun r => ?_
  dsimp only
  split
  · exact finalizeDecision_drifts _
  · refine .bind Drifts.trans (fun r => commitRecord_drifts (by decide) (by decide) _ r)
      fun committed => ?_
    split
    · exact finalizeDecision_drifts _
    · refine .bind Drifts.trans (interruptAllAuthority_drifts _) fun _ => ?_
      exact modify_then_drifts (fun _ => rfl) (fun _ => rfl) (finalizeDecision_drifts _)

theorem ingestEvidence_drifts (evidence : ReachabilityEvidence) :
    Act.Within Drifts (ingestEvidence evidence) := by
  refine .read_then fun r => ?_
  dsimp only
  split
  · exact finalizeDecision_drifts _
  · split
    · exact finalizeDecision_drifts _
    · exact modify_then_drifts (fun _ => rfl) (fun _ => rfl) (finalizeDecision_drifts _)

theorem fenceLineage_drifts (lineage : LineageId) (decision : Decision) (p : Partition) :
    Act.Within Drifts (fenceLineage lineage decision p) := by
  rw [fenceLineage]
  split
  · exact .pure Drifts.refl _
  · split
    · exact .pure Drifts.refl _
    · exact .bind Drifts.trans (issueFence_drifts _ _ _) fun _ => .pure Drifts.refl _

theorem commitRetire_drifts (request : RetireRequest) (latest : LineageRecord)
    (sequence : LineageSequence) (decision : Decision) :
    Act.Within Drifts (commitRetire request latest sequence decision) := by
  refine .read_then fun r => ?_
  refine .bind Drifts.trans (assignDecisionIdentity_drifts _) fun decision => .read_then fun r => ?_
  refine .bind Drifts.trans (fun r => commitRecord_drifts (by decide) (by decide) _ r)
    fun committed => ?_
  split
  · exact finalizeDecision_drifts _
  · split
    · exact finalizeDecision_drifts _
    · refine modify_then_drifts (fun _ => rfl) (fun _ => rfl) ?_
      refine .bind Drifts.trans (.forEach Drifts.refl Drifts.trans
        (fun decision p => fenceLineage_drifts _ decision p) _ _) fun decision => ?_
      exact modify_then_drifts (fun _ => rfl) (fun _ => rfl) (finalizeDecision_drifts _)

theorem retire_drifts (request : RetireRequest) : Act.Within Drifts (retire request) := by
  refine .read_then fun r => ?_
  dsimp only
  split
  · exact finalizeDecision_drifts _
  · refine .bind Drifts.trans (recordAttempt_drifts _ _) fun _ => .read_then fun r => ?_
    split
    · exact finalizeDecision_drifts _
    · exact commitRetire_drifts _ _ _ _

theorem recordAcknowledgement_drifts (ack : AuthorityAcknowledgement) :
    Act.Within Drifts (recordAcknowledgement ack) := by
  refine .read_then fun r => ?_
  dsimp only
  split
  · exact finalizeDecision_drifts _
  · exact modify_then_drifts (fun _ => rfl) (fun _ => rfl) (finalizeDecision_drifts _)

theorem recordVerifiedEffect_drifts (effect : VerifiedEffect) :
    Act.Within Drifts (recordVerifiedEffect effect) := by
  refine .read_then fun r => ?_
  dsimp only
  split
  · exact finalizeDecision_drifts _
  · exact modify_then_drifts (fun _ => rfl) (fun _ => rfl) (finalizeDecision_drifts _)

/-! ## Openings

The text of each assessing method up to its call of `assess_locked`.  An opening returns whether the
method goes on to it. -/

/-- `request_merge`, once every check has passed, up to the assessment. -/
def mergeOpening (request : MergeRequest) (subject : Partition) (decision : Decision) :
    RuntimeAct Bool := do
  let r ← Act.read
  let decision := r.conclude decision .granted .mergeAccepted request.subject.text
    "pairwise reconciliation committed with a new merged lineage"
  let decision ← assignDecisionIdentity (r.explain decision .mergeNewLineageEstablished
    (mergeLineageId request.left request.right).text
    (ascii "the merged lineage supersedes both parents"))
  let r ← Act.read
  match r.state.lineageSequence.next with
  | none =>
    let _ ← finishMerge (r.conclude decision .indeterminate .arithmeticRefused request.subject.text
      "the lineage sequence is exhausted")
    pure false
  | some sequence =>
    let record := r.mergeRecord request subject decision.id sequence
    let committed ← Act.total (commitRecord .lineageRecord (encodeLineage record))
    if !committed then
      let _ ← finishMerge (r.conclude decision .indeterminate .storeIoFailure request.subject.text
        "the merge lineage record could not be committed durably")
      pure false
    else
      match r.lineage.append record with
      | none =>
        let _ ← finishMerge (r.conclude decision .invalid .mergeRejectedLineageConflict
          request.subject.text "the lineage store refused the merge record")
        pure false
      | some lineage =>
        Act.modify fun r => { r with
          lineage := lineage
          state := { r.state with lineageSequence := sequence } }
        let decision ← fenceSubject subject decision
        Act.modify (dropInterrupted fun l => l == request.left || l == request.right)
        let _ ← finalizeDecision decision
        pure true

/-- `request_merge` up to the assessment. -/
def requestMergeOpening (request : MergeRequest) : RuntimeAct Bool := do
  let r ← Act.read
  let decision := r.makeDecision .mergePartitions .invalid (partitionScope request.subject)
  match r.admissionCheck request.attempt decision with
  | some refused =>
    let _ ← finishMerge refused
    pure false
  | none =>
    Act.modify (recordAttempt request.attempt .mergePartitions)
    let r ← Act.read
    match r.mergeCheck request decision with
    | .error refused =>
      let _ ← finishMerge refused
      pure false
    | .ok subject => mergeOpening request subject decision

/-- The isolation methods from the decision on, up to the assessment. -/
def isolationOpening (decision : Decision) (goesOn : Bool) : RuntimeAct Bool := do
  let _ ← finishIsolation decision
  pure goesOn

/-- `isolate` up to the assessment. -/
def isolateOpening (request : IsolationRequest) : RuntimeAct Bool := do
  let r ← Act.read
  let decision := r.makeDecision .isolateComponents .invalid fabricScope
  match r.admissionCheck request.attempt decision with
  | some refused => isolationOpening refused false
  | none =>
    Act.modify (recordAttempt request.attempt .isolateComponents)
    let r ← Act.read
    match r.isolateCheck request decision with
    | some refused => isolationOpening refused false
    | none =>
      let expiry := r.isolationExpiry request
      Act.modify fun r => { r with
        isolations := r.isolations ++ [⟨request.lineage, expiry, request.cause⟩] }
      let decision := { decision with
        scope := namedScope .domain request.lineage.text
        verdict := .isolated }
      isolationOpening (r.explain decision .isolationApplied request.lineage.text
        (if request.durationTicks = 0 then
          ascii "isolation applies until it is explicitly cleared"
        else ascii "isolation expires at tick " ++ decimal expiry.toNat)) true

/-- `clear_isolation` up to the assessment. -/
def clearIsolationOpening (request : IsolationRequest) : RuntimeAct Bool := do
  let r ← Act.read
  let decision := r.makeDecision .isolateComponents .invalid fabricScope
  match r.admissionCheck request.attempt decision with
  | some refused => isolationOpening refused false
  | none =>
    Act.modify (recordAttempt request.attempt .isolateComponents)
    let r ← Act.read
    match r.epochRefusal request.expectedEpoch request.lineage.text decision with
    | some refused => isolationOpening refused false
    | none =>
      let kept := r.isolations.filter fun directive => directive.lineage != request.lineage
      Act.modify fun r => { r with isolations := kept }
      let decision := { decision with scope := namedScope .domain request.lineage.text }
      if kept.length = r.isolations.length then
        isolationOpening (r.conclude decision .denied .isolationRejectedUnknownSubject
          request.lineage.text "no isolation directive applied to this lineage") true
      else
        isolationOpening (r.conclude decision .granted .revalidationGranted request.lineage.text
          "isolation directive cleared") true

/-- `revalidate` up to the assessment. -/
def revalidateOpening (request : RevalidationRequest) : RuntimeAct Bool := do
  let r ← Act.read
  let decision := r.makeDecision .revalidate .invalid fabricScope
  match r.admissionCheck request.attempt decision with
  | some refused =>
    let _ ← finishRevalidation refused [] [] []
    pure false
  | none =>
    Act.modify (recordAttempt request.attempt .revalidate)
    let r ← Act.read
    match r.revalidateCheck request decision with
    | some refused =>
      let _ ← finishRevalidation refused [] [] []
      pure false
    | none => pure true

/-- What an opening hands to `assess_locked`. -/
def handedOver (allowRestore : Bool) :
    Except PartitionError Bool × PartitionRuntime → Option (Bool × PartitionRuntime)
  | (.ok true, r) => some (allowRestore, r)
  | _ => none

/-- The runtime in which an operation calls `assess_locked`, if it does, with the flag it passes. -/
def assessing (r : PartitionRuntime) : Operation → Option (Bool × PartitionRuntime)
  | .assess => some (false, r)
  | .requestMerge request => handedOver false (requestMergeOpening request r)
  | .isolate request => handedOver false (isolateOpening request r)
  | .clearIsolation request => handedOver false (clearIsolationOpening request r)
  | .revalidate request => handedOver true (revalidateOpening request r)
  | _ => none

/-- The assessment an operation completes, on an open runtime with an adopted roster. -/
def performed (r : PartitionRuntime) (operation : Operation) : Option PartitionAssessment :=
  match r.assessing operation with
  | none => none
  | some (allowRestore, a) =>
    if a.closed || !a.rosterSet then none
    else
      match (assessLocked allowRestore a).1 with
      | .ok outcome => some outcome
      | .error _ => none

/-! ## Openings drift -/

theorem finishMerge_drifts (decision : Decision) : Act.Within Drifts (finishMerge decision) :=
  .bind Drifts.trans (finalizeDecision_drifts _) fun _ => .pure Drifts.refl _

theorem finishIsolation_drifts (decision : Decision) :
    Act.Within Drifts (finishIsolation decision) :=
  .bind Drifts.trans (finalizeDecision_drifts _) fun _ => .pure Drifts.refl _

theorem finishRevalidation_drifts (decision : Decision) (partitions : List Partition)
    (restored stillInterrupted : List PartitionId) :
    Act.Within Drifts (finishRevalidation decision partitions restored stillInterrupted) :=
  .bind Drifts.trans (finalizeDecision_drifts _) fun _ => .pure Drifts.refl _

theorem fenceSubject_drifts (subject : Partition) (decision : Decision) :
    Act.Within Drifts (fenceSubject subject decision) := by
  rw [fenceSubject]
  split
  · exact .pure Drifts.refl _
  · exact .bind Drifts.trans (issueFence_drifts _ _ _) fun _ => .pure Drifts.refl _

theorem mergeOpening_drifts (request : MergeRequest) (subject : Partition) (decision : Decision) :
    Act.Within Drifts (mergeOpening request subject decision) := by
  refine .read_then fun r => ?_
  refine .bind Drifts.trans (assignDecisionIdentity_drifts _) fun decision => .read_then fun r => ?_
  split
  · exact .bind Drifts.trans (finishMerge_drifts _) fun _ => .pure Drifts.refl _
  · refine .bind Drifts.trans (fun r => commitRecord_drifts (by decide) (by decide) _ r)
      fun committed => ?_
    split
    · exact .bind Drifts.trans (finishMerge_drifts _) fun _ => .pure Drifts.refl _
    · split
      · exact .bind Drifts.trans (finishMerge_drifts _) fun _ => .pure Drifts.refl _
      · refine modify_then_drifts (fun _ => rfl) (fun _ => rfl) ?_
        refine .bind Drifts.trans (fenceSubject_drifts _ _) fun decision => ?_
        refine modify_then_drifts (fun _ => rfl) (fun _ => rfl) ?_
        exact .bind Drifts.trans (finalizeDecision_drifts _) fun _ => .pure Drifts.refl _

theorem requestMergeOpening_drifts (request : MergeRequest) :
    Act.Within Drifts (requestMergeOpening request) := by
  refine .read_then fun r => ?_
  dsimp only
  split
  · exact .bind Drifts.trans (finishMerge_drifts _) fun _ => .pure Drifts.refl _
  · refine .bind Drifts.trans (recordAttempt_drifts _ _) fun _ => .read_then fun r => ?_
    split
    · exact .bind Drifts.trans (finishMerge_drifts _) fun _ => .pure Drifts.refl _
    · exact mergeOpening_drifts _ _ _

theorem isolationOpening_drifts (decision : Decision) (goesOn : Bool) :
    Act.Within Drifts (isolationOpening decision goesOn) :=
  .bind Drifts.trans (finishIsolation_drifts _) fun _ => .pure Drifts.refl _

theorem isolateOpening_drifts (request : IsolationRequest) :
    Act.Within Drifts (isolateOpening request) := by
  refine .read_then fun r => ?_
  dsimp only
  split
  · exact isolationOpening_drifts _ _
  · refine .bind Drifts.trans (recordAttempt_drifts _ _) fun _ => .read_then fun r => ?_
    split
    · exact isolationOpening_drifts _ _
    · exact modify_then_drifts (fun _ => rfl) (fun _ => rfl) (isolationOpening_drifts _ _)

theorem clearIsolationOpening_drifts (request : IsolationRequest) :
    Act.Within Drifts (clearIsolationOpening request) := by
  refine .read_then fun r => ?_
  dsimp only
  split
  · exact isolationOpening_drifts _ _
  · refine .bind Drifts.trans (recordAttempt_drifts _ _) fun _ => .read_then fun r => ?_
    split
    · exact isolationOpening_drifts _ _
    · refine modify_then_drifts (fun _ => rfl) (fun _ => rfl) ?_
      split
      · exact isolationOpening_drifts _ _
      · exact isolationOpening_drifts _ _

theorem revalidateOpening_drifts (request : RevalidationRequest) :
    Act.Within Drifts (revalidateOpening request) := by
  refine .read_then fun r => ?_
  dsimp only
  split
  · exact .bind Drifts.trans (finishRevalidation_drifts _ _ _ _) fun _ => .pure Drifts.refl _
  · refine .bind Drifts.trans (recordAttempt_drifts _ _) fun _ => .read_then fun r => ?_
    split
    · exact .bind Drifts.trans (finishRevalidation_drifts _ _ _ _) fun _ => .pure Drifts.refl _
    · exact .pure Drifts.refl _

theorem revalidatePartition_drifts (acc : Revalidation) (p : Partition) :
    Act.Within Drifts (revalidatePartition acc p) := by
  refine .read_then fun r => ?_
  split
  · exact .pure Drifts.refl _
  · split
    · exact .pure Drifts.refl _
    · exact .bind Drifts.trans (issueFence_drifts _ _ _) fun _ => .pure Drifts.refl _

/-! ## The phases of an operation -/

/-- What an operation does around the assessment it was found to make. -/
def Phases (r : PartitionRuntime) (operation : Operation) : Prop :=
  match r.assessing operation with
  | none => Drifts r (r.perform operation).2
  | some (allowRestore, a) =>
    Drifts r a ∧ Drifts (assessLocked allowRestore a).2 (r.perform operation).2

/-- An opening that hands over is followed by the assessment, and that by steps along a relation. -/
def Resumes (R : PartitionRuntime → PartitionRuntime → Prop) (allowRestore : Bool)
    (opening : Except PartitionError Bool × PartitionRuntime) (r' : PartitionRuntime) : Prop :=
  match opening with
  | (.ok true, a) => R (assessLocked allowRestore a).2 r'
  | (_, a) => r' = a

theorem phases_of_resumes {r : PartitionRuntime} {operation : Operation} {allowRestore : Bool}
    {opening : RuntimeAct Bool} (hassessing : r.assessing operation = handedOver allowRestore (opening r))
    (hdrifts : Act.Within Drifts opening)
    (hresumes : Resumes Drifts allowRestore (opening r) (r.perform operation).2) :
    r.Phases operation := by
  have hd := hdrifts r
  rw [Phases, hassessing]
  rcases hopen : opening r with ⟨_ | _ | _, a⟩
  · rw [hopen] at hresumes hd
    rw [show (r.perform operation).2 = a from hresumes]
    exact hd
  · rw [hopen] at hresumes hd
    rw [show (r.perform operation).2 = a from hresumes]
    exact hd
  · rw [hopen] at hresumes hd
    exact ⟨hd, hresumes⟩

/-- A method is its opening, then the assessment if the opening hands over, then steps along a
relation. -/
def Continues (R : PartitionRuntime → PartitionRuntime → Prop) (allowRestore : Bool) {α : Type}
    (opening : RuntimeAct Bool) (method : RuntimeAct α) : Prop :=
  ∀ r, Resumes R allowRestore (opening r) (method r).2

namespace Continues

variable {R : PartitionRuntime → PartitionRuntime → Prop} {allowRestore : Bool} {α γ : Type}

theorem read {f : PartitionRuntime → RuntimeAct Bool} {g : PartitionRuntime → RuntimeAct α}
    (h : ∀ r, Continues R allowRestore (f r) (g r)) :
    Continues R allowRestore (Act.read >>= f) (Act.read >>= g) := fun r => h r r

theorem bind {m : RuntimeAct γ} {f : γ → RuntimeAct Bool} {g : γ → RuntimeAct α}
    (h : ∀ c, Continues R allowRestore (f c) (g c)) :
    Continues R allowRestore (m >>= f) (m >>= g) := by
  intro r
  rw [Act.bind_apply, Act.bind_apply]
  rcases m r with ⟨_ | c, t⟩
  · rfl
  · exact h c t

/-- A refusal is the whole method. -/
theorem refused (m : RuntimeAct α) :
    Continues R allowRestore (m >>= fun _ => pure false) m := by
  intro r
  rw [Act.bind_apply]
  rcases m r with ⟨_ | c, t⟩
  · rfl
  · rfl

/-- The last step before the assessment. -/
theorem assessed (hrefl : ∀ r, R r r) (m : RuntimeAct γ)
    {g : γ → PartitionAssessment → RuntimeAct α} (hg : ∀ c outcome, Act.Within R (g c outcome)) :
    Continues R allowRestore (m >>= fun _ => pure true)
      (m >>= fun c => assessLocked allowRestore >>= g c) := by
  intro r
  rw [Act.bind_apply, Act.bind_apply]
  rcases m r with ⟨_ | c, t⟩
  · rfl
  · show R (assessLocked allowRestore t).2 ((assessLocked allowRestore >>= g c) t).2
    rw [Act.bind_apply]
    rcases assessLocked allowRestore t with ⟨_ | outcome, u⟩
    · exact hrefl u
    · exact hg c outcome u

end Continues

section Continues

variable {R : PartitionRuntime → PartitionRuntime → Prop}

theorem concludeIsolation_continues (hrefl : ∀ r, R r r) (decision : Decision) :
    Continues R false (isolationOpening decision true) (concludeIsolation decision) :=
  Continues.assessed hrefl (finishIsolation decision) fun _ _ => .pure hrefl _

theorem isolate_continues (hrefl : ∀ r, R r r) (request : IsolationRequest) :
    Continues R false (isolateOpening request) (isolate request) := by
  refine .read fun r => ?_
  dsimp only
  rcases r.admissionCheck request.attempt _ with _ | refusal
  · refine .bind fun _ => .read fun r => ?_
    rcases r.isolateCheck request _ with _ | refusal
    · exact .bind fun _ => concludeIsolation_continues hrefl _
    · exact .refused _
  · exact .refused _

theorem clearIsolation_continues (hrefl : ∀ r, R r r) (request : IsolationRequest) :
    Continues R false (clearIsolationOpening request) (clearIsolation request) := by
  refine .read fun r => ?_
  dsimp only
  rcases r.admissionCheck request.attempt _ with _ | refusal
  · refine .bind fun _ => .read fun r => ?_
    rcases r.epochRefusal request.expectedEpoch request.lineage.text _ with _ | refusal
    · refine .bind fun _ => ?_
      split
      · exact concludeIsolation_continues hrefl _
      · exact concludeIsolation_continues hrefl _
    · exact .refused _
  · exact .refused _

theorem commitMerge_continues (hrefl : ∀ r, R r r) (request : MergeRequest) (subject : Partition)
    (decision : Decision) : Continues R false (mergeOpening request subject decision)
      (commitMerge request subject decision) := by
  refine .read fun r => ?_
  refine .bind fun decision => .read fun r => ?_
  rcases r.state.lineageSequence.next with _ | sequence
  · exact .refused _
  · refine .bind fun committed => ?_
    split
    · exact .refused _
    · rcases r.lineage.append _ with _ | lineage
      · exact .refused _
      · refine .bind fun _ => .bind fun decision => .bind fun _ => ?_
        exact Continues.assessed hrefl (finalizeDecision decision) fun _ _ => .pure hrefl _

theorem requestMerge_continues (hrefl : ∀ r, R r r) (request : MergeRequest) :
    Continues R false (requestMergeOpening request) (requestMerge request) := by
  refine .read fun r => ?_
  dsimp only
  rcases r.admissionCheck request.attempt _ with _ | refusal
  · refine .bind fun _ => .read fun r => ?_
    rcases r.mergeCheck request _ with refusal | subject
    · exact .refused _
    · exact commitMerge_continues hrefl _ _ _
  · exact .refused _

/-- `revalidate` from its assessment on. -/
def reassertAuthority (decision : Decision) (interruptedBefore : Nat)
    (refreshed : PartitionAssessment) : RuntimeAct RevalidationOutcome := do
  let acc ← Act.forEach revalidatePartition { decision := decision } refreshed.partitions
  let r ← Act.read
  let decision := r.explainAbsent refreshed.partitions acc.restored acc.decision
  Act.modify fun r => { r with
    interrupted := r.interrupted.filter fun entry =>
      !isRestored refreshed.partitions acc.restored entry }
  let decision := r.revalidationVerdict refreshed.reachability acc.restored interruptedBefore
    decision
  finishRevalidation { decision with authority := refreshed.decision.authority }
    refreshed.partitions acc.restored acc.stillInterrupted

theorem restoreAuthority_continues (hrefl : ∀ r, R r r) {decision : Decision}
    (hrest : ∀ n refreshed, Act.Within R (reassertAuthority decision n refreshed)) :
    Continues R true (pure true) (restoreAuthority decision) := by
  intro r
  show R (assessLocked true r).2 ((assessLocked true >>=
    reassertAuthority decision r.interrupted.length) r).2
  rw [Act.bind_apply]
  rcases assessLocked true r with ⟨_ | refreshed, t⟩
  · exact hrefl t
  · exact hrest _ refreshed t

theorem revalidate_continues (hrefl : ∀ r, R r r) (request : RevalidationRequest)
    (hrest : ∀ (r : PartitionRuntime) n refreshed, Act.Within R
      (reassertAuthority (r.makeDecision .revalidate .invalid fabricScope) n refreshed)) :
    Continues R true (revalidateOpening request) (revalidate request) := by
  refine .read fun r => ?_
  dsimp only
  rcases r.admissionCheck request.attempt _ with _ | refusal
  · refine .bind fun _ => .read fun s => ?_
    rcases s.revalidateCheck request _ with _ | refusal
    · exact restoreAuthority_continues hrefl (hrest r)
    · exact .refused _
  · exact .refused _

end Continues

theorem reassertAuthority_drifts (decision : Decision) (n : Nat) (refreshed : PartitionAssessment) :
    Act.Within Drifts (reassertAuthority decision n refreshed) := by
  refine .bind Drifts.trans (.forEach Drifts.refl Drifts.trans revalidatePartition_drifts _ _)
    fun acc => .read_then fun r => ?_
  exact modify_then_drifts (fun _ => rfl) (fun _ => rfl) (finishRevalidation_drifts _ _ _ _)

/-- **Every operation but `close` drifts up to its assessment, and drifts again after it.** -/
theorem perform_phases (r : PartitionRuntime) {operation : Operation}
    (hclose : operation ≠ .close) : r.Phases operation := by
  cases operation with
  | advanceTicks delta => exact advanceTicks_drifts delta r
  | adoptTopology definition =>
    show Drifts r (respond _ _ r).2
    rw [respond_snd]
    exact adoptTopology_drifts definition r
  | setPolicy policy =>
    show Drifts r (respond _ _ r).2
    rw [respond_snd]
    exact setPolicy_drifts policy r
  | ingestEvidence evidence =>
    show Drifts r (respond _ _ r).2
    rw [respond_snd]
    exact ingestEvidence_drifts evidence r
  | assess =>
    show Drifts r r ∧ Drifts (assessLocked false r).2 (respond _ _ r).2
    rw [respond_snd]
    exact ⟨.refl r, .refl _⟩
  | requestMerge request =>
    refine phases_of_resumes rfl (requestMergeOpening_drifts request) ?_
    rw [perform, respond_snd]
    exact requestMerge_continues Drifts.refl request r
  | isolate request =>
    refine phases_of_resumes rfl (isolateOpening_drifts request) ?_
    rw [perform, respond_snd]
    exact isolate_continues Drifts.refl request r
  | clearIsolation request =>
    refine phases_of_resumes rfl (clearIsolationOpening_drifts request) ?_
    rw [perform, respond_snd]
    exact clearIsolation_continues Drifts.refl request r
  | retire request =>
    show Drifts r (respond _ _ r).2
    rw [respond_snd]
    exact retire_drifts request r
  | revalidate request =>
    refine phases_of_resumes rfl (revalidateOpening_drifts request) ?_
    rw [perform, respond_snd]
    exact revalidate_continues Drifts.refl request (fun _ _ _ => reassertAuthority_drifts _ _ _) r
  | recordAcknowledgement ack =>
    show Drifts r (respond _ _ r).2
    rw [respond_snd]
    exact recordAcknowledgement_drifts ack r
  | recordVerifiedEffect effect =>
    show Drifts r (respond _ _ r).2
    rw [respond_snd]
    exact recordVerifiedEffect_drifts effect r
  | close => exact absurd rfl hclose

/-! ## The last assessment -/

/-- A call completes an assessment. -/
def Completes (r : PartitionRuntime) (c : Call) : Prop :=
  ∃ allowRestore a outcome,
    (r.withFaults c.faults).assessing c.operation = some (allowRestore, a) ∧
      (assessLocked allowRestore a).1 = .ok outcome

/-- **A call that completes no assessment** leaves the last one. -/
theorem call_assessment {r : PartitionRuntime} {c : Call} (h : ¬ r.Completes c) :
    (r.call c).2.assessment = r.assessment := by
  show ((r.withFaults c.faults).perform c.operation).2.assessment = (r.withFaults c.faults).assessment
  by_cases hclose : c.operation = .close
  · rw [hclose]
    show (r.withFaults c.faults).close.assessment = _
    rw [close]
    split <;> rfl
  · have hphases := perform_phases (r.withFaults c.faults) hclose
    rw [Phases] at hphases
    rcases hassessing : (r.withFaults c.faults).assessing c.operation with _ | ⟨allowRestore, a⟩
    · rw [hassessing] at hphases
      obtain ⟨_, _, hdrift⟩ := hphases
      exact hdrift.assessment
    · rw [hassessing] at hphases
      obtain ⟨⟨_, _, hbefore⟩, ⟨_, _, hafter⟩⟩ := hphases
      have hleaves := assessLocked_leaves allowRestore a
      rw [hafter.assessment, ← hbefore.assessment]
      rcases hres : (assessLocked allowRestore a).1 with e | outcome
      · rw [hres] at hleaves
        exact hleaves
      · exact absurd ⟨allowRestore, a, outcome, hassessing, hres⟩ h

/-- A request to assess leaves what it returns. -/
theorem call_assess {r : PartitionRuntime} {faults : List (Option AppendFault)}
    {outcome : PartitionAssessment} (h : (r.call ⟨.assess, faults⟩).1 = .assessment outcome) :
    (r.call ⟨.assess, faults⟩).2.assessment = outcome := by
  have hleaves := assessLocked_leaves false (r.withFaults faults)
  have hresponse : (respond .assessment (assessLocked false) (r.withFaults faults)).1
      = .assessment outcome := h
  show (respond .assessment (assessLocked false) (r.withFaults faults)).2.assessment = outcome
  rw [respond_snd]
  rw [respond] at hresponse
  rcases hrun : assessLocked false (r.withFaults faults) with ⟨e | own, s⟩
  · rw [hrun] at hresponse
    cases hresponse
  · rw [hrun] at hresponse hleaves
    obtain rfl := Response.assessment.inj hresponse
    exact hleaves

end PartitionRuntime

end FabricPartition
