import FabricPartition.Evaluation
import FabricPartition.Fencing

/-!
# What an assessment grades its partitions

The partitions an assessment returns are the evaluated ones, with lifecycles and reasons filled in, so
each shows the class, the basis and the capabilities the rules give it (`assessLocked_graded`).  Three
consequences are drawn here, each with the exact condition the code needs for it:

* `splitBrain_decided_iff` — two partitions with a full quorum make a conflict exactly when two of
  them are under no cap: the source counts the classes, after the caps, and not the quorums;
* `capabilities_match_iff` — nothing ineligible is authorised exactly when the masks of the policy are
  nested where a cap leads from one to the other, and the counter does not run out;
* `basis_explains_iff` — the basis names a rule with the class that was given exactly when the last
  rule that applied is one of the weakest.
-/

set_option autoImplicit false

namespace FabricPartition

namespace PartitionRuntime

/-! ## The partitions of an assessment -/

/-- The runtime as its assessment sees it: the snapshot is the one of the current inputs. -/
def resolved (r : PartitionRuntime) : PartitionRuntime := { r with snapshot := r.currentSnapshot }

/-- The second partition is the first one with its lifecycle and reasons filled in. -/
def Redressed (p q : Partition) : Prop :=
  ∃ lifecycle reasons, q = { p with lifecycle := lifecycle, reasons := reasons }

theorem assessGeneration_evaluated {allowRestore : Bool} {b b' : PartitionRuntime}
    {outcome : PartitionAssessment} (hvalid : b.snapshot.valid = true)
    (h : assessGeneration allowRestore b = (.ok outcome, b')) :
    let evaluation := b.evaluateAuthority
      (buildPartitions b.snapshot b.state.partitionGeneration b.lineage b.limits) allowRestore
    List.Forall₂ Redressed evaluation.partitions outcome.partitions ∧
      outcome.decision.verdict = evaluation.verdict := by
  intro evaluation
  rw [assessGeneration, Act.read_bind] at h
  simp only [hvalid, Bool.not_true, Bool.false_eq_true, if_false] at h
  rw [Act.modify_bind] at h
  rcases Act.bind_cases h with ⟨d, s, hd, hs⟩ | ⟨e, -, he⟩
  · obtain ⟨-, ⟨d', hok, hverdict⟩ | ⟨herr, -⟩⟩ := finalizeDecision_cases hd
    · cases hok
      rw [Act.total_bind, Act.total_apply] at hs
      cases hs
      exact ⟨(commitLineages_cases (Prod.eta _).symm).1, hverdict⟩
    · cases herr
  · cases he

/-- **A returned assessment** lists the partitions of an evaluation, and reports its verdict. -/
theorem assessLocked_evaluated {allowRestore : Bool} {r r' : PartitionRuntime}
    {outcome : PartitionAssessment} (h : assessLocked allowRestore r = (.ok outcome, r')) :
    outcome.partitions = [] ∨
    ∃ generation,
      let b := beginAssessment generation r
      let evaluation := b.evaluateAuthority
        (buildPartitions b.snapshot b.state.partitionGeneration b.lineage b.limits) allowRestore
      List.Forall₂ Redressed evaluation.partitions outcome.partitions ∧
        outcome.decision.verdict = evaluation.verdict := by
  rcases assessLocked_cases h with ⟨-, _, _, -, -, -, ⟨a, ha, hnil⟩ | herr⟩ | ⟨herr, -⟩ |
    ⟨generation, hclosed, hroster, hnext, ⟨herr, -⟩ | ⟨o, ho, hs⟩⟩
  · cases ha
    exact .inl hnil
  · cases herr
  · cases herr
  · cases herr
  · cases ho
    by_cases hvalid : (beginAssessment generation r).snapshot.valid = true
    · refine .inr ⟨generation, assessGeneration_evaluated hvalid
        (?_ : assessGeneration allowRestore (beginAssessment generation r) = (.ok outcome, r'))⟩
      rwa [assessLocked, Act.read_bind, if_neg (by simp [hclosed]), if_neg (by simp [hroster]),
        hnext] at h
    · obtain ⟨_, _, _, _, -, -, ⟨hvalid', -⟩ | ⟨-, -, -, hnil, -⟩⟩ := hs
      · exact absurd hvalid' hvalid
      · exact .inl hnil

section Dressed

variable {r : PartitionRuntime} {allowRestore : Bool} {p q : Partition}

theorem meetsFull_dressed (h : p.Dresses q) : r.meetsFull q = r.meetsFull p := by
  obtain ⟨_, _, _, _, _, rfl⟩ := h
  rfl

theorem quorumRule_dressed (h : p.Dresses q) : r.quorumRule q = r.quorumRule p := by
  obtain ⟨_, _, _, _, _, rfl⟩ := h
  rfl

theorem capTable_dressed (h : p.Dresses q) :
    r.capTable allowRestore q = r.capTable allowRestore p := by
  obtain ⟨_, _, _, _, _, rfl⟩ := h
  rfl

theorem preliminaryClass_dressed (h : p.Dresses q) :
    r.preliminaryClass allowRestore q = r.preliminaryClass allowRestore p := by
  rw [preliminaryClass, preliminaryClass, appliedCaps, appliedCaps, capTable_dressed h,
    quorumRule_dressed h]

theorem preliminaryBasis_dressed (h : p.Dresses q) :
    r.preliminaryBasis allowRestore q = r.preliminaryBasis allowRestore p := by
  rw [preliminaryBasis, preliminaryBasis, appliedCaps, appliedCaps, capTable_dressed h,
    quorumRule_dressed h]

end Dressed

theorem splitBrain_dressed {r : PartitionRuntime} {allowRestore : Bool} {ps qs : List Partition}
    (h : List.Forall₂ Partition.Dresses ps qs) :
    r.splitBrain allowRestore qs = r.splitBrain allowRestore ps := by
  rw [splitBrain, splitBrain, contenders, contenders,
    countP_of_forall₂ (f := fun p => r.preliminaryClass allowRestore p == .primary)
      (g := fun p => r.preliminaryClass allowRestore p == .primary)
      (h.imp fun p q hpq => by rw [preliminaryClass_dressed hpq])]

theorem demoted_dressed {r : PartitionRuntime} {allowRestore : Bool} {ps qs : List Partition}
    (h : List.Forall₂ Partition.Dresses ps qs) {p q : Partition} (hpq : p.Dresses q) :
    r.demoted allowRestore qs q = r.demoted allowRestore ps p := by
  rw [demoted, demoted, splitBrain_dressed h, preliminaryClass_dressed hpq]

theorem finalClass_dressed {r : PartitionRuntime} {allowRestore : Bool} {ps qs : List Partition}
    (h : List.Forall₂ Partition.Dresses ps qs) {p q : Partition} (hpq : p.Dresses q) :
    r.finalClass allowRestore qs q = r.finalClass allowRestore ps p := by
  rw [finalClass, finalClass, demoted_dressed h hpq, preliminaryClass_dressed hpq]

/-- What a partition shows can be read off the dressed list itself. -/
theorem Graded.dressed {r : PartitionRuntime} {allowRestore : Bool} {ps qs : List Partition}
    {p q : Partition} (h : List.Forall₂ Partition.Dresses ps qs)
    (hq : r.Graded allowRestore ps p q) : r.Graded allowRestore qs q q := by
  refine ⟨.refl q, ?_, ?_, ?_, hq.withheld, hq.authorized⟩
  · rw [hq.authorityClass, finalClass_dressed h hq.dresses]
  · rw [hq.basis, finalBasis, finalBasis, demoted_dressed h hq.dresses,
      preliminaryBasis_dressed hq.dresses]
  · rw [hq.eligible, quorumRule_dressed hq.dresses]

theorem Graded.redressed {r : PartitionRuntime} {allowRestore : Bool} {ps : List Partition}
    {p q s : Partition} (hq : r.Graded allowRestore ps p q) (h : Redressed q s) :
    r.Graded allowRestore ps p s := by
  obtain ⟨_, _, rfl⟩ := h
  exact ⟨hq.dresses.trans ⟨_, _, _, _, _, rfl⟩, hq.authorityClass, hq.basis, hq.eligible, hq.withheld,
    hq.authorized⟩

theorem Spends.redressed {policy : PartitionPolicy} {counter : Nat} {ps qs : List Partition}
    (h : List.Forall₂ Redressed ps qs) (hps : Spends policy counter ps) :
    Spends policy counter qs := by
  induction h generalizing counter with
  | nil => exact trivial
  | cons hpq _ ih =>
    obtain ⟨_, _, rfl⟩ := hpq
    exact ⟨hps.1, ih hps.2⟩

/-- **The partitions of an assessment** show what the rules give them, the snapshot being the one the
current inputs resolve to; the verdict is the one of their classes, and the counter was spent on them
in order. -/
theorem assessLocked_graded {allowRestore : Bool} {r r' : PartitionRuntime}
    {outcome : PartitionAssessment} (h : assessLocked allowRestore r = (.ok outcome, r')) :
    outcome.partitions = [] ∨
      (∀ q ∈ outcome.partitions, r.resolved.Graded allowRestore outcome.partitions q q) ∧
      outcome.decision.verdict = classVerdict (r.resolved.splitBrain allowRestore outcome.partitions)
        (outcome.partitions.map (r.resolved.finalClass allowRestore outcome.partitions)) ∧
      Spends r.policy r.state.authoritySequence.value.toNat outcome.partitions := by
  rcases assessLocked_evaluated h with hnil | ⟨generation, hall, hverdict⟩
  · exact .inl hnil
  · generalize hb : beginAssessment generation r = b at hall hverdict
    generalize buildPartitions b.snapshot b.state.partitionGeneration b.lineage b.limits = ps
      at hall hverdict
    have hgraded : List.Forall₂ (b.Graded allowRestore ps) ps outcome.partitions :=
      (forall₂_comp (b.evaluateAuthority_graded ps allowRestore) hall).imp
        fun p q ⟨_, hg, hr⟩ => hg.redressed hr
    have hdressed := hgraded.imp fun p q h => h.dresses
    have hfinal : ps.map (b.finalClass allowRestore ps)
        = outcome.partitions.map (b.finalClass allowRestore outcome.partitions) :=
      map_eq_of_forall₂ (hdressed.imp fun p q h => (finalClass_dressed hdressed h).symm)
    rw [evaluateAuthority_verdict, ← splitBrain_dressed hdressed, hfinal] at hverdict
    have hclasses : ∀ q ∈ outcome.partitions, b.Graded allowRestore outcome.partitions q q := by
      intro q hq
      obtain ⟨p, -, hp⟩ := exists_of_forall₂ hgraded hq
      exact hp.dressed hdressed
    have hspends := (b.evaluateAuthority_spends ps allowRestore).redressed hall
    -- the evaluation reads nothing that the new generation number changes
    subst hb
    refine .inr ⟨fun q hq => ?_, hverdict, hspends⟩
    obtain ⟨hdress, hclass, hbasis, heligible, hwithheld, hauthorized⟩ := hclasses q hq
    exact ⟨hdress, hclass, hbasis, heligible, hwithheld, hauthorized⟩

/-! ## Split brain -/

/-- No cap applies to the partition. -/
def uncapped (r : PartitionRuntime) (allowRestore : Bool) (p : Partition) : Bool :=
  decide (p.pendingMergeParents = []) && r.snapshot.anyEvidenceFresh
    && (r.snapshot.confirmed || !(r.policy.unknownEvidenceDowngrades
      || r.policy.requireConfirmedPartitionForWrite || r.policy.requireConfirmedPartitionForRead))
    && !r.isIsolated p.lineage && !(r.isInterrupted p.lineage && !allowRestore)

theorem mem_appliedCaps {r : PartitionRuntime} {allowRestore : Bool} {p : Partition}
    {rule : AuthorityRule} :
    rule ∈ r.appliedCaps allowRestore p ↔ (true, rule) ∈ r.capTable allowRestore p := by
  rw [appliedCaps, List.mem_map]
  refine ⟨?_, fun h => ⟨_, List.mem_filter.mpr ⟨h, rfl⟩, rfl⟩⟩
  rintro ⟨⟨applies, rule⟩, hrow, rfl⟩
  obtain ⟨hrow, rfl⟩ := List.mem_filter.mp hrow
  exact hrow

theorem uncapped_iff {r : PartitionRuntime} {allowRestore : Bool} {p : Partition} :
    r.uncapped allowRestore p = true ↔ r.appliedCaps allowRestore p = [] := by
  rw [appliedCaps, List.map_eq_nil_iff, List.filter_eq_nil_iff, uncapped, capTable]
  simp only [List.forall_mem_cons, List.not_mem_nil, false_imp_iff, implies_true]
  cases r.snapshot.confirmed <;> cases r.isInterrupted p.lineage <;> simp [and_assoc]

/-- Every cap is weaker than a primary. -/
theorem primary_lt_cap {r : PartitionRuntime} {allowRestore : Bool} {p : Partition}
    {rule : AuthorityRule} (h : rule ∈ r.appliedCaps allowRestore p) : .primary < rule.cap := by
  rw [mem_appliedCaps, capTable] at h
  simp only [List.mem_cons, Prod.mk.injEq, List.not_mem_nil, or_false] at h
  rcases h with ⟨-, rfl⟩ | ⟨-, rfl⟩ | ⟨-, rfl⟩ | ⟨-, rfl⟩ | ⟨-, rfl⟩ | ⟨-, rfl⟩ | ⟨-, rfl⟩ <;> decide

/-- **A partition comes out of the rules as primary** when it has a full quorum and no cap. -/
theorem preliminaryClass_eq_primary_iff {r : PartitionRuntime} {allowRestore : Bool}
    {p : Partition} :
    r.preliminaryClass allowRestore p = .primary ↔
      r.meetsFull p = true ∧ r.uncapped allowRestore p = true := by
  rw [uncapped_iff]
  refine ⟨fun h => ?_, fun ⟨hfull, hnone⟩ => ?_⟩
  · have hle := (r.isGreatest_preliminaryClass allowRestore p).2
    rw [h] at hle
    refine ⟨?_, List.eq_nil_iff_forall_not_mem.mpr fun rule hrule =>
      absurd (hle (.inr (List.mem_map_of_mem hrule))) (not_le.mpr (primary_lt_cap hrule))⟩
    have hquorum := hle (.inl rfl)
    rw [quorumRule] at hquorum
    by_contra hfull
    rw [if_neg hfull] at hquorum
    split at hquorum <;> exact absurd hquorum (by decide)
  · rw [preliminaryClass, hnone, quorumRule, if_pos hfull]
    rfl

/-- Beside a partition without caps, the caps of another are those of its own lineage. -/
theorem cap_beside_uncapped {r : PartitionRuntime} {allowRestore : Bool} {p q : Partition}
    (hq : r.uncapped allowRestore q = true) {rule : AuthorityRule}
    (h : rule ∈ r.appliedCaps allowRestore p) :
    rule.cap = .observeOnly ∨ rule.cap = .isolated := by
  rw [uncapped] at hq
  simp only [Bool.and_eq_true, Bool.or_eq_true, Bool.not_eq_true', Bool.or_eq_false_iff] at hq
  obtain ⟨⟨⟨⟨-, hfresh⟩, hconfirmed⟩, -⟩, -⟩ := hq
  rw [mem_appliedCaps, capTable] at h
  simp only [List.mem_cons, Prod.mk.injEq, List.not_mem_nil, or_false] at h
  rcases h with ⟨-, rfl⟩ | ⟨-, rfl⟩ | ⟨happlies, rfl⟩ | ⟨happlies, rfl⟩ | ⟨-, rfl⟩ | ⟨-, rfl⟩ |
    ⟨-, rfl⟩
  · exact .inl rfl
  · exact .inl rfl
  · exact absurd happlies.symm (by rcases hconfirmed with h | ⟨⟨h, -⟩, -⟩ <;> simp [h])
  · exact absurd happlies.symm (by rcases hconfirmed with h | ⟨⟨-, h⟩, -⟩ <;> simp [h])
  · exact .inl rfl
  · exact .inr rfl
  · exact .inl rfl

/-- In a split brain, a full quorum is left with observation at most. -/
theorem finalClass_of_splitBrain {r : PartitionRuntime} {allowRestore : Bool} {ps : List Partition}
    (h : r.splitBrain allowRestore ps = true) {p : Partition} (hfull : r.meetsFull p = true) :
    r.finalClass allowRestore ps p = .observeOnly ∨ r.finalClass allowRestore ps p = .isolated := by
  by_cases hprimary : r.preliminaryClass allowRestore p = .primary
  · rw [finalClass, if_pos ((r.demoted_iff allowRestore ps p).mpr ⟨h, hprimary⟩)]
    exact .inl rfl
  · rw [finalClass, if_neg fun hd => hprimary ((r.demoted_iff allowRestore ps p).mp hd).2]
    have hcount : 0 < r.contenders allowRestore ps :=
      Nat.lt_trans Nat.zero_lt_one ((r.splitBrain_iff allowRestore ps).mp h).1
    obtain ⟨q, -, hq⟩ := List.countP_pos_iff.mp hcount
    have hq := (preliminaryClass_eq_primary_iff.mp (by simpa using hq)).2
    rcases (r.isGreatest_preliminaryClass allowRestore p).1 with heq | hmem
    · rw [quorumRule, if_pos hfull] at heq
      exact absurd heq hprimary
    · obtain ⟨rule, hrule, hcap⟩ := List.mem_map.mp hmem
      rw [← hcap]
      exact cap_beside_uncapped hq hrule

theorem classVerdict_false_ne_conflict (classes : List PartitionAuthorityClass) :
    classVerdict false classes ≠ .conflict := by
  rw [classVerdict, if_neg Bool.false_ne_true]
  split
  · decide
  · split
    · decide
    · split <;> decide

/-- **Split brain is decided by quorum** exactly when two of the full quorums are under no cap. -/
theorem splitBrain_decided_iff {allowRestore : Bool} {r r' : PartitionRuntime}
    {outcome : PartitionAssessment} (h : assessLocked allowRestore r = (.ok outcome, r'))
    (hsingle : r.policy.allowMultipleAuthoritativePartitions = false)
    (hfull : 2 ≤ outcome.partitions.countP r.meetsFull) :
    (outcome.decision.verdict = .conflict ∧
        ∀ p ∈ outcome.partitions, r.meetsFull p = true →
          p.authority.authorityClass = .observeOnly ∨ p.authority.authorityClass = .isolated) ↔
      2 ≤ outcome.partitions.countP fun p => r.meetsFull p && r.resolved.uncapped allowRestore p := by
  rcases assessLocked_graded h with hnil | ⟨hgraded, hverdict, -⟩
  · rw [hnil] at hfull
    exact absurd hfull (by simp)
  have hcount : outcome.partitions.countP
        (fun p => r.meetsFull p && r.resolved.uncapped allowRestore p)
      = r.resolved.contenders allowRestore outcome.partitions := by
    refine List.countP_congr fun p _ => ?_
    rw [Bool.and_eq_true, beq_iff_eq, preliminaryClass_eq_primary_iff]
    rfl
  have hsplit : r.resolved.splitBrain allowRestore outcome.partitions = true ↔
      2 ≤ r.resolved.contenders allowRestore outcome.partitions :=
    (r.resolved.splitBrain_iff allowRestore outcome.partitions).trans
      ⟨fun hlt => hlt.1, fun hle => ⟨hle, hsingle⟩⟩
  rw [hcount, ← hsplit]
  refine ⟨fun hdecided => ?_, fun hs => ⟨?_, fun p hp hp' => ?_⟩⟩
  · by_contra hs
    have hconflict := hdecided.1
    rw [hverdict, eq_false_of_ne_true hs] at hconflict
    exact classVerdict_false_ne_conflict _ hconflict
  · rw [hverdict, hs]
    rfl
  · rw [(hgraded p hp).authorityClass]
    exact finalClass_of_splitBrain hs hp'

/-- A policy under which a single component is a full quorum. -/
def singlePolicy : PartitionPolicy :=
  { id := named _ "q", generation := ⟨2⟩, fullAuthority := { minComponents := 1 } }

/-- Under a policy, two components are found apart. -/
def partingUnder (policy : PartitionPolicy) : List Call := ⟨.setPolicy policy, []⟩ :: parting

/-- A request to isolate the lineage of the first partition. -/
def isolateFirst (attempt : Nat) (duration : UInt64) (r : PartitionRuntime) : IsolationRequest where
  attempt := smallAttempt attempt
  expectedEpoch := r.state.epoch
  lineage := (r.partitions.headD {}).lineage
  durationTicks := duration

/-- Two components are found apart, and the first is isolated. -/
def isolatedUnder (policy : PartitionPolicy) : PartitionRuntime :=
  let r := smallRuntime.after (partingUnder policy)
  (r.call ⟨.isolate (isolateFirst 1 0 r), []⟩).2

/-- One of two full quorums is isolated, and the other one is granted the fabric. -/
theorem isolated_quorum_uncounted :
    let r := isolatedUnder singlePolicy
    r.policy.allowMultipleAuthoritativePartitions = false ∧
      ∃ outcome ∈ (assess r).1.toOption, 2 ≤ outcome.partitions.countP r.meetsFull ∧
        outcome.decision.verdict = .granted ∧
        ∃ p ∈ outcome.partitions, r.meetsFull p = true ∧ p.authority.authorityClass = .primary := by
  decide +kernel

theorem eq_ok_of_mem_toOption {ε α : Type} {res : Except ε α} {a : α} (h : a ∈ res.toOption) :
    res = .ok a := by
  rcases res with e | b
  · cases h
  · cases h
    rfl

theorem two_quorums_decided :
    let r := smallRuntime.after (partingUnder singlePolicy)
    ∃ outcome ∈ (assessLocked false r).1.toOption, outcome.decision.verdict = .conflict ∧
      ∀ p ∈ outcome.partitions, r.meetsFull p = true →
        p.authority.authorityClass = .observeOnly ∨ p.authority.authorityClass = .isolated := by
  intro r
  have hrun : ∃ outcome ∈ (assessLocked false r).1.toOption,
      r.policy.allowMultipleAuthoritativePartitions = false ∧
      2 ≤ outcome.partitions.countP r.meetsFull ∧
      2 ≤ outcome.partitions.countP
        fun p => r.meetsFull p && r.resolved.uncapped false p := by
    decide +kernel
  clear_value r
  obtain ⟨outcome, hmem, hsingle, hfull, huncapped⟩ := hrun
  have h : assessLocked false r = (.ok outcome, (assessLocked false r).2) :=
    Prod.ext (eq_ok_of_mem_toOption hmem) rfl
  exact ⟨outcome, hmem, (splitBrain_decided_iff h hsingle hfull).mpr huncapped⟩

/-! ## Capabilities -/

/-- A cap to observation applies. -/
def observeCapped (r : PartitionRuntime) (allowRestore : Bool) (p : Partition) : Bool :=
  decide (p.pendingMergeParents ≠ []) || !r.snapshot.anyEvidenceFresh
    || (!r.snapshot.confirmed && r.policy.requireConfirmedPartitionForRead)
    || (r.isInterrupted p.lineage && !allowRestore)

/-- The cap of an unconfirmed decomposition to reading applies. -/
def readCapped (r : PartitionRuntime) : Bool :=
  !r.snapshot.confirmed && r.policy.requireConfirmedPartitionForWrite

/-- The cap of an unconfirmed decomposition to degraded authority applies. -/
def degradedCapped (r : PartitionRuntime) : Bool :=
  !r.snapshot.confirmed && r.policy.unknownEvidenceDowngrades

/-- **The weakest of the caps**, from the weakest class upwards. -/
theorem preliminaryClass_eq (r : PartitionRuntime) (allowRestore : Bool) (p : Partition) :
    r.preliminaryClass allowRestore p =
      if r.isIsolated p.lineage || !(r.meetsFull p || r.meetsDegraded p) then .isolated
      else if r.observeCapped allowRestore p then .observeOnly
      else if r.readCapped then .readOnly
      else if !r.meetsFull p || r.degradedCapped then .degraded
      else .primary := by
  rw [preliminaryClass, appliedCaps, capTable, quorumRule, observeCapped, readCapped, degradedCapped]
  generalize decide (p.pendingMergeParents ≠ []) = pending
  generalize (!r.snapshot.anyEvidenceFresh) = stale
  generalize (!r.snapshot.confirmed && r.policy.unknownEvidenceDowngrades) = downgraded
  generalize (!r.snapshot.confirmed && r.policy.requireConfirmedPartitionForWrite) = unwritable
  generalize (!r.snapshot.confirmed && r.policy.requireConfirmedPartitionForRead) = unreadable
  generalize r.isIsolated p.lineage = isolated
  generalize (r.isInterrupted p.lineage && !allowRestore) = interrupted
  generalize r.meetsFull p = full
  generalize r.meetsDegraded p = degraded
  revert pending stale downgraded unwritable unreadable isolated interrupted full degraded
  decide +kernel

end PartitionRuntime

namespace CapabilitySet

theorem containsAll_refl (s : CapabilitySet) : s.containsAll s = true := by
  simp [containsAll]

theorem containsAll_none (s : CapabilitySet) : s.containsAll .none = true := by
  show (s.bits &&& 0 == 0) = true
  rw [UInt32.and_zero]
  rfl

theorem all_containsAll_observe : all.containsAll (of .observe) = true := by
  decide

theorem eq_none_of_empty {s : CapabilitySet} (h : s.empty = true) : s = .none := by
  obtain ⟨bits⟩ := s
  exact congrArg CapabilitySet.mk (eq_of_beq h)

theorem empty_of_none_containsAll {s : CapabilitySet} (h : none.containsAll s = true) :
    s.empty = true := by
  change (0 &&& s.bits == s.bits) = true at h
  rw [UInt32.zero_and, beq_iff_eq] at h
  exact beq_iff_eq.mpr h.symm

end CapabilitySet

namespace PartitionRuntime

/-- The masks are nested where a cap leads a partition from one to the other: from everything to
reading or degraded authority, from degraded authority to reading or observation. -/
def Nests (r : PartitionRuntime) (allowRestore : Bool) (p : Partition) : Prop :=
  r.isIsolated p.lineage = true ∨
    if r.meetsFull p then
      r.observeCapped allowRestore p = true ∨
        if r.readCapped then CapabilitySet.all.containsAll r.policy.readonlyCapabilities = true
        else r.degradedCapped = true →
          CapabilitySet.all.containsAll r.policy.degradedCapabilities = true
    else if r.meetsDegraded p then
      if r.observeCapped allowRestore p then
        r.policy.degradedCapabilities.containsAll (.of .observe) = true
      else r.readCapped = true →
        r.policy.degradedCapabilities.containsAll r.policy.readonlyCapabilities = true
    else True

/-- Under a policy with nested masks, they are nested for every partition. -/
theorem Nests.of_masks {r : PartitionRuntime} (allowRestore : Bool) (p : Partition)
    (hdegraded : CapabilitySet.all.containsAll r.policy.degradedCapabilities = true)
    (hreadonly : CapabilitySet.all.containsAll r.policy.readonlyCapabilities = true)
    (hread : r.policy.degradedCapabilities.containsAll r.policy.readonlyCapabilities = true)
    (hobserve : r.policy.degradedCapabilities.containsAll (.of .observe) = true) :
    r.Nests allowRestore p := by
  refine .inr ?_
  split
  · refine .inr ?_
    split
    · exact hreadonly
    · exact fun _ => hdegraded
  · split
    · split
      · exact hobserve
      · exact fun _ => hread
    · exact trivial

/-- The masks of the policy a runtime starts with are nested. -/
example :
    let masks := capabilitiesForClass smallRuntime.policy
    CapabilitySet.all.containsAll (masks .degraded) = true ∧
      (masks .degraded).containsAll (masks .readOnly) = true ∧
      (masks .degraded).containsAll (masks .observeOnly) = true := by
  decide +kernel

/-- **A class lies within the quorum class** exactly when the masks between them are nested. -/
theorem containsAll_finalClass_iff (r : PartitionRuntime) (allowRestore : Bool)
    (ps : List Partition) (p : Partition) :
    (capabilitiesForClass r.policy (r.quorumRule p).cap).containsAll
        (capabilitiesForClass r.policy (r.finalClass allowRestore ps p)) = true ↔
      r.Nests allowRestore p := by
  rw [finalClass, Nests]
  have hclass := r.preliminaryClass_eq allowRestore p
  by_cases hdemoted : r.demoted allowRestore ps p = true
  · -- the primaries of a split brain are under no cap, and everything contains observation
    have hprimary := ((r.demoted_iff allowRestore ps p).mp hdemoted).2
    obtain ⟨hfull, -⟩ := preliminaryClass_eq_primary_iff.mp hprimary
    rw [hprimary] at hclass
    refine iff_of_true ?_ (.inr ?_)
    · rw [if_pos hdemoted, quorumRule, if_pos hfull]
      exact CapabilitySet.all_containsAll_observe
    · rw [if_pos hfull]
      split at hclass
      · cases hclass
      split at hclass
      · cases hclass
      split at hclass
      · cases hclass
      rename_i hread
      split at hclass
      · cases hclass
      rename_i hdegraded
      rw [if_neg hread]
      exact .inr fun h => absurd (by simp [h]) hdegraded
  · rw [if_neg hdemoted, hclass, quorumRule]
    by_cases hisolated : r.isIsolated p.lineage = true
    · rw [hisolated]
      exact iff_of_true (CapabilitySet.containsAll_none _) (.inl rfl)
    by_cases hfull : r.meetsFull p = true
    · simp only [hisolated, hfull, Bool.true_or, Bool.not_true, Bool.or_self, Bool.false_eq_true,
        Bool.false_or, if_true, if_false, false_or]
      by_cases hobserve : r.observeCapped allowRestore p = true
      · simp only [hobserve, if_true, true_or, iff_true]
        exact CapabilitySet.all_containsAll_observe
      by_cases hread : r.readCapped = true
      · simp only [hobserve, hread, if_true, if_false, Bool.false_eq_true, false_or]
        exact Iff.rfl
      by_cases hdegraded : r.degradedCapped = true
      · simp only [hobserve, hread, hdegraded, if_true, if_false, Bool.false_eq_true, false_or,
          true_imp_iff]
        exact Iff.rfl
      · simp only [hobserve, hread, hdegraded, if_false, Bool.false_eq_true, false_or,
          false_imp_iff, iff_true]
        exact CapabilitySet.containsAll_refl _
    by_cases hquorum : r.meetsDegraded p = true
    · simp only [hisolated, hfull, hquorum, Bool.or_true, Bool.not_true, Bool.or_self,
        Bool.false_eq_true, Bool.not_false, Bool.true_or, if_true, if_false, false_or]
      by_cases hobserve : r.observeCapped allowRestore p = true
      · simp only [hobserve, if_true]
        exact Iff.rfl
      by_cases hread : r.readCapped = true
      · simp only [hobserve, hread, if_true, if_false, Bool.false_eq_true, true_imp_iff]
        exact Iff.rfl
      · simp only [hobserve, hread, if_false, Bool.false_eq_true, false_imp_iff, iff_true]
        exact CapabilitySet.containsAll_refl _
    · simp only [hisolated, hfull, hquorum, Bool.or_self, Bool.not_false, Bool.or_true, if_true,
        if_false, Bool.false_eq_true, or_true, iff_true]
      exact CapabilitySet.containsAll_none _

/-- Does the class of a partition draw a number from the counter? -/
def draws (policy : PartitionPolicy) (cls : PartitionAuthorityClass) : Bool :=
  !(capabilitiesForClass policy cls).empty

/-- **Every class gets its capabilities** exactly when the counter reaches for all that draw. -/
theorem Spends.all_iff {policy : PartitionPolicy} {counter : Nat} {qs : List Partition}
    (h : Spends policy counter qs) (hcounter : counter < 2 ^ 64) :
    (∀ q ∈ qs, q.authority.authorized = capabilitiesForClass policy q.authority.authorityClass) ↔
      counter + qs.countP (fun q => draws policy q.authority.authorityClass) < 2 ^ 64 := by
  induction qs generalizing counter with
  | nil => simpa using hcounter
  | cons q rest ih =>
    obtain ⟨hq, hrest⟩ := h
    rw [List.forall_mem_cons, List.countP_cons]
    by_cases hauthorized :
        q.authority.authorized = capabilitiesForClass policy q.authority.authorityClass
    · have hgranted : q.granted = draws policy q.authority.authorityClass := by
        rw [Partition.granted, hauthorized, draws]
      have hroom : counter + (if q.granted then 1 else 0) < 2 ^ 64 := by
        split
        · rename_i hg
          rcases hq with ⟨-, hlt⟩ | ⟨hnone, -⟩
          · have := hlt hg
            omega
          · rw [Partition.granted, hnone] at hg
            exact absurd hg (by decide)
        · omega
      rw [and_iff_right hauthorized, ih hrest hroom, hgranted]
      omega
    · rcases hq with ⟨heq, -⟩ | ⟨hnone, hmax⟩
      · exact absurd heq hauthorized
      · have hdraws : draws policy q.authority.authorityClass = true := by
          rw [draws, Bool.not_eq_true']
          by_contra hempty
          exact hauthorized (hnone.trans
            (CapabilitySet.eq_none_of_empty (eq_true_of_ne_false hempty)).symm)
        rw [hdraws, if_pos rfl]
        refine iff_of_false (fun hall => hauthorized hall.1) ?_
        omega

/-- The partition's vector passes the class check, withholds what it does not authorise, and stays
within the degraded mask where the quorum is the degraded one. -/
def Conforms (r : PartitionRuntime) (p : Partition) : Prop :=
  p.authority.matchesClassCapabilities r.policy = true ∧
    p.authority.withheld = p.authority.eligible.without p.authority.authorized ∧
    ((r.quorumRule p).cap = .degraded →
      r.policy.degradedCapabilities.containsAll p.authority.authorized = true)

/-- A vector conforms when the class got its capabilities, and they lie within the quorum class. -/
theorem Graded.conforms_iff {r : PartitionRuntime} {allowRestore : Bool} {ps : List Partition}
    {p : Partition} (h : r.Graded allowRestore ps p p) :
    r.Conforms p ↔
      p.authority.authorized = capabilitiesForClass r.policy p.authority.authorityClass ∧
        r.Nests allowRestore p := by
  rw [← r.containsAll_finalClass_iff allowRestore ps p, ← h.authorityClass, ← h.eligible]
  have hassigned : p.authority.authorityClass ≠ .unassigned := by
    rw [h.authorityClass]
    exact r.finalClass_ne_unassigned allowRestore ps p
  refine ⟨fun ⟨hmatches, _, _⟩ => ?_, fun ⟨hauthorized, hwithin⟩ => ⟨?_, ?_, fun hdegraded => ?_⟩⟩
  · rw [AuthorityVector.matchesClassCapabilities] at hmatches
    split at hmatches
    · cases hmatches
    rename_i hexpected
    split at hmatches
    · cases hmatches
    have hall : p.authority.authorized.containsAll
        (capabilitiesForClass r.policy p.authority.authorityClass) = true := by
      by_contra hnot
      exact hexpected (by simp [eq_false_of_ne_true hnot, hassigned])
    have hauthorized :
        p.authority.authorized = capabilitiesForClass r.policy p.authority.authorityClass := by
      rcases h.authorized with heq | hnone
      · exact heq
      · rw [hnone] at hall ⊢
        exact (CapabilitySet.eq_none_of_empty (CapabilitySet.empty_of_none_containsAll hall)).symm
    exact ⟨hauthorized, hauthorized ▸ hmatches⟩
  · rw [AuthorityVector.matchesClassCapabilities, hauthorized, CapabilitySet.containsAll_refl,
      if_neg (by simp), hwithin]
    split
    · rename_i hheld
      rw [Bool.and_eq_true, Bool.or_eq_true, beq_iff_eq, beq_iff_eq] at hheld
      obtain ⟨hclass | hclass, hsome⟩ := hheld
      · rw [hclass] at hsome
        cases hsome
      · exact absurd hclass hassigned
    · rfl
  · rw [h.withheld, hauthorized]
  · rw [h.eligible, hdegraded] at hwithin
    rw [hauthorized]
    exact hwithin

/-- **Nothing ineligible is authorised** exactly when the masks are nested for every partition, and
the counter reaches for every class that draws a number. -/
theorem capabilities_match_iff {allowRestore : Bool} {r r' : PartitionRuntime}
    {outcome : PartitionAssessment} (h : assessLocked allowRestore r = (.ok outcome, r')) :
    (∀ p ∈ outcome.partitions, r.Conforms p) ↔
      (∀ p ∈ outcome.partitions, r.resolved.Nests allowRestore p) ∧
        r.state.authoritySequence.value.toNat + outcome.partitions.countP (fun p =>
          draws r.policy (r.resolved.finalClass allowRestore outcome.partitions p)) < 2 ^ 64 := by
  have hcounter := r.state.authoritySequence.value.toNat_lt
  rcases assessLocked_graded h with hnil | ⟨hgraded, -, hspends⟩
  · rw [hnil]
    simpa using hcounter
  have hdraws : outcome.partitions.countP (fun p =>
        draws r.policy (r.resolved.finalClass allowRestore outcome.partitions p))
      = outcome.partitions.countP fun p => draws r.policy p.authority.authorityClass :=
    List.countP_congr fun p hp => by rw [(hgraded p hp).authorityClass]
  rw [hdraws, ← hspends.all_iff hcounter, and_comm, ← forall₂_and]
  exact forall₂_congr fun p hp => (hgraded p hp).conforms_iff

/-- A policy whose degraded authority may read, and not observe. -/
def maskedPolicy : PartitionPolicy :=
  { id := named _ "q"
    generation := ⟨2⟩
    fullAuthority := { minComponents := 2 }
    degradedCapabilities := .of .serveReads }

/-- A policy is set, and one component adopted that nothing was observed about. -/
def unobservedUnder (policy : PartitionPolicy) : PartitionRuntime :=
  smallRuntime.after [⟨.setPolicy policy, []⟩, ⟨.adoptTopology (smallTopology 1 ["a"]), []⟩]

/-- Without evidence, degraded authority is weakened to an observation its mask does not contain. -/
theorem ineligible_observation_granted :
    let r := unobservedUnder maskedPolicy
    maskedPolicy.canonicalised r.limits = some r.policy ∧
      ∃ outcome ∈ (assessLocked false r).1.toOption, ∃ p ∈ outcome.partitions,
        p.authority.matchesClassCapabilities r.policy = false ∧
        (r.quorumRule p).cap = .degraded ∧
        r.policy.degradedCapabilities.containsAll p.authority.authorized = false := by
  decide +kernel

theorem default_masks_conform :
    let r := unobservedUnder singlePolicy
    ∃ outcome ∈ (assessLocked false r).1.toOption, outcome.partitions ≠ [] ∧
      ∀ p ∈ outcome.partitions, r.Conforms p := by
  intro r
  have hrun : ∃ outcome ∈ (assessLocked false r).1.toOption, outcome.partitions ≠ [] ∧
      r.state.authoritySequence.value.toNat + outcome.partitions.countP (fun p =>
        draws r.policy (r.resolved.finalClass false outcome.partitions p)) < 2 ^ 64 := by
    decide +kernel
  have hmasks : CapabilitySet.all.containsAll r.policy.degradedCapabilities = true ∧
      CapabilitySet.all.containsAll r.policy.readonlyCapabilities = true ∧
      r.policy.degradedCapabilities.containsAll r.policy.readonlyCapabilities = true ∧
      r.policy.degradedCapabilities.containsAll (.of .observe) = true := by
    decide +kernel
  clear_value r
  obtain ⟨outcome, hmem, hne, hroom⟩ := hrun
  obtain ⟨hdegraded, hreadonly, hread, hobserve⟩ := hmasks
  have h : assessLocked false r = (.ok outcome, (assessLocked false r).2) :=
    Prod.ext (eq_ok_of_mem_toOption hmem) rfl
  exact ⟨outcome, hmem, hne, (capabilities_match_iff h).mpr
    ⟨fun p _ => .of_masks false p hdegraded hreadonly hread hobserve, hroom⟩⟩

/-! ## Bases -/

/-- The rules that applied to a partition among others. -/
def appliedRules (r : PartitionRuntime) (allowRestore : Bool) (ps : List Partition)
    (p : Partition) : List AuthorityRule :=
  r.quorumRule p :: r.appliedCaps allowRestore p
    ++ if r.demoted allowRestore ps p then [⟨.observeOnly, .splitBrainConflict⟩] else []

/-- Is the last rule that applies one that leaves the weakest class?  An interruption leaves
observation, whatever was isolated before it.  A missing quorum isolates, whatever the caps after it
leave.  And the unconfirmed caps to reading and degraded authority come after the caps to observation:
they share their basis with one of them, the pending merge and the missing evidence, and not with the
other. -/
def accountable (r : PartitionRuntime) (allowRestore : Bool) (p : Partition) : Bool :=
  if r.isInterrupted p.lineage && !allowRestore then
    (r.meetsFull p || r.meetsDegraded p) && !r.isIsolated p.lineage
  else if r.isIsolated p.lineage then true
  else if !(r.meetsFull p || r.meetsDegraded p) then r.uncapped allowRestore p
  else if r.snapshot.confirmed || r.policy.requireConfirmedPartitionForRead then true
  else if r.policy.requireConfirmedPartitionForWrite then
    r.snapshot.anyEvidenceFresh || !decide (p.pendingMergeParents = [])
  else if r.policy.unknownEvidenceDowngrades then
    decide (p.pendingMergeParents = []) || !r.snapshot.anyEvidenceFresh
  else true

/-- Before the split-brain pass, the basis names a rule that left the class exactly when the last rule
leaves the weakest: a table of eleven switches. -/
theorem preliminaryBasis_explains_iff (r : PartitionRuntime) (allowRestore : Bool) (p : Partition) :
    (r.quorumRule p :: r.appliedCaps allowRestore p).contains
        ⟨r.preliminaryClass allowRestore p, r.preliminaryBasis allowRestore p⟩ = true ↔
      r.accountable allowRestore p = true := by
  rw [preliminaryClass, preliminaryBasis, accountable, uncapped, appliedCaps, capTable, quorumRule]
  simp only [ne_eq, decide_not]
  generalize decide (p.pendingMergeParents = []) = settled
  generalize r.snapshot.anyEvidenceFresh = fresh
  generalize r.snapshot.confirmed = confirmed
  generalize r.policy.unknownEvidenceDowngrades = downgrades
  generalize r.policy.requireConfirmedPartitionForWrite = write
  generalize r.policy.requireConfirmedPartitionForRead = read
  generalize r.isIsolated p.lineage = isolated
  generalize r.isInterrupted p.lineage = interrupted
  generalize r.meetsFull p = full
  generalize r.meetsDegraded p = degraded
  revert settled fresh confirmed downgrades write read isolated interrupted allowRestore full degraded
  decide +kernel

/-- A full quorum under no cap is accounted for by the quorum rule. -/
theorem accountable_of_uncapped {r : PartitionRuntime} {allowRestore : Bool} {p : Partition}
    (hfull : r.meetsFull p = true) (h : r.uncapped allowRestore p = true) :
    r.accountable allowRestore p = true := by
  rw [uncapped] at h
  simp only [Bool.and_eq_true, Bool.not_eq_true', decide_eq_true_eq] at h
  obtain ⟨⟨⟨⟨hsettled, hfresh⟩, -⟩, hisolated⟩, hinterrupted⟩ := h
  simp [accountable, hsettled, hfresh, hisolated, hinterrupted, hfull]

/-- **The recorded basis explains the class** exactly when the last rule that applied to the partition
is one that leaves its class. -/
theorem basis_explains_iff {allowRestore : Bool} {r r' : PartitionRuntime}
    {outcome : PartitionAssessment} (h : assessLocked allowRestore r = (.ok outcome, r'))
    {p : Partition} (hp : p ∈ outcome.partitions) :
    (∃ rule ∈ r.resolved.appliedRules allowRestore outcome.partitions p,
        rule.basis = p.authority.basis ∧ rule.cap = p.authority.authorityClass) ↔
      r.resolved.accountable allowRestore p = true := by
  rcases assessLocked_graded h with hnil | ⟨hgraded, -⟩
  · rw [hnil] at hp
    cases hp
  rw [(hgraded p hp).basis, (hgraded p hp).authorityClass, finalBasis, finalClass, appliedRules]
  by_cases hdemoted : r.resolved.demoted allowRestore outcome.partitions p = true
  · have hprimary := preliminaryClass_eq_primary_iff.mp
      ((r.resolved.demoted_iff allowRestore outcome.partitions p).mp hdemoted).2
    rw [if_pos hdemoted, if_pos hdemoted, if_pos hdemoted]
    exact iff_of_true ⟨_, List.mem_append_right _ (List.mem_singleton_self _), rfl, rfl⟩
      (accountable_of_uncapped hprimary.1 hprimary.2)
  · rw [if_neg hdemoted, if_neg hdemoted, if_neg hdemoted, List.append_nil,
      ← preliminaryBasis_explains_iff, List.contains_iff_mem]
    refine ⟨?_, fun hmem => ⟨_, hmem, rfl, rfl⟩⟩
    rintro ⟨⟨cap, basis⟩, hmem, rfl, rfl⟩
    exact hmem

/-- Nothing was observed about two components.  Each is left with observation because of that, and the
basis it records is the one of the write switch, whose cap is reading. -/
theorem observation_explained_by_write_switch :
    let r := smallRuntime.after
      [⟨.setPolicy singlePolicy, []⟩, ⟨.adoptTopology (smallTopology 1 ["a", "b"]), []⟩]
    ∃ outcome ∈ (assessLocked false r).1.toOption, ∃ p ∈ outcome.partitions,
      p.authority.authorityClass = .observeOnly ∧ p.authority.basis = .partialPartition ∧
        ∀ rule ∈ r.resolved.appliedRules false outcome.partitions p,
          rule.basis = p.authority.basis → rule.cap = .readOnly := by
  decide +kernel

theorem demotion_explained :
    let r := smallRuntime.after (partingUnder singlePolicy)
    ∃ outcome ∈ (assessLocked false r).1.toOption, ∃ p ∈ outcome.partitions,
      ∃ rule ∈ r.resolved.appliedRules false outcome.partitions p,
        rule.basis = p.authority.basis ∧ rule.cap = p.authority.authorityClass := by
  intro r
  have hrun : ∃ outcome ∈ (assessLocked false r).1.toOption, ∃ p ∈ outcome.partitions,
      r.resolved.accountable false p = true := by
    decide +kernel
  clear_value r
  obtain ⟨outcome, hmem, p, hp, haccountable⟩ := hrun
  have h : assessLocked false r = (.ok outcome, (assessLocked false r).2) :=
    Prod.ext (eq_ok_of_mem_toOption hmem) rfl
  exact ⟨outcome, hmem, p, hp, (basis_explains_iff h hp).mpr haccountable⟩

end PartitionRuntime

end FabricPartition
