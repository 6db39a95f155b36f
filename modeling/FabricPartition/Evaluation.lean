import FabricPartition.Watermark

/-!
# The rules of the authority evaluation

`evaluate_authority` walks each partition through a fixed sequence of rules.  Every rule that applies
weakens the class and overwrites the basis; explicit isolation overwrites the class as well.  Here the
rules are a table (`capTable`), the class of a partition is the **weakest** of its quorum class and the
caps that apply to it (`isGreatest_preliminaryClass`), and its basis is that of the **last** of them.

## What is here

* `evaluatePartition_standing` — the cascade of the source is the fold of the table.
* `settledClasses_eq` — the split-brain pass: more than one primary, and none is left.
* `issueAuthority_issued` — what the issuing loop writes into the authority vectors.
* `evaluateAuthority_specified` — the whole evaluation meets its declarative specification.
-/

set_option autoImplicit false

namespace FabricPartition

/-! ## The strength of a class -/

/-- The classes from the strongest to the weakest: a larger class is a weaker one. -/
instance : LinearOrder PartitionAuthorityClass :=
  LinearOrder.lift' (fun c => c.code.toNat) fun c d h => by cases c <;> cases d <;> first | rfl | cases h

theorem PartitionAuthorityClass.weaker_eq_max (lhs rhs : PartitionAuthorityClass) :
    lhs.weaker rhs = max lhs rhs := by
  cases lhs <;> cases rhs <;> decide

theorem PartitionAuthorityClass.le_isolated (c : PartitionAuthorityClass) : c ≤ .isolated := by
  cases c <;> decide

/-- Folding `max` over a list finds the greatest of the start and the entries. -/
theorem isGreatest_foldl_max {α : Type} [LinearOrder α] (xs : List α) (a : α) :
    IsGreatest {x | x = a ∨ x ∈ xs} (xs.foldl max a) := by
  induction xs generalizing a with
  | nil => exact ⟨.inl rfl, by rintro x (rfl | hx) <;> [exact le_rfl; cases hx]⟩
  | cons y rest ih =>
    obtain ⟨hmem, hle⟩ := ih (max a y)
    refine ⟨?_, ?_⟩
    · rcases hmem with heq | hmem
      · rw [List.foldl_cons, heq]
        rcases max_choice a y with h | h
        · exact .inl h
        · exact .inr (List.mem_cons.mpr (.inl h))
      · exact .inr (List.mem_cons_of_mem _ hmem)
    · rintro x (rfl | hx)
      · exact le_trans (le_max_left x y) (hle (.inl rfl))
      · rcases List.mem_cons.mp hx with rfl | hx
        · exact le_trans (le_max_right a x) (hle (.inl rfl))
        · exact hle (.inr hx)

/-- A counter without a successor stands at its maximum. -/
theorem Counter.next_eq_none {tag : CounterTag} {c : Counter tag} (h : c.next = none) :
    c.value.toNat = 2 ^ 64 - 1 := by
  rw [next] at h
  split at h
  · rename_i heq
    rw [heq]
    rfl
  · cases h

/-! ## The rules -/

/-- A rule of the evaluation: the strongest class it leaves, and the basis it records. -/
structure AuthorityRule where
  cap : PartitionAuthorityClass
  basis : AuthorityBasis
  deriving DecidableEq

namespace PartitionRuntime

/-- The member count as `evaluate_authority` hands it to the quorum. -/
def quorumMembers (p : Partition) : UInt32 := UInt32.ofNat (min p.members.length 0xFFFFFFFF)

/-- Does the partition satisfy the full quorum? -/
def meetsFull (r : PartitionRuntime) (p : Partition) : Bool :=
  r.policy.fullAuthority.satisfiedBy (quorumMembers p) p.voterCount p.totalWeight

/-- Does the partition satisfy the degraded quorum? -/
def meetsDegraded (r : PartitionRuntime) (p : Partition) : Bool :=
  r.policy.degradedAuthority.satisfiedBy (quorumMembers p) p.voterCount p.totalWeight

/-- The rule every partition starts from. -/
def quorumRule (r : PartitionRuntime) (p : Partition) : AuthorityRule :=
  if r.meetsFull p then ⟨.primary, .quorumSatisfied⟩
  else if r.meetsDegraded p then ⟨.degraded, .policyDegradation⟩
  else ⟨.isolated, .quorumNotSatisfied⟩

/-- The caps, in the order of the source, each with whether it applies to the partition. -/
def capTable (r : PartitionRuntime) (allowRestore : Bool) (p : Partition) :
    List (Bool × AuthorityRule) :=
  [(decide (p.pendingMergeParents ≠ []), ⟨.observeOnly, .partialPartition⟩),
    (!r.snapshot.anyEvidenceFresh, ⟨.observeOnly, .unknownEvidence⟩),
    (!r.snapshot.confirmed && r.policy.unknownEvidenceDowngrades, ⟨.degraded, .unknownEvidence⟩),
    (!r.snapshot.confirmed && r.policy.requireConfirmedPartitionForWrite,
      ⟨.readOnly, .partialPartition⟩),
    (!r.snapshot.confirmed && r.policy.requireConfirmedPartitionForRead,
      ⟨.observeOnly, .partialPartition⟩),
    (r.isIsolated p.lineage, ⟨.isolated, .explicitIsolation⟩),
    (r.isInterrupted p.lineage && !allowRestore, ⟨.observeOnly, .restartInterrupted⟩)]

/-- The caps that apply to the partition. -/
def appliedCaps (r : PartitionRuntime) (allowRestore : Bool) (p : Partition) : List AuthorityRule :=
  ((r.capTable allowRestore p).filter Prod.fst).map Prod.snd

/-- The weakest of the quorum class and the applicable caps. -/
def preliminaryClass (r : PartitionRuntime) (allowRestore : Bool) (p : Partition) :
    PartitionAuthorityClass :=
  ((r.appliedCaps allowRestore p).map AuthorityRule.cap).foldl max (r.quorumRule p).cap

/-- The basis of the last rule that applied. -/
def preliminaryBasis (r : PartitionRuntime) (allowRestore : Bool) (p : Partition) : AuthorityBasis :=
  ((r.quorumRule p :: r.appliedCaps allowRestore p).map AuthorityRule.basis).getLastD .none

/-- **The class before the split-brain pass** is the weakest of the quorum class and the caps. -/
theorem isGreatest_preliminaryClass (r : PartitionRuntime) (allowRestore : Bool) (p : Partition) :
    IsGreatest
      {c | c = (r.quorumRule p).cap ∨ c ∈ (r.appliedCaps allowRestore p).map AuthorityRule.cap}
      (r.preliminaryClass allowRestore p) :=
  isGreatest_foldl_max _ _

/-! ## The cascade -/

/-- What a rule does to the class and the basis. -/
def applyRule (standing : PartitionAuthorityClass × AuthorityBasis) (rule : AuthorityRule) :
    PartitionAuthorityClass × AuthorityBasis :=
  (max standing.1 rule.cap, rule.basis)

/-- The class and the basis of an evaluation. -/
def ClassEvaluation.standing (e : ClassEvaluation) : PartitionAuthorityClass × AuthorityBasis :=
  (e.finalClass, e.basis)

/-- One row of the table. -/
def applyRow (standing : PartitionAuthorityClass × AuthorityBasis) (row : Bool × AuthorityRule) :
    PartitionAuthorityClass × AuthorityBasis :=
  if row.1 then applyRule standing row.2 else standing

theorem standing_cap {b : Bool} {P : Prop} [Decidable P] (hb : P ↔ b = true) (e : ClassEvaluation)
    (limits : Limits) (cls : PartitionAuthorityClass) (basis : AuthorityBasis) (code : ReasonCode)
    (subject : Text) (detail : String) :
    (if P then e.cap limits cls basis code subject detail else e).standing
      = applyRow e.standing (b, ⟨cls, basis⟩) := by
  by_cases h : P
  · rw [if_pos h, applyRow, if_pos (hb.mp h), ClassEvaluation.standing, ClassEvaluation.cap,
      PartitionAuthorityClass.weaker_eq_max]
    rfl
  · rw [if_neg h, applyRow, if_neg (hb.not.mp h)]

theorem quorumEvaluation_standing (r : PartitionRuntime) (p : Partition) (reasons : List Reason) :
    (r.quorumEvaluation p reasons).standing = ((r.quorumRule p).cap, (r.quorumRule p).basis) ∧
      (r.quorumEvaluation p reasons).quorumClass = (r.quorumRule p).cap := by
  rw [quorumEvaluation, quorumRule, meetsFull, meetsDegraded, quorumMembers]
  split
  · exact ⟨rfl, rfl⟩
  · split <;> exact ⟨rfl, rfl⟩

theorem unconfirmedCaps_standing (r : PartitionRuntime) (p : Partition) (e : ClassEvaluation) :
    (r.unconfirmedCaps p e).standing =
      [(r.policy.unknownEvidenceDowngrades, (⟨.degraded, .unknownEvidence⟩ : AuthorityRule)),
        (r.policy.requireConfirmedPartitionForWrite, ⟨.readOnly, .partialPartition⟩),
        (r.policy.requireConfirmedPartitionForRead, ⟨.observeOnly, .partialPartition⟩)].foldl applyRow
          e.standing := by
  rw [unconfirmedCaps, standing_cap Iff.rfl, standing_cap Iff.rfl, standing_cap Iff.rfl]
  rfl

theorem unconfirmedCaps_quorumClass (r : PartitionRuntime) (p : Partition) (e : ClassEvaluation) :
    (r.unconfirmedCaps p e).quorumClass = e.quorumClass := by
  rw [unconfirmedCaps]
  split <;> split <;> split <;> rfl

/-- **The cascade of the source is the fold of the table.** -/
theorem evaluatePartition_standing (r : PartitionRuntime) (allowRestore : Bool) (p : Partition)
    (reasons : List Reason) :
    (r.evaluatePartition allowRestore p reasons).standing
        = (r.capTable allowRestore p).foldl applyRow
            ((r.quorumRule p).cap, (r.quorumRule p).basis) ∧
      (r.evaluatePartition allowRestore p reasons).quorumClass = (r.quorumRule p).cap := by
  unfold evaluatePartition
  extract_lets e₀ e₁ e₂ e₃ e₄
  obtain ⟨hquorum, hclass⟩ : e₀.standing = ((r.quorumRule p).cap, (r.quorumRule p).basis) ∧
      e₀.quorumClass = (r.quorumRule p).cap := r.quorumEvaluation_standing p reasons
  have h₁ : e₁.standing = applyRow e₀.standing
      (decide (p.pendingMergeParents ≠ []), ⟨.observeOnly, .partialPartition⟩) :=
    standing_cap (decide_eq_true_iff (p := p.pendingMergeParents ≠ [])).symm _ _ _ _ _ _ _
  have h₂ : e₂.standing = applyRow e₁.standing
      (!r.snapshot.anyEvidenceFresh, ⟨.observeOnly, .unknownEvidence⟩) :=
    standing_cap Iff.rfl _ _ _ _ _ _ _
  have h₃ : e₃.standing =
      [(!r.snapshot.confirmed && r.policy.unknownEvidenceDowngrades,
          (⟨.degraded, .unknownEvidence⟩ : AuthorityRule)),
        (!r.snapshot.confirmed && r.policy.requireConfirmedPartitionForWrite,
          ⟨.readOnly, .partialPartition⟩),
        (!r.snapshot.confirmed && r.policy.requireConfirmedPartitionForRead,
          ⟨.observeOnly, .partialPartition⟩)].foldl applyRow e₂.standing := by
    by_cases hconfirmed : r.snapshot.confirmed = true
    · simp only [e₃, hconfirmed]
      rfl
    · simp only [e₃, hconfirmed, Bool.not_false, if_true, Bool.true_and]
      exact unconfirmedCaps_standing r p e₂
  have h₄ : e₄.standing = applyRow e₃.standing
      (r.isIsolated p.lineage, ⟨.isolated, .explicitIsolation⟩) := by
    by_cases hisolated : r.isIsolated p.lineage = true
    · simp only [e₄, hisolated, if_true, applyRow, applyRule, ClassEvaluation.standing,
        max_eq_right (PartitionAuthorityClass.le_isolated _)]
    · simp only [e₄, hisolated, applyRow]
      rfl
  refine ⟨?_, ?_⟩
  · rw [standing_cap Iff.rfl, h₄, h₃, h₂, h₁, hquorum]
    rfl
  · have hq₁ : e₁.quorumClass = e₀.quorumClass := by
      simp only [e₁]
      split <;> rfl
    have hq₂ : e₂.quorumClass = e₁.quorumClass := by
      simp only [e₂]
      split <;> rfl
    have hq₃ : e₃.quorumClass = e₂.quorumClass := by
      simp only [e₃]
      split
      · exact unconfirmedCaps_quorumClass r p e₂
      · rfl
    have hq₄ : e₄.quorumClass = e₃.quorumClass := by
      simp only [e₄]
      split <;> rfl
    rw [← hclass, ← hq₁, ← hq₂, ← hq₃, ← hq₄]
    split <;> rfl

/-- Folding the rows is folding the rules that apply. -/
theorem foldl_applyRow (rows : List (Bool × AuthorityRule))
    (standing : PartitionAuthorityClass × AuthorityBasis) :
    rows.foldl applyRow standing =
      ((((rows.filter Prod.fst).map Prod.snd).map AuthorityRule.cap).foldl max standing.1,
        (((rows.filter Prod.fst).map Prod.snd).map AuthorityRule.basis).getLastD standing.2) := by
  induction rows generalizing standing with
  | nil => rfl
  | cons row rest ih =>
    obtain ⟨applies, rule⟩ := row
    rw [List.foldl_cons, ih]
    cases applies with
    | false => simp [applyRow]
    | true =>
      rw [List.filter_cons_of_pos rfl, List.map_cons, List.map_cons, List.map_cons, List.foldl_cons,
        List.getLastD_cons]
      rfl

/-- The class and the basis a partition comes to before the split-brain pass. -/
theorem evaluatePartition_eq (r : PartitionRuntime) (allowRestore : Bool) (p : Partition)
    (reasons : List Reason) :
    (r.evaluatePartition allowRestore p reasons).finalClass = r.preliminaryClass allowRestore p ∧
      (r.evaluatePartition allowRestore p reasons).basis = r.preliminaryBasis allowRestore p ∧
      (r.evaluatePartition allowRestore p reasons).quorumClass = (r.quorumRule p).cap := by
  obtain ⟨hstanding, hclass⟩ := r.evaluatePartition_standing allowRestore p reasons
  rw [foldl_applyRow] at hstanding
  refine ⟨congrArg Prod.fst hstanding, (congrArg Prod.snd hstanding).trans ?_, hclass⟩
  rw [preliminaryBasis, List.map_cons, List.getLastD_cons]
  rfl

/-! ## The split-brain pass -/

/-- How many partitions come out of the rules as primary. -/
def contenders (r : PartitionRuntime) (allowRestore : Bool) (ps : List Partition) : Nat :=
  ps.countP fun p => r.preliminaryClass allowRestore p == .primary

/-- More than one partition would be primary, and the policy does not allow it. -/
def splitBrain (r : PartitionRuntime) (allowRestore : Bool) (ps : List Partition) : Bool :=
  decide (r.contenders allowRestore ps > 1) && !r.policy.allowMultipleAuthoritativePartitions

/-- Is the partition one of the primaries of a split brain? -/
def demoted (r : PartitionRuntime) (allowRestore : Bool) (ps : List Partition) (p : Partition) :
    Bool :=
  r.splitBrain allowRestore ps && r.preliminaryClass allowRestore p == .primary

/-- The class a partition among others is given. -/
def finalClass (r : PartitionRuntime) (allowRestore : Bool) (ps : List Partition) (p : Partition) :
    PartitionAuthorityClass :=
  if r.demoted allowRestore ps p then .observeOnly else r.preliminaryClass allowRestore p

/-- The basis a partition among others is given. -/
def finalBasis (r : PartitionRuntime) (allowRestore : Bool) (ps : List Partition) (p : Partition) :
    AuthorityBasis :=
  if r.demoted allowRestore ps p then .splitBrainConflict else r.preliminaryBasis allowRestore p

theorem evaluatePartitions_forall₂ (r : PartitionRuntime) (allowRestore : Bool)
    (ps : List Partition) (reasons : List Reason) :
    List.Forall₂ (fun p pe => pe.1 = p ∧ pe.2.quorumClass = (r.quorumRule p).cap ∧
        pe.2.finalClass = r.preliminaryClass allowRestore p ∧
        pe.2.basis = r.preliminaryBasis allowRestore p)
      ps (r.evaluatePartitions allowRestore ps reasons).1 := by
  induction ps generalizing reasons with
  | nil => exact .nil
  | cons p rest ih =>
    rw [evaluatePartitions]
    obtain ⟨hclass, hbasis, hquorum⟩ := r.evaluatePartition_eq allowRestore p reasons
    exact .cons ⟨rfl, hquorum, hclass, hbasis⟩ (ih _)

/-- What the split-brain loop makes of one evaluation. -/
def demote (pe : Partition × ClassEvaluation) : Partition × ClassEvaluation :=
  if pe.2.finalClass = .primary then
    (pe.1, { pe.2 with finalClass := .observeOnly, basis := .splitBrainConflict })
  else pe

theorem demotePrimaries_eq (limits : Limits) (count : Nat)
    (pes : List (Partition × ClassEvaluation)) (reasons : List Reason) :
    (demotePrimaries limits count pes reasons).1 = pes.map demote := by
  induction pes generalizing reasons with
  | nil => rfl
  | cons pe rest ih =>
    obtain ⟨p, e⟩ := pe
    rw [demotePrimaries, List.map_cons, demote]
    by_cases h : e.finalClass = .primary
    · rw [if_neg (by simpa using h), if_pos h]
      exact congrArg (_ :: ·) (ih _)
    · rw [if_pos h, if_neg h]
      exact congrArg (_ :: ·) (ih _)

theorem map_eq_of_forall₂ {α β γ : Type} {f : α → γ} {g : β → γ} {xs : List α} {ys : List β}
    (h : List.Forall₂ (fun x y => f x = g y) xs ys) : xs.map f = ys.map g := by
  induction h with
  | nil => rfl
  | cons hxy _ ih => rw [List.map_cons, List.map_cons, ih, hxy]

theorem countP_of_forall₂ {α β : Type} {f : α → Bool} {g : β → Bool} {xs : List α} {ys : List β}
    (h : List.Forall₂ (fun x y => f x = g y) xs ys) : xs.countP f = ys.countP g := by
  induction h with
  | nil => rfl
  | cons hxy _ ih => rw [List.countP_cons, List.countP_cons, ih, hxy]

/-- **The split-brain pass** gives every partition its final class and basis. -/
theorem settledClasses_eq (r : PartitionRuntime) (ps : List Partition) (allowRestore : Bool) :
    List.Forall₂ (fun p pe => pe.1 = p ∧ pe.2.quorumClass = (r.quorumRule p).cap ∧
        pe.2.finalClass = r.finalClass allowRestore ps p ∧
        pe.2.basis = r.finalBasis allowRestore ps p)
      ps (r.settledClasses ps allowRestore) := by
  have hall := r.evaluatePartitions_forall₂ allowRestore ps []
  have hcount : (r.evaluatePartitions allowRestore ps []).1.countP
      (fun pe => pe.2.finalClass == .primary) = r.contenders allowRestore ps :=
    (countP_of_forall₂ (hall.imp fun p pe h => by rw [h.2.2.1])).symm
  rw [settledClasses]
  dsimp only
  rw [hcount]
  by_cases hsplit : r.splitBrain allowRestore ps = true
  · rw [splitBrain] at hsplit
    rw [if_pos hsplit, demotePrimaries_eq]
    refine List.forall₂_map_right_iff.mpr (hall.imp ?_)
    rintro p pe ⟨rfl, hquorum, hclass, hbasis⟩
    by_cases hprimary : pe.2.finalClass = .primary
    · have hdemoted : r.demoted allowRestore ps pe.1 = true := by
        rw [demoted, splitBrain, hsplit, ← hclass, hprimary]
        rfl
      rw [demote, if_pos hprimary, finalClass, finalBasis, if_pos hdemoted, if_pos hdemoted]
      exact ⟨rfl, hquorum, rfl, rfl⟩
    · have hkept : r.demoted allowRestore ps pe.1 = false := by
        rw [demoted, ← hclass]
        simp [hprimary]
      rw [demote, if_neg hprimary, finalClass, finalBasis, hkept]
      exact ⟨rfl, hquorum, hclass, hbasis⟩
  · have hkept : ∀ p, r.demoted allowRestore ps p = false := fun p => by
      rw [demoted, eq_false_of_ne_true hsplit]
      rfl
    rw [splitBrain] at hsplit
    rw [if_neg hsplit]
    refine hall.imp ?_
    rintro p pe ⟨rfl, hquorum, hclass, hbasis⟩
    rw [finalClass, finalBasis, hkept]
    exact ⟨rfl, hquorum, hclass, hbasis⟩

/-! ## The issuing loop -/

/-- What the issuing loop writes into the vector of an evaluated partition: the grant, or the grant
withheld. -/
def Vectored (r : PartitionRuntime) (pe : Partition × ClassEvaluation) (q : Partition) : Prop :=
  pe.1.Dresses q ∧ ∃ (authorized : CapabilitySet) (state : AuthorityApplicationState),
    q.authority = { r.grantVector pe.2 with authorized := authorized, applicationState := state } ∧
      (authorized = capabilitiesForClass r.policy pe.2.finalClass ∨ authorized = .none)

theorem issueAuthority_vectored (r : PartitionRuntime) (pes : List (Partition × ClassEvaluation))
    (sequence : AuthoritySequence) (reasons : List Reason) :
    List.Forall₂ r.Vectored pes (r.issueAuthority pes sequence reasons).1 := by
  induction pes generalizing sequence reasons with
  | nil => exact .nil
  | cons pe rest ih =>
    obtain ⟨p, e⟩ := pe
    rw [issueAuthority]
    dsimp only
    split
    · exact .cons ⟨⟨_, _, _, _, _, rfl⟩, _, _, rfl, .inl rfl⟩ (ih _ _)
    · split
      · exact .cons ⟨⟨_, _, _, _, _, rfl⟩, _, _, rfl, .inr rfl⟩ (ih _ _)
      · exact .cons ⟨⟨_, _, _, _, _, rfl⟩, _, _, rfl, .inl rfl⟩ (ih _ _)

/-- How the counter is spent over a list of partitions: each class gets what the policy gives it as
long as the counter has a successor, and nothing once it stands at its maximum. -/
def Spends (policy : PartitionPolicy) : Nat → List Partition → Prop
  | _, [] => True
  | counter, q :: rest =>
    (q.authority.authorized = capabilitiesForClass policy q.authority.authorityClass ∧
        (q.granted = true → counter < 2 ^ 64 - 1) ∨
      q.authority.authorized = .none ∧ counter = 2 ^ 64 - 1) ∧
    Spends policy (counter + if q.granted then 1 else 0) rest

theorem issueAuthority_spends (r : PartitionRuntime) (pes : List (Partition × ClassEvaluation))
    (sequence : AuthoritySequence) (reasons : List Reason) :
    Spends r.policy sequence.value.toNat (r.issueAuthority pes sequence reasons).1 := by
  induction pes generalizing sequence reasons with
  | nil => exact trivial
  | cons pe rest ih =>
    obtain ⟨p, e⟩ := pe
    rw [issueAuthority]
    dsimp only
    split
    · rename_i hempty
      refine ⟨.inl ⟨rfl, fun hgranted => ?_⟩, ?_⟩
      · exact absurd hgranted (by simp [Partition.granted, hempty])
      · rw [if_neg (by simp [Partition.granted, hempty])]
        exact ih _ _
    · rename_i hsome
      split
      · rename_i hnext
        refine ⟨.inr ⟨rfl, Counter.next_eq_none hnext⟩, ?_⟩
        rw [if_neg (by simp [Partition.granted, CapabilitySet.none, CapabilitySet.empty])]
        exact ih _ _
      · rename_i next hnext
        have hvalue := Counter.next_toNat hnext
        have hlt := next.value.toNat_lt
        refine ⟨.inl ⟨rfl, fun _ => by omega⟩, ?_⟩
        rw [if_pos (by simpa [Partition.granted] using hsome), ← hvalue]
        exact ih _ _

/-- The partition at a position, with the counter as the grants before it left it. -/
theorem Spends.at {policy : PartitionPolicy} {counter : Nat} {before after : List Partition}
    {q : Partition} (h : Spends policy counter (before ++ q :: after)) :
    q.authority.authorized = capabilitiesForClass policy q.authority.authorityClass ∨
      q.authority.authorized = .none ∧
        counter + before.countP Partition.granted = 2 ^ 64 - 1 := by
  induction before generalizing counter with
  | nil => exact h.1.imp And.left id
  | cons p rest ih =>
    rw [List.countP_cons, ← Nat.add_assoc, Nat.add_right_comm]
    exact ih h.2

theorem evaluateAuthority_spends (r : PartitionRuntime) (ps : List Partition)
    (allowRestore : Bool) :
    Spends r.policy r.state.authoritySequence.value.toNat
      (r.evaluateAuthority ps allowRestore).partitions := by
  obtain ⟨reasons, hps, -⟩ := r.evaluateAuthority_eq ps allowRestore
  rw [hps]
  exact r.issueAuthority_spends _ _ _

/-! ## The verdict -/

/-- The verdict the strongest class amounts to. -/
def strongestVerdict : Option PartitionAuthorityClass → DecisionVerdict
  | some .primary => .granted
  | some .degraded | some .readOnly => .degraded
  | some .observeOnly => .denied
  | some .isolated | some .unassigned | none => .isolated

theorem preliminaryClass_ne_unassigned (r : PartitionRuntime) (allowRestore : Bool)
    (p : Partition) : r.preliminaryClass allowRestore p ≠ .unassigned := by
  intro h
  have hle := (r.isGreatest_preliminaryClass allowRestore p).2 (.inl rfl)
  rw [h, quorumRule] at hle
  split at hle
  · exact absurd hle (by decide)
  · split at hle <;> exact absurd hle (by decide)

theorem finalClass_ne_unassigned (r : PartitionRuntime) (allowRestore : Bool) (ps : List Partition)
    (p : Partition) : r.finalClass allowRestore ps p ≠ .unassigned := by
  rw [finalClass]
  split
  · decide
  · exact r.preliminaryClass_ne_unassigned allowRestore p

/-- **The verdict is the one of the strongest class**, where no class is left unassigned. -/
theorem classVerdict_eq {classes : List PartitionAuthorityClass} (h : .unassigned ∉ classes) :
    classVerdict false classes = strongestVerdict classes.min? := by
  cases hmin : classes.min? with
  | none =>
    rw [List.min?_eq_none_iff.mp hmin]
    rfl
  | some c =>
    obtain ⟨hmem, hle⟩ := List.min?_eq_some_iff.mp hmin
    have habsent : ∀ d, ¬c ≤ d → classes.contains d = false := fun d hd =>
      by simpa using fun hd' => hd (hle d hd')
    have hpresent : classes.contains c = true := by simpa using hmem
    rw [classVerdict]
    cases c with
    | unassigned => exact absurd hmem h
    | primary =>
      rw [if_neg Bool.false_ne_true, hpresent]
      rfl
    | degraded =>
      rw [if_neg Bool.false_ne_true, habsent .primary (by decide), hpresent]
      rfl
    | readOnly =>
      rw [if_neg Bool.false_ne_true, habsent .primary (by decide), habsent .degraded (by decide),
        hpresent]
      rfl
    | observeOnly =>
      have hall : (classes.all fun c => c == .isolated || c == .unassigned) = false :=
        List.all_eq_false.mpr ⟨_, hmem, by decide⟩
      rw [if_neg Bool.false_ne_true, habsent .primary (by decide), habsent .degraded (by decide),
        habsent .readOnly (by decide), hall]
      rfl
    | isolated =>
      have hall : (classes.all fun c => c == .isolated || c == .unassigned) = true := by
        refine List.all_eq_true.mpr fun d hd => ?_
        have hd' : d = .isolated := le_antisymm (PartitionAuthorityClass.le_isolated d) (hle d hd)
        rw [hd']
        rfl
      rw [if_neg Bool.false_ne_true, habsent .primary (by decide), habsent .degraded (by decide),
        habsent .readOnly (by decide), hall]
      rfl

theorem evaluateAuthority_verdict (r : PartitionRuntime) (ps : List Partition)
    (allowRestore : Bool) :
    (r.evaluateAuthority ps allowRestore).verdict =
      classVerdict (r.splitBrain allowRestore ps) (ps.map (r.finalClass allowRestore ps)) := by
  have hcount : (r.evaluatePartitions allowRestore ps []).1.countP
      (fun pe => pe.2.finalClass == .primary) = r.contenders allowRestore ps :=
    (countP_of_forall₂ ((r.evaluatePartitions_forall₂ allowRestore ps []).imp
      fun p pe h => by rw [h.2.2.1])).symm
  have hclasses : ps.map (r.finalClass allowRestore ps)
      = (r.settledClasses ps allowRestore).map fun pe => pe.2.finalClass :=
    map_eq_of_forall₂ ((r.settledClasses_eq ps allowRestore).imp fun p pe h => h.2.2.1.symm)
  rw [hclasses, settledClasses, evaluateAuthority, splitBrain, ← hcount]
  dsimp only
  split <;> rfl

/-! ## The specification -/

/-- **What an authority evaluation owes** to the partitions it is given. -/
structure Specified (r : PartitionRuntime) (allowRestore : Bool) (ps : List Partition)
    (e : AuthorityEvaluation) : Prop where
  /-- The rules come to the weakest of the quorum class and the applicable caps. -/
  weakest : ∀ p ∈ ps, IsGreatest
    {c | c = (r.quorumRule p).cap ∨ c ∈ (r.appliedCaps allowRestore p).map AuthorityRule.cap}
    (r.preliminaryClass allowRestore p)
  /-- That is the class of each partition, in order — but observation for the primaries of a split
  brain, and for these only. -/
  classes : List.Forall₂ (fun p q => p.Dresses q ∧ q.authority.authorityClass =
      if 1 < (ps.countP fun s => r.preliminaryClass allowRestore s == .primary) ∧
          r.policy.allowMultipleAuthoritativePartitions = false ∧
          r.preliminaryClass allowRestore p = .primary then .observeOnly
      else r.preliminaryClass allowRestore p)
    ps e.partitions
  /-- A grant is what the policy gives the class, unless the counter has run out. -/
  authorized : ∀ before q after, e.partitions = before ++ q :: after →
    q.authority.authorized = capabilitiesForClass r.policy q.authority.authorityClass ∨
      q.authority.authorized = .none ∧
        r.state.authoritySequence.value.toNat + before.countP Partition.granted = 2 ^ 64 - 1
  /-- One primary at most, where the policy allows one. -/
  one_primary : r.policy.allowMultipleAuthoritativePartitions = false →
    e.partitions.countP (fun q => q.authority.authorityClass == .primary) ≤ 1
  /-- The grants are numbered strictly upwards, in order. -/
  increasing : (grantSequences e.partitions).Pairwise (· < ·)
  /-- No number was in use, and the counter ends above all of them. -/
  unused : ∀ q ∈ e.partitions, q.granted = true →
    r.state.authoritySequence.value.toNat < q.authoritySequence.value.toNat ∧
      q.authoritySequence.value.toNat ≤ e.authoritySequence.value.toNat
  /-- A partition without a grant has no number. -/
  unnumbered : ∀ q ∈ e.partitions, q.granted = false → q.authoritySequence = .zero
  /-- The verdict is a conflict in a split brain, and the one of the strongest class otherwise. -/
  verdict : e.verdict =
    if 1 < (ps.countP fun s => r.preliminaryClass allowRestore s == .primary) ∧
        r.policy.allowMultipleAuthoritativePartitions = false then .conflict
    else strongestVerdict (e.partitions.map fun q => q.authority.authorityClass).min?

theorem splitBrain_iff (r : PartitionRuntime) (allowRestore : Bool) (ps : List Partition) :
    r.splitBrain allowRestore ps = true ↔
      1 < (ps.countP fun s => r.preliminaryClass allowRestore s == .primary) ∧
        r.policy.allowMultipleAuthoritativePartitions = false := by
  rw [splitBrain, Bool.and_eq_true, decide_eq_true_iff, Bool.not_eq_true']
  rfl

theorem demoted_iff (r : PartitionRuntime) (allowRestore : Bool) (ps : List Partition)
    (p : Partition) :
    r.demoted allowRestore ps p = true ↔
      r.splitBrain allowRestore ps = true ∧ r.preliminaryClass allowRestore p = .primary := by
  rw [demoted, Bool.and_eq_true, beq_iff_eq]

/-- What an evaluated partition shows. -/
structure Graded (r : PartitionRuntime) (allowRestore : Bool) (ps : List Partition)
    (p q : Partition) : Prop where
  dresses : p.Dresses q
  authorityClass : q.authority.authorityClass = r.finalClass allowRestore ps p
  basis : q.authority.basis = r.finalBasis allowRestore ps p
  eligible : q.authority.eligible = capabilitiesForClass r.policy (r.quorumRule p).cap
  withheld : q.authority.withheld = q.authority.eligible.without
    (capabilitiesForClass r.policy q.authority.authorityClass)
  authorized : q.authority.authorized = capabilitiesForClass r.policy q.authority.authorityClass ∨
    q.authority.authorized = .none

theorem forall₂_comp {α β γ : Type} {R : α → β → Prop} {S : β → γ → Prop} {xs : List α}
    {ys : List β} {zs : List γ} (h : List.Forall₂ R xs ys) (h' : List.Forall₂ S ys zs) :
    List.Forall₂ (fun x z => ∃ y, R x y ∧ S y z) xs zs := by
  induction h generalizing zs with
  | nil =>
    cases h'
    exact .nil
  | cons hxy _ ih =>
    rcases h' with _ | ⟨hyz, hrest⟩
    exact .cons ⟨_, hxy, hyz⟩ (ih hrest)

theorem evaluateAuthority_graded (r : PartitionRuntime) (ps : List Partition)
    (allowRestore : Bool) :
    List.Forall₂ (r.Graded allowRestore ps) ps (r.evaluateAuthority ps allowRestore).partitions := by
  obtain ⟨reasons, hps, -⟩ := r.evaluateAuthority_eq ps allowRestore
  rw [hps]
  refine (forall₂_comp (r.settledClasses_eq ps allowRestore)
    (r.issueAuthority_vectored _ r.state.authoritySequence reasons)).imp ?_
  rintro p q ⟨⟨p', e⟩, ⟨rfl, hquorum, hclass, hbasis⟩, hdress, authorized, state, hq, hauth⟩
  dsimp only at hquorum hclass hbasis hdress
  refine ⟨hdress, ?_, ?_, ?_, ?_, ?_⟩ <;> rw [hq]
  · exact hclass
  · exact hbasis
  · exact congrArg (capabilitiesForClass r.policy) hquorum
  · rfl
  · exact hauth

/-- The split-brain pass leaves one primary at most, where the policy allows one. -/
theorem countP_finalClass_le (r : PartitionRuntime) (allowRestore : Bool) (ps : List Partition)
    (h : r.policy.allowMultipleAuthoritativePartitions = false) :
    ps.countP (fun p => r.finalClass allowRestore ps p == .primary) ≤ 1 := by
  by_cases hsplit : r.splitBrain allowRestore ps = true
  · refine (List.countP_eq_zero.mpr fun p _ => ?_).trans_le (Nat.zero_le 1)
    rw [finalClass]
    split
    · decide
    · rename_i hkept
      rw [demoted_iff] at hkept
      simpa using fun hprimary => hkept ⟨hsplit, hprimary⟩
  · have hfinal : ∀ p, r.finalClass allowRestore ps p = r.preliminaryClass allowRestore p :=
      fun p => if_neg fun hd => hsplit ((r.demoted_iff allowRestore ps p).mp hd).1
    simp only [hfinal]
    rw [splitBrain_iff] at hsplit
    exact Nat.not_lt.mp fun hlt => hsplit ⟨hlt, h⟩

/-- **The authority evaluation meets its specification.** -/
theorem evaluateAuthority_specified (r : PartitionRuntime) (allowRestore : Bool)
    (ps : List Partition) : Specified r allowRestore ps (r.evaluateAuthority ps allowRestore) := by
  have hgraded := r.evaluateAuthority_graded ps allowRestore
  have hclasses : ps.map (r.finalClass allowRestore ps)
      = (r.evaluateAuthority ps allowRestore).partitions.map fun q => q.authority.authorityClass :=
    map_eq_of_forall₂ (hgraded.imp fun p q h => h.authorityClass.symm)
  have hsequence := (r.evaluateAuthority_sequence ps allowRestore).2
  refine ⟨fun p _ => r.isGreatest_preliminaryClass allowRestore p, ?_, ?_, ?_,
    r.evaluateAuthority_increasing ps allowRestore, ?_, ?_, ?_⟩
  · refine hgraded.imp fun p q h => ⟨h.dresses, h.authorityClass.trans ?_⟩
    rw [finalClass]
    refine if_congr ?_ rfl rfl
    rw [demoted_iff, splitBrain_iff, and_assoc]
  · intro before q after h
    exact (h ▸ r.evaluateAuthority_spends ps allowRestore).at
  · intro hmultiple
    rw [← countP_of_forall₂ (f := fun p => r.finalClass allowRestore ps p == .primary)
      (hgraded.imp fun p q h => by rw [h.authorityClass])]
    exact r.countP_finalClass_le allowRestore ps hmultiple
  · intro q hq hgranted
    have := hsequence q hq
    rwa [Sequenced, if_pos hgranted] at this
  · intro q hq hbare
    have := hsequence q hq
    rwa [Sequenced, if_neg (by simp [hbare])] at this
  · rw [evaluateAuthority_verdict, hclasses]
    by_cases hsplit : r.splitBrain allowRestore ps = true
    · rw [if_pos ((r.splitBrain_iff allowRestore ps).mp hsplit), hsplit]
      rfl
    · rw [if_neg (mt (r.splitBrain_iff allowRestore ps).mpr hsplit), eq_false_of_ne_true hsplit]
      refine classVerdict_eq fun h => ?_
      rw [← hclasses] at h
      obtain ⟨p, -, hp⟩ := List.mem_map.mp h
      exact r.finalClass_ne_unassigned allowRestore ps p hp

end PartitionRuntime

end FabricPartition
