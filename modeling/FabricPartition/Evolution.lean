import FabricPartition.Governance

/-!
# What the methods write

Every method of the runtime is a sequence of a few kinds of writes: records of decisions and attempts
(`Quiet`), a fence (`Fenced`), an interruption, a lineage record, a whole assessment (`Surveyed`).
This module names those moves, says what each leaves alone, and then takes every method apart into
them, once.  What holds along a run of the runtime is proved from these inversions; no later module
unfolds a method.

* A move is given by the members it replaces (`r' = { r with … }`), so that a member it does not
  mention is unchanged by definition.
* The journal is written by every move.  `Journaled` keeps track of the types of the records, which is
  all that most arguments need to know of it.
-/

set_option autoImplicit false

namespace Act

variable {ε σ α β : Type}

/-- A sequence leaves by its first part's exception, or runs its second part. -/
theorem bind_cases {m : Act ε σ α} {f : α → Act ε σ β} {s u : σ} {res : Except ε β}
    (h : (m >>= f) s = (res, u)) :
    (∃ a t, m s = (.ok a, t) ∧ f a t = (res, u)) ∨ ∃ e, m s = (.error e, u) ∧ res = .error e := by
  rw [bind_apply] at h
  rcases hm : m s with ⟨r, t⟩
  rw [hm] at h
  cases r with
  | ok a => exact .inl ⟨a, t, rfl, h⟩
  | error e =>
    cases h
    exact .inr ⟨e, rfl, rfl⟩

end Act

namespace FabricPartition

namespace PartitionRuntime

/-! ## The journal -/

/-- Commits of allowed records, one after another. -/
inductive Journaled (allowed : DurableRecordType → Bytes → Prop) (j : Journal) : Journal → Prop
  | refl : Journaled allowed j j
  | commit {k : Journal} {type : DurableRecordType} {payload : Bytes}
      (h : Journaled allowed j k) (ha : allowed type payload) :
      Journaled allowed j (commitJournal type payload k).2

namespace Journaled

variable {allowed allowed' : DurableRecordType → Bytes → Prop} {j k l : Journal}

theorem trans (h : Journaled allowed j k) (h' : Journaled allowed k l) :
    Journaled allowed j l := by
  induction h' with
  | refl => exact h
  | commit _ ha ih => exact .commit ih ha

theorem mono (hle : ∀ type payload, allowed type payload → allowed' type payload)
    (h : Journaled allowed j k) : Journaled allowed' j k := by
  induction h with
  | refl => exact .refl
  | commit _ ha ih => exact .commit ih (hle _ _ ha)

theorem single {type : DurableRecordType} {payload : Bytes} (ha : allowed type payload) :
    Journaled allowed j (commitJournal type payload j).2 :=
  .commit .refl ha

end Journaled

/-- Records of one type. -/
def OfType (type : DurableRecordType) : DurableRecordType → Bytes → Prop := fun t _ => t = type

/-! ## Quiet moves -/

/-- Only what records decisions and attempts is written: the two tables, the two counters behind
them, and decision records in the journal. -/
def Quiet (r r' : PartitionRuntime) : Prop :=
  ∃ (decisions : DecisionLog) (attempts : List AttemptRecord) (decisionSequence : DecisionSequence)
    (attemptSequence : AttemptSequence) (j : Journal),
    Journaled (OfType .decisionRecord) r.journal j ∧
    r' = { r with
      decisions := decisions
      attempts := attempts
      state := { r.state with
        decisionSequence := decisionSequence
        attemptSequence := attemptSequence }
      store := j.1
      durableSequence := j.2 }

namespace Quiet

variable {r s t : PartitionRuntime}

theorem refl (r : PartitionRuntime) : Quiet r r := ⟨_, _, _, _, _, .refl, rfl⟩

theorem trans (h : Quiet r s) (h' : Quiet s t) : Quiet r t := by
  obtain ⟨_, _, _, _, _, hj, rfl⟩ := h
  obtain ⟨_, _, _, _, _, hj', rfl⟩ := h'
  exact ⟨_, _, _, _, _, hj.trans hj', rfl⟩

end Quiet

theorem recordAttempt_quiet (attempt : AttemptToken) (kind : DecisionKind) (r : PartitionRuntime) :
    Quiet r (recordAttempt attempt kind r) := ⟨_, _, _, _, _, .refl, rfl⟩

theorem publishDecision_quiet (decision : Decision) (r : PartitionRuntime) :
    Quiet r (publishDecision decision r).2 := by
  rw [publishDecision]
  dsimp only
  split
  · exact ⟨_, _, _, _, _, .single rfl, rfl⟩
  · exact ⟨_, _, _, _, _, .refl, rfl⟩

/-- An identity is drawn from the decision counter, unless there is one already. -/
theorem assignDecisionIdentity_cases {decision : Decision} {r r' : PartitionRuntime}
    {res : Except PartitionError Decision}
    (h : assignDecisionIdentity decision r = (res, r')) :
    Quiet r r' ∧ r'.store = r.store ∧
      ((∃ d, res = .ok d ∧ d.id ≠ .nil ∧ d.verdict = decision.verdict) ∨
        res = .error .decisionExhausted ∧ r' = r ∧ decision.id = .nil) := by
  rw [assignDecisionIdentity, Act.read_bind] at h
  split at h
  · rename_i hid
    cases h
    refine ⟨.refl r, rfl, .inl ⟨decision, rfl, ?_, rfl⟩⟩
    exact fun hnil => by simp [TextId.isNil_iff.mpr hnil] at hid
  · rename_i hid
    cases hnext : r.state.decisionSequence.next with
    | none =>
      rw [hnext] at h
      cases h
      exact ⟨.refl r, rfl, .inr ⟨rfl, rfl, TextId.isNil_iff.mp (by simpa using hid)⟩⟩
    | some sequence =>
      rw [hnext] at h
      cases h
      refine ⟨⟨_, _, _, _, _, .refl, rfl⟩, rfl, .inl ⟨_, rfl, ?_, rfl⟩⟩
      intro hnil
      have := congrArg TextId.text hnil
      simp [TextId.fromValidated, TextId.nil] at this

/-- **`finalize_decision` is quiet**, keeps the verdict, and throws only where it has to draw an
identity. -/
theorem finalizeDecision_cases {decision : Decision} {r r' : PartitionRuntime}
    {res : Except PartitionError Decision} (h : finalizeDecision decision r = (res, r')) :
    Quiet r r' ∧
      ((∃ d, res = .ok d ∧ d.verdict = decision.verdict) ∨
        res = .error .decisionExhausted ∧ decision.id = .nil) := by
  rcases Act.bind_cases h with ⟨d, t, hd, ht⟩ | ⟨e, he, rfl⟩
  · obtain ⟨hq, -, ⟨d', hd', -, hv⟩ | ⟨he, -⟩⟩ := assignDecisionIdentity_cases hd
    · cases hd'
      cases ht
      refine ⟨hq.trans (publishDecision_quiet _ _), .inl ⟨_, rfl, ?_⟩⟩
      rw [← hv]
      simp only [publishDecision]
      split <;> rfl
    · cases he
  · obtain ⟨hq, -, ⟨d', hd', -⟩ | ⟨he', -, hid⟩⟩ := assignDecisionIdentity_cases he
    · cases hd'
    · cases he'
      exact ⟨hq, .inr ⟨rfl, hid⟩⟩

/-! ## Fences and interruptions -/

/-- Fences were issued that name sequences of a list, one for each of them as long as the table has
room, and none once it is full. -/
def Fenced (sequences : List AuthoritySequence) (r r' : PartitionRuntime) : Prop :=
  ∃ (added : List FenceRecord) (fenceSequence : FenceSequence) (j : Journal),
    Journaled (OfType .fenceRecord) r.journal j ∧
    (∀ f ∈ added, f.fencedAuthoritySequence ∈ sequences ∧
      r.fences.length < r.limits.maxFenceRecords) ∧
    ((r.fences ++ added).length < r.limits.maxFenceRecords →
      ∀ n ∈ sequences, ∃ f ∈ added, f.fencedAuthoritySequence = n) ∧
    r' = { r with
      fences := r.fences ++ added
      state := { r.state with fenceSequence := fenceSequence }
      store := j.1
      durableSequence := j.2 }

namespace Fenced

variable {r s t : PartitionRuntime} {ns ms : List AuthoritySequence}

theorem refl (r : PartitionRuntime) : Fenced [] r r :=
  ⟨[], r.state.fenceSequence, r.journal, .refl, by simp, by simp, by rw [List.append_nil]; rfl⟩

theorem trans (h : Fenced ns r s) (h' : Fenced ms s t) : Fenced (ns ++ ms) r t := by
  obtain ⟨added, _, j, hj, hin, hall, rfl⟩ := h
  obtain ⟨added', fenceSequence, j', hj', hin', hall', rfl⟩ := h'
  refine ⟨added ++ added', fenceSequence, j', hj.trans hj', ?_, ?_, ?_⟩
  · intro f hf
    rcases List.mem_append.mp hf with hf | hf
    · exact ⟨List.mem_append_left _ (hin f hf).1, (hin f hf).2⟩
    · refine ⟨List.mem_append_right _ (hin' f hf).1, ?_⟩
      have hroom : (r.fences ++ added).length < r.limits.maxFenceRecords := (hin' f hf).2
      rw [List.length_append] at hroom
      omega
  · intro hroom n hn
    rw [← List.append_assoc] at hroom
    rcases List.mem_append.mp hn with hn | hn
    · have hlt : (r.fences ++ added).length < r.limits.maxFenceRecords := by
        rw [List.length_append] at hroom
        omega
      obtain ⟨f, hf, hfn⟩ := hall hlt n hn
      exact ⟨f, List.mem_append_left _ hf, hfn⟩
    · obtain ⟨f, hf, hfn⟩ := hall' hroom n hn
      exact ⟨f, List.mem_append_right _ hf, hfn⟩
  · rw [← List.append_assoc]

end Fenced

theorem storeFence_fenced (fence : FenceRecord) (fenceSequence : FenceSequence)
    (r : PartitionRuntime) :
    Fenced [fence.fencedAuthoritySequence] r
      (storeFence fence { r with state := { r.state with fenceSequence := fenceSequence } }) := by
  rw [storeFence]
  split
  · rename_i hfull
    refine ⟨[], fenceSequence, _, .refl, by simp, ?_, by simp only [List.append_nil]; rfl⟩
    intro hroom
    rw [List.append_nil] at hroom
    exact absurd hroom (Nat.not_lt.mpr hfull)
  · rename_i hroom
    refine ⟨[fence], fenceSequence, _, .single rfl, ?_, by simp, rfl⟩
    intro f hf
    rw [List.mem_singleton.mp hf]
    exact ⟨List.mem_singleton_self _, Nat.lt_of_not_ge hroom⟩

/-- A fence is issued, or the fence counter is exhausted. -/
theorem issueFence_cases {p : Partition} {sequence : AuthoritySequence} {cause : ReasonCode}
    {r r' : PartitionRuntime} {res : Except PartitionError FenceRecord}
    (h : issueFence p sequence cause r = (res, r')) :
    ((∃ f, res = .ok f) ∧ Fenced [sequence] r r') ∨ res = .error .fenceExhausted ∧ r' = r := by
  rw [issueFence, makeFence] at h
  rcases Act.bind_cases h with ⟨f, t, hf, ht⟩ | ⟨e, he, rfl⟩
  · rw [Act.read_bind] at hf
    cases hnext : r.state.fenceSequence.next with
    | none =>
      rw [hnext] at hf
      cases hf
    | some next =>
      rw [hnext] at hf
      cases hf
      cases ht
      exact .inl ⟨⟨_, rfl⟩, storeFence_fenced
        (r.fenceRecord next p.id sequence r.state.epoch r.state.boot cause) next r⟩
  · rw [Act.read_bind] at he
    cases hnext : r.state.fenceSequence.next with
    | none =>
      rw [hnext] at he
      cases he
      exact .inr ⟨rfl, rfl⟩
    | some next =>
      rw [hnext] at he
      cases he

/-- The grants of some partitions were interrupted and fenced, and the authority counter passed
them. -/
def Interrupted (ps : List Partition) (r r' : PartitionRuntime) : Prop :=
  ∃ (authoritySequence : AuthoritySequence) (sequences : List AuthoritySequence),
    r.state.authoritySequence.value.toNat ≤ authoritySequence.value.toNat ∧
    sequences ⊆ ps.map Partition.authoritySequence ∧
    Fenced sequences
      { r with
        interrupted := r.interrupted ++ ps.map r.interruption
        state := { r.state with authoritySequence := authoritySequence } } r'

namespace Interrupted

variable {r s t : PartitionRuntime} {ps qs : List Partition}

theorem refl (r : PartitionRuntime) : Interrupted [] r r :=
  ⟨r.state.authoritySequence, [], le_rfl, by simp, by
    simpa only [List.map_nil, List.append_nil] using Fenced.refl r⟩

theorem trans (h : Interrupted ps r s) (h' : Interrupted qs s t) :
    Interrupted (ps ++ qs) r t := by
  obtain ⟨a, ns, hle, hns, added, fs, j, hj, hin, hall, rfl⟩ := h
  obtain ⟨a', ns', hle', hns', added', fs', j', hj', hin', hall', rfl⟩ := h'
  have hmid : Fenced ns
      { r with
        interrupted := r.interrupted ++ (ps ++ qs).map r.interruption
        state := { r.state with authoritySequence := a' } }
      { r with
        interrupted := r.interrupted ++ (ps ++ qs).map r.interruption
        state := { r.state with authoritySequence := a', fenceSequence := fs }
        fences := r.fences ++ added
        store := j.1
        durableSequence := j.2 } := ⟨added, fs, j, hj, hin, hall, rfl⟩
  refine ⟨a', ns ++ ns', hle.trans hle', ?_, hmid.trans ⟨added', fs', j', hj', hin', hall', ?_⟩⟩
  · rw [List.map_append]
    exact List.append_subset.mpr ⟨fun n hn => List.mem_append_left _ (hns hn),
      fun n hn => List.mem_append_right _ (hns' hn)⟩
  · rw [List.map_append, ← List.append_assoc]
    rfl

end Interrupted

/-- **The interruption loop**: a first part of the grants is interrupted; all of them, if the loop
runs to its end and the authority counter lasts. -/
theorem interruptAuthorities_cases {cause : ReasonCode} {ps : List Partition}
    {r r' : PartitionRuntime} {res : Except PartitionError Unit}
    (h : interruptAuthorities cause ps r = (res, r')) :
    ∃ qs, qs <+: ps.filter Partition.granted ∧ Interrupted qs r r' ∧
      (res = .ok () ∧
          (qs = ps.filter Partition.granted ∨ r'.state.authoritySequence.next = none) ∨
        res = .error .fenceExhausted) := by
  induction ps generalizing r with
  | nil =>
    cases h
    exact ⟨[], List.nil_prefix, .refl _, .inl ⟨rfl, .inl rfl⟩⟩
  | cons p rest ih =>
    rw [interruptAuthorities] at h
    by_cases hp : p.granted
    · simp only [hp, Bool.not_true, Bool.false_eq_true, if_false] at h
      rw [Act.modify_bind, Act.read_bind] at h
      rw [List.filter_cons_of_pos hp]
      cases hnext : r.state.authoritySequence.next with
      | none =>
        simp only [hnext] at h
        cases h
        exact ⟨[p], by simp, ⟨r.state.authoritySequence, [], le_rfl, by simp, .refl _⟩,
          .inl ⟨rfl, .inr hnext⟩⟩
      | some next =>
        simp only [hnext] at h
        rw [Act.modify_bind] at h
        have hle : r.state.authoritySequence.value.toNat ≤ next.value.toNat := by
          rw [Counter.next_toNat hnext]
          exact Nat.le_succ _
        rcases Act.bind_cases h with ⟨f, t, hf, ht⟩ | ⟨e, he, rfl⟩
        · rcases issueFence_cases hf with ⟨-, hfenced⟩ | ⟨he, -⟩
          · obtain ⟨qs, hqs, hint, hres⟩ := ih ht
            have hfirst : Interrupted [p] r t := ⟨next, [p.authoritySequence], hle, by simp, hfenced⟩
            refine ⟨p :: qs, List.cons_prefix_cons.mpr ⟨rfl, hqs⟩, hfirst.trans hint, ?_⟩
            rcases hres with ⟨hok, hall | hout⟩ | herr
            · exact .inl ⟨hok, .inl (by rw [hall])⟩
            · exact .inl ⟨hok, .inr hout⟩
            · exact .inr herr
          · cases he
        · rcases issueFence_cases he with ⟨⟨f, hf⟩, -⟩ | ⟨hex, rfl⟩
          · cases hf
          · cases hex
            exact ⟨[p], by simp, ⟨next, [], hle, by simp, .refl _⟩, .inr rfl⟩
    · simp only [hp, Bool.not_false, if_true] at h
      rw [List.filter_cons_of_neg (by simpa using hp)]
      exact ih h

theorem interruptAllAuthority_cases {cause : ReasonCode} {r r' : PartitionRuntime}
    {res : Except PartitionError Unit} (h : interruptAllAuthority cause r = (res, r')) :
    ∃ qs, qs <+: r.partitions.filter Partition.granted ∧ Interrupted qs r r' ∧
      (res = .ok () ∧ (qs = r.partitions.filter Partition.granted ∨
          r'.state.authoritySequence.next = none) ∨
        res = .error .fenceExhausted) :=
  interruptAuthorities_cases h

end PartitionRuntime

end FabricPartition
