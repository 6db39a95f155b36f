import FabricPartition.Descent
import FabricPartition.Watermark

/-!
# The writes of an operation

The methods of the runtime as sequences of the writes that matter to what is durable: a decision
number is drawn, a decision is published, a fence is issued, a lineage record is committed and
appended, an epoch state is committed.  `Write` lists them.  Between drawing a number and publishing
under it, `request_merge` and `retire` commit a lineage record and issue fences, so a write goes from
one *point* of a method to the next: the runtime, and the number that is held back there.

**Every operation is a sequence of writes** (`perform_writes`), once its attempt has been recorded
(`admitted`).  Neither the clock nor the attempt floor is among the writes: the one is moved by
`advance_ticks` only, the other by `record_attempt`.
-/

set_option autoImplicit false

namespace FabricPartition

namespace PartitionRuntime

/-! ## Writes -/

/-- A runtime inside a method, and the decision number that was drawn and not yet published under. -/
abbrev Point := PartitionRuntime × Option DecisionSequence

/-- A write to members that no durable record is made of. -/
structure Plain (r r' : PartitionRuntime) : Prop where
  options : r'.options = r.options
  closed : r'.closed = r.closed
  journal : r'.journal = r.journal
  lineage : r'.lineage = r.lineage
  decisions : r'.decisions = r.decisions
  fences : r'.fences = r.fences
  epoch : r'.state.epoch = r.state.epoch
  boot : r'.state.boot = r.state.boot
  decisionSequence : r'.state.decisionSequence = r.state.decisionSequence
  attemptSequence : r'.state.attemptSequence = r.state.attemptSequence
  lineageSequence : r'.state.lineageSequence = r.state.lineageSequence
  fenceSequence : r'.state.fenceSequence = r.state.fenceSequence
  tick : r'.state.tick = r.state.tick
  assessment : r'.assessment = r.assessment

/-- The members that durable records are made of. -/
def content (r : PartitionRuntime) :=
  (r.options, r.closed, r.journal, r.lineage, r.decisions, r.fences, r.state.epoch, r.state.boot,
    r.state.decisionSequence, r.state.attemptSequence, r.state.lineageSequence,
    r.state.fenceSequence, r.state.tick, r.assessment)

theorem Plain.of_content {r r' : PartitionRuntime} (h : r'.content = r.content) : Plain r r' := by
  simp only [content, Prod.mk.injEq] at h
  obtain ⟨hoptions, hclosed, hjournal, hlineage, hdecisions, hfences, hepoch, hboot, hdecision,
    hattempt, hsequence, hfence, htick, hassessment⟩ := h
  exact ⟨hoptions, hclosed, hjournal, hlineage, hdecisions, hfences, hepoch, hboot, hdecision,
    hattempt, hsequence, hfence, htick, hassessment⟩

/-- A lineage record was appended, under the number it bears. -/
def appendedLineage (r : PartitionRuntime) (lineage : LineageStore) (sequence : LineageSequence) :
    PartitionRuntime :=
  { r with lineage := lineage, state := { r.state with lineageSequence := sequence } }

/-- One write of a method. -/
inductive Write : Point → Point → Prop
  | plain {r r' : PartitionRuntime} {p : Option DecisionSequence} (h : Plain r r') :
      Write (r, p) (r', p)
  | defined {r : PartitionRuntime} {p : Option DecisionSequence} {type : DurableRecordType}
      {payload : Bytes} (htype : type = .topologyDefinition ∨ type = .policyDefinition) :
      Write (r, p) ((commitRecord type payload r).2, p)
  | drawn {r : PartitionRuntime} {n : DecisionSequence}
      (h : r.state.decisionSequence.next = some n) :
      Write (r, none) ({ r with state := { r.state with decisionSequence := n } }, some n)
  | published {r : PartitionRuntime} {n : DecisionSequence} {d : Decision}
      (h : d.bindings.decisionSequence = n) : Write (r, some n) ((publishDecision d r).2, none)
  | abandoned {r : PartitionRuntime} {n : DecisionSequence} : Write (r, some n) (r, none)
  | fenced {r : PartitionRuntime} {p : Option DecisionSequence} {fence : FenceRecord}
      {next : FenceSequence} (hnext : r.state.fenceSequence.next = some next)
      (hsequence : fence.sequence = next) (hsigned : Signed r.state.epoch r.state.boot fence) :
      Write (r, p) (storeFence fence { r with state := { r.state with fenceSequence := next } }, p)
  | chronicled {r s : PartitionRuntime} {p : Option DecisionSequence} {record : LineageRecord}
      {lineage : LineageStore} (hnext : r.state.lineageSequence.next = some record.sequence)
      (hcontinues : r.lineage.Rooted → r.lineage.Continues record)
      (hcommit : commitRecord .lineageRecord (encodeLineage record) r = (true, s))
      (happend : r.lineage.append record = some lineage) :
      Write (r, p) (s.appendedLineage lineage record.sequence, p)
  | unchronicled {r s : PartitionRuntime} {p : Option DecisionSequence} {record : LineageRecord}
      {committed : Bool} (hnext : r.state.lineageSequence.next = some record.sequence)
      (hcontinues : r.lineage.Rooted → r.lineage.Continues record)
      (hcommit : commitRecord .lineageRecord (encodeLineage record) r = (committed, s))
      (hrefused : committed = true → r.lineage.append record = none) : Write (r, p) (s, p)
  | watermark {r s : PartitionRuntime} {p : Option DecisionSequence}
      (hplain : Plain { r with store := s.store, durableSequence := s.durableSequence } s)
      (hjournal : s.journal = (commitJournal .epochState (encodeEpochState s.state) r.journal).2) :
      Write (r, p) (s, p)
  | reported {r : PartitionRuntime} {p : Option DecisionSequence} {ps : List Partition}
      {outcome : PartitionAssessment} {confirmed : Bool}
      (hdated : outcome.decision.bindings.decisionSequence = r.state.decisionSequence) :
      Write (r, p) ({ r with
        partitions := ps
        assessment := outcome
        lastAssessmentConfirmed := confirmed }, p)

/-- A sequence of writes. -/
abbrev Writes := Relation.ReflTransGen Write

/-- Writes that end where they began: with a number held back, or with none. -/
def Along (p : Option DecisionSequence) (r r' : PartitionRuntime) : Prop := Writes (r, p) (r', p)

namespace Along

variable {p : Option DecisionSequence}

theorem refl (r : PartitionRuntime) : Along p r r := Relation.ReflTransGen.refl

theorem trans (r s t : PartitionRuntime) (h : Along p r s) (h' : Along p s t) : Along p r t :=
  Relation.ReflTransGen.trans h h'

theorem plain {r r' : PartitionRuntime} (h : Plain r r') : Along p r r' :=
  Relation.ReflTransGen.single (.plain h)

/-- A write to members that no durable record is made of. -/
theorem modify {f : PartitionRuntime → PartitionRuntime} (h : ∀ r, Plain r (f r)) :
    Act.Within (Along p) (Act.modify f : RuntimeAct Unit) := fun r => .plain (h r)

end Along

/-! ## Refusals -/

/-- Only the verdict and the reasons of a decision were changed, the reasons one at a time. -/
inductive Reworded (limits : Limits) (d : Decision) : Decision → Prop
  | verdict (v : DecisionVerdict) : Reworded limits d { d with verdict := v }
  | reason {d' : Decision} (h : Reworded limits d d') (code : ReasonCode) (subject detail : Text) :
      Reworded limits d { d' with reasons := appendReason d'.reasons code subject detail limits }

theorem Reworded.explain (r : PartitionRuntime) (d : Decision) (v : DecisionVerdict)
    (code : ReasonCode) (subject detail : Text) :
    Reworded r.limits d (r.explain { d with verdict := v } code subject detail) :=
  .reason (.verdict v) code subject detail

/-- Nothing else of the decision changes. -/
theorem Reworded.eq {limits : Limits} {d d' : Decision} (h : Reworded limits d d') :
    ∃ v reasons, d' = { d with verdict := v, reasons := reasons } := by
  induction h with
  | verdict v => exact ⟨v, d.reasons, rfl⟩
  | reason _ _ _ _ ih =>
    obtain ⟨v, reasons, rfl⟩ := ih
    exact ⟨v, _, rfl⟩

theorem Reworded.id {limits : Limits} {d d' : Decision} (h : Reworded limits d d') :
    d'.id = d.id := by
  obtain ⟨_, _, rfl⟩ := h.eq
  rfl

theorem adoptionCheck_reworded {r : PartitionRuntime} {definition : TopologyDefinition}
    {d refused : Decision} (h : r.adoptionCheck definition d = .error refused) :
    Reworded r.limits d refused := by
  rw [adoptionCheck] at h
  split at h
  · cases h
    exact .explain r d _ _ _ _
  · split at h
    · cases h
      exact .explain r d _ _ _ _
    · split at h
      · cases h
        exact .explain r d _ _ _ _
      · split at h
        · split at h <;> cases h <;> exact .explain r d _ _ _ _
        · cases h

theorem policyCheck_reworded {r : PartitionRuntime} {policy : PartitionPolicy}
    {d refused : Decision} (h : r.policyCheck policy d = .error refused) :
    Reworded r.limits d refused := by
  rw [policyCheck] at h
  split at h
  · cases h
    exact .explain r d _ _ _ _
  · split at h
    · cases h
      exact .explain r d _ _ _ _
    · split at h <;> cases h
      exact .explain r d _ _ _ _

theorem checkAttempt_reworded {r : PartitionRuntime} {attempt : AttemptToken}
    {d refused : Decision} (h : r.checkAttempt attempt d = some refused) :
    Reworded r.limits d refused := by
  rw [checkAttempt] at h
  split at h
  · cases h
    exact .explain r d _ _ _ _
  · split at h
    · cases h
      exact .explain r d _ _ _ _
    · split at h <;> cases h
      exact .explain r d _ _ _ _

theorem admissionCheck_reworded {r : PartitionRuntime} {attempt : AttemptToken}
    {d refused : Decision} (h : r.admissionCheck attempt d = some refused) :
    Reworded r.limits d refused := by
  rw [admissionCheck] at h
  split at h
  · cases h
    exact .explain r d d.verdict _ _ _
  · exact checkAttempt_reworded h

theorem mergeCheck_reworded {r : PartitionRuntime} {request : MergeRequest}
    {d refused : Decision} (h : r.mergeCheck request d = .error refused) :
    Reworded r.limits d refused := by
  rw [mergeCheck] at h
  split at h
  · cases h
    exact .explain r d _ _ _ _
  split at h
  · cases h
    exact .explain r d _ _ _ _
  iterate 5
    split at h
    · cases h
      exact .explain r d _ _ _ _
  dsimp only at h
  split at h
  · cases h
    exact .reason (.explain r d _ _ _ _) _ _ _
  · split at h <;> cases h
    exact .explain r d _ _ _ _

theorem epochRefusal_reworded {r : PartitionRuntime} {expected : CoordinatorEpoch}
    {subject : Text} {d refused : Decision}
    (h : r.epochRefusal expected subject d = some refused) : Reworded r.limits d refused := by
  rw [epochRefusal] at h
  split at h <;> cases h
  exact .explain r d _ _ _ _

theorem isolateCheck_reworded {r : PartitionRuntime} {request : IsolationRequest}
    {d refused : Decision} (h : r.isolateCheck request d = some refused) :
    Reworded r.limits d refused := by
  rw [isolateCheck, Option.or_eq_some_iff] at h
  rcases h with h | ⟨-, h⟩
  · exact epochRefusal_reworded h
  · split at h
    · cases h
      exact .explain r d _ _ _ _
    · split at h <;> cases h
      exact .explain r d _ _ _ _

theorem retireCheck_reworded {r : PartitionRuntime} {request : RetireRequest}
    {d refused : Decision} (h : r.retireCheck request d = .error refused) :
    Reworded r.limits d refused := by
  rw [retireCheck] at h
  split at h
  · rename_i hepoch
    cases h
    exact epochRefusal_reworded hepoch
  · split at h
    · cases h
      exact .explain r d _ _ _ _
    · split at h
      · cases h
        exact .explain r d _ _ _ _
      · split at h <;> cases h
        exact .explain r d _ _ _ _

theorem revalidateCheck_reworded {r : PartitionRuntime} {request : RevalidationRequest}
    {d refused : Decision} (h : r.revalidateCheck request d = some refused) :
    Reworded r.limits d refused := by
  rw [revalidateCheck, Option.or_eq_some_iff] at h
  rcases h with h | ⟨-, h⟩
  · exact epochRefusal_reworded h
  · split at h <;> cases h
    exact .explain r d _ _ _ _

theorem acknowledgementCheck_reworded {r : PartitionRuntime} {ack : AuthorityAcknowledgement}
    {d refused : Decision} (h : r.acknowledgementCheck ack d = some refused) :
    Reworded r.limits d refused := by
  rw [acknowledgementCheck] at h
  split at h
  · cases h
    exact .explain r d d.verdict _ _ _
  · split at h
    · cases h
      exact .explain r d d.verdict _ _ _
    · iterate 3
        split at h
        · cases h
          exact .explain r d d.verdict _ _ _
      split at h <;> cases h
      exact .explain r d d.verdict _ _ _

theorem effectCheck_reworded {r : PartitionRuntime} {effect : VerifiedEffect}
    {d refused : Decision} (h : r.effectCheck effect d = some refused) :
    Reworded r.limits d refused := by
  rw [effectCheck] at h
  split at h
  · cases h
    exact .explain r d d.verdict _ _ _
  · split at h
    · cases h
      exact .explain r d d.verdict _ _ _
    · iterate 3
        split at h
        · cases h
          exact .explain r d d.verdict _ _ _
      split at h <;> cases h
      exact .explain r d d.verdict _ _ _

/-! ## Identities -/

theorem publishDecision_writes {d : Decision} {n : DecisionSequence}
    (h : d.bindings.decisionSequence = n) (r : PartitionRuntime) :
    Writes (r, some n) ((publishDecision d r).2, none) := .single (.published h)

/-- What is left of a method once it holds a number back: it publishes under the number, or never. -/
def Settles {α : Type} (n : DecisionSequence) (m : RuntimeAct α) : Prop :=
  ∀ r, Writes (r, some n) ((m r).2, none)

namespace Settles

variable {α β : Type} {n : DecisionSequence}

theorem bind {m : RuntimeAct α} {f : α → RuntimeAct β} (hm : Act.Within (Along (some n)) m)
    (hf : ∀ a, Settles n (f a)) : Settles n (m >>= f) := by
  intro r
  have hr := hm r
  rw [Act.bind_apply]
  rcases hmr : m r with ⟨_ | a, t⟩
  · rw [hmr] at hr
    exact Relation.ReflTransGen.trans hr (.single .abandoned)
  · rw [hmr] at hr
    exact Relation.ReflTransGen.trans hr (hf a t)

theorem read_then {f : PartitionRuntime → RuntimeAct α} (h : ∀ r, Settles n (f r)) :
    Settles n (Act.read >>= f) := fun r => h r r

/-- What comes after the publication holds nothing back. -/
theorem then_along {m : RuntimeAct α} {f : α → RuntimeAct β} (hm : Settles n m)
    (hf : ∀ a, Act.Within (Along none) (f a)) : Settles n (m >>= f) := by
  intro r
  have hr := hm r
  rw [Act.bind_apply]
  rcases hmr : m r with ⟨_ | a, t⟩
  · rw [hmr] at hr
    exact hr
  · rw [hmr] at hr
    exact Relation.ReflTransGen.trans hr (hf a t)

end Settles

/-- A decision under the number that is held back. -/
structure Bears (n : DecisionSequence) (d : Decision) : Prop where
  id : d.id.isNil = false
  sequence : d.bindings.decisionSequence = n

theorem finalizeDecision_settles {n : DecisionSequence} {d : Decision} (h : Bears n d) :
    Settles n (finalizeDecision d) := by
  intro r
  rw [finalizeDecision, assignDecisionIdentity, Act.bind_apply, Act.read_bind]
  simp only [h.id, Bool.not_false, if_true]
  exact publishDecision_writes h.sequence r

/-- A number is drawn. -/
def drawnNumber (r : PartitionRuntime) (n : DecisionSequence) : PartitionRuntime :=
  { r with state := { r.state with decisionSequence := n } }

/-- Drawing a number, and going on with it held back. -/
theorem assignDecisionIdentity_then {α : Type} {d : Decision} (hnil : d.id.isNil = true)
    {f : Decision → RuntimeAct α} {r : PartitionRuntime}
    (hf : ∀ n d', Bears n d' →
      Writes (r.drawnNumber n, some n) ((f d' (r.drawnNumber n)).2, none)) :
    Along none r ((assignDecisionIdentity d >>= f) r).2 := by
  rw [assignDecisionIdentity, Act.bind_apply, Act.read_bind]
  simp only [hnil, Bool.not_true, Bool.false_eq_true, if_false]
  rcases hnext : r.state.decisionSequence.next with _ | n
  · exact Along.refl r
  · refine Relation.ReflTransGen.head (.drawn hnext) ?_
    exact hf n _ ⟨rfl, rfl⟩

theorem finalizeDecision_writes {d : Decision} (hnil : d.id.isNil = true) :
    Act.Within (Along none) (finalizeDecision d) := fun r =>
  assignDecisionIdentity_then hnil fun n d' hd =>
    publishDecision_writes (d := d') hd.sequence (r.drawnNumber n)

/-- A decision that bears no number yet. -/
def Unnumbered (d : Decision) : Prop := d.id.isNil = true

theorem Reworded.unnumbered {limits : Limits} {d d' : Decision} (h : Reworded limits d d')
    (hd : Unnumbered d) : Unnumbered d' := by
  rw [Unnumbered, h.id]
  exact hd

theorem Reworded.bears {limits : Limits} {n : DecisionSequence} {d d' : Decision}
    (h : Reworded limits d d') (hd : Bears n d) : Bears n d' := by
  obtain ⟨_, _, rfl⟩ := h.eq
  exact ⟨hd.id, hd.sequence⟩

/-! ## The parts of the methods -/

variable {p : Option DecisionSequence}

theorem issueFence_writes (q : Partition) (sequence : AuthoritySequence) (cause : ReasonCode) :
    Act.Within (Along p) (issueFence q sequence cause) := by
  intro r
  rw [issueFence, makeFence, Act.bind_apply, Act.read_bind]
  rcases hnext : r.state.fenceSequence.next with _ | next
  · exact Along.refl r
  · exact Relation.ReflTransGen.single (.fenced hnext rfl ⟨rfl, rfl, rfl⟩)

theorem interruptAuthorities_writes (cause : ReasonCode) (ps : List Partition) :
    Act.Within (Along p) (interruptAuthorities cause ps) := by
  induction ps with
  | nil => exact .pure Along.refl ()
  | cons q rest ih =>
    rw [interruptAuthorities]
    split
    · exact ih
    · refine .bind Along.trans (.modify fun r => .of_content rfl) fun _ => .read_then fun r => ?_
      split
      · exact .pure Along.refl ()
      · refine .bind Along.trans (.modify fun r => .of_content rfl) fun _ => ?_
        exact .bind Along.trans (issueFence_writes q q.authoritySequence cause) fun _ => ih

theorem supersedePartitions_writes : Act.Within (Along p) supersedePartitions := by
  refine .read_then fun r => ?_
  split
  · refine .bind Along.trans (.read_then fun r => interruptAuthorities_writes _ _) fun _ => ?_
    exact .modify fun r => .of_content rfl
  · exact .pure Along.refl ()

theorem commitDefinition_writes {type : DurableRecordType} {payload : Bytes}
    (htype : type = .topologyDefinition ∨ type = .policyDefinition) :
    Act.Within (Along p) (Act.total (commitRecord type payload) : RuntimeAct Bool) := fun _ =>
  Relation.ReflTransGen.single (.defined htype)

/-! ## The methods that assess nothing -/

theorem adoptTopology_writes (definition : TopologyDefinition) :
    Act.Within (Along none) (adoptTopology definition) := by
  refine .read_then fun r => ?_
  dsimp only
  split
  · rename_i hrefused
    exact finalizeDecision_writes ((adoptionCheck_reworded hrefused).unnumbered rfl)
  · refine .bind Along.trans (commitDefinition_writes (.inl rfl)) fun committed => ?_
    split
    · exact finalizeDecision_writes rfl
    · refine .bind Along.trans supersedePartitions_writes fun _ => ?_
      refine .bind Along.trans (.modify fun r => .of_content rfl) fun _ => ?_
      exact finalizeDecision_writes rfl

theorem setPolicy_writes (policy : PartitionPolicy) :
    Act.Within (Along none) (setPolicy policy) := by
  refine .read_then fun r => ?_
  dsimp only
  split
  · rename_i hrefused
    exact finalizeDecision_writes ((policyCheck_reworded hrefused).unnumbered rfl)
  · refine .bind Along.trans (commitDefinition_writes (.inr rfl)) fun committed => ?_
    split
    · exact finalizeDecision_writes rfl
    · refine .bind Along.trans (.read_then fun r => interruptAuthorities_writes _ _) fun _ => ?_
      refine .bind Along.trans (.modify fun r => .of_content rfl) fun _ => ?_
      exact finalizeDecision_writes rfl

theorem ingestEvidence_writes (evidence : ReachabilityEvidence) :
    Act.Within (Along none) (ingestEvidence evidence) := by
  refine .read_then fun r => ?_
  dsimp only
  split
  · exact finalizeDecision_writes rfl
  · split
    · exact finalizeDecision_writes rfl
    · exact .bind Along.trans (.modify fun r => .of_content rfl) fun _ => finalizeDecision_writes rfl

theorem recordAcknowledgement_writes (ack : AuthorityAcknowledgement) :
    Act.Within (Along none) (recordAcknowledgement ack) := by
  refine .read_then fun r => ?_
  dsimp only
  split
  · rename_i hrefused
    exact finalizeDecision_writes ((acknowledgementCheck_reworded hrefused).unnumbered rfl)
  · exact .bind Along.trans (.modify fun r => .of_content rfl) fun _ => finalizeDecision_writes rfl

theorem recordVerifiedEffect_writes (effect : VerifiedEffect) :
    Act.Within (Along none) (recordVerifiedEffect effect) := by
  refine .read_then fun r => ?_
  dsimp only
  split
  · rename_i hrefused
    exact finalizeDecision_writes ((effectCheck_reworded hrefused).unnumbered rfl)
  · exact .bind Along.trans (.modify fun r => .of_content rfl) fun _ => finalizeDecision_writes rfl

/-! ## Assessments -/

theorem commitLineage_writes (decision : DecisionId) {store : LineageStore} {q : Partition}
    (hq : q.ClassifiedBy store) (r : PartitionRuntime) (hsub : store.records ⊆ r.lineage.records) :
    Along p r (commitLineage decision q r).2 := by
  rw [commitLineage]
  split
  · exact .refl r
  split
  · exact .refl r
  rename_i hpending
  split
  · exact .refl r
  rcases hnext : r.state.lineageSequence.next with _ | sequence
  · exact .refl r
  dsimp only
  have hcontinues : r.lineage.Rooted →
      r.lineage.Continues (r.assessmentRecord decision sequence q) := fun hrooted =>
    Partition.Records.continues hq hsub hrooted
      ⟨by simpa using hpending, rfl, rfl, rfl, rfl, rfl, rfl⟩
  rcases hcommit : commitRecord .lineageRecord
      (encodeLineage (r.assessmentRecord decision sequence q)) r with ⟨_ | _, s⟩
  · exact Relation.ReflTransGen.single (.unchronicled hnext hcontinues hcommit (by simp))
  · have hlineage : s.lineage = r.lineage := by
      rw [commitRecord, Prod.mk.injEq] at hcommit
      rw [← hcommit.2]
    rcases happend : r.lineage.append (r.assessmentRecord decision sequence q) with _ | lineage
    · simp only [hlineage, happend]
      exact Relation.ReflTransGen.single
        (.unchronicled hnext hcontinues hcommit fun _ => happend)
    · simp only [hlineage, happend]
      exact Relation.ReflTransGen.single (.chronicled hnext hcontinues hcommit happend)

/-- A turn of the lineage loop keeps the records there are. -/
theorem commitLineage_subset (decision : DecisionId) (q : Partition) (r : PartitionRuntime) :
    r.lineage.records ⊆ (commitLineage decision q r).2.lineage.records := by
  obtain ⟨_, _, _, -, hgrows, hr⟩ :=
    commitLineage_chronicled (Prod.eta (commitLineage decision q r)).symm
  rw [hr]
  exact hgrows.subset

theorem commitLineages_writes (decision : DecisionId) {store : LineageStore} {ps : List Partition}
    (hps : ∀ q ∈ ps, q.ClassifiedBy store) (r : PartitionRuntime)
    (hsub : store.records ⊆ r.lineage.records) : Along p r (commitLineages decision ps r).2 := by
  induction ps generalizing r with
  | nil => exact .refl r
  | cons q rest ih =>
    refine (commitLineage_writes decision (hps q List.mem_cons_self) r hsub).trans _ _ _ ?_
    exact ih (fun q' hq' => hps q' (List.mem_cons_of_mem _ hq')) _
      (List.Subset.trans hsub (commitLineage_subset decision q r))

theorem publishAssessment_writes {decision : Decision} (evaluation : AuthorityEvaluation)
    (ps : List Partition) {r : PartitionRuntime}
    (hdated : decision.bindings.decisionSequence = r.state.decisionSequence) :
    Along p r (publishAssessment decision evaluation ps r).2 := by
  rw [publishAssessment]
  dsimp only
  refine .trans _ (if r.store.isSome = true then
      (commitRecord .epochState (encodeEpochState { r.state with liveGrants := grantMarks ps })
        { r with state := { r.state with liveGrants := grantMarks ps } }).2
    else { r with state := { r.state with liveGrants := grantMarks ps } }) _ ?_ ?_
  · refine Relation.ReflTransGen.single (.watermark ?_ ?_)
    · split <;> exact .of_content rfl
    · split
      · rfl
      · rename_i hstore
        have hnone : r.store = none := Option.not_isSome_iff_eq_none.mp hstore
        rw [journal, journal, hnone]
        rfl
  · refine Relation.ReflTransGen.single ?_
    split
    · exact .reported hdated
    · exact .reported hdated

/-- Publishing keeps the bindings of the decision and the counters of the runtime. -/
theorem publishDecision_keeps (d : Decision) (r : PartitionRuntime) :
    (publishDecision d r).1.bindings = d.bindings ∧ (publishDecision d r).2.state = r.state := by
  rw [publishDecision]
  dsimp only
  split
  · exact ⟨rfl, rfl⟩
  · exact ⟨rfl, rfl⟩

/-- A decision that was finalised bears the last number drawn. -/
theorem finalizeDecision_dated {d d' : Decision} {r s : PartitionRuntime} (hnil : Unnumbered d)
    (h : finalizeDecision d r = (.ok d', s)) :
    d'.bindings.decisionSequence = s.state.decisionSequence := by
  rw [Unnumbered] at hnil
  obtain ⟨numbered, t, hassign, hpublish⟩ := Act.bind_ok.mp h
  rw [Act.total_apply, Prod.mk.injEq] at hpublish
  obtain ⟨hd, hs⟩ := hpublish
  obtain ⟨hbindings, hstate⟩ := publishDecision_keeps numbered t
  rw [← Except.ok.inj hd, ← hs, hbindings, hstate]
  rw [assignDecisionIdentity, Act.read_bind] at hassign
  simp only [hnil, Bool.not_true, Bool.false_eq_true, if_false] at hassign
  rcases hnext : r.state.decisionSequence.next with _ | n
  · rw [hnext] at hassign
    cases hassign
  · rw [hnext] at hassign
    cases hassign
    rfl

/-- Finalising a decision, and going on with it from where it bears the last number. -/
theorem finalizeDecision_then {α : Type} {d : Decision} (hnil : Unnumbered d)
    {f : Decision → RuntimeAct α} {r : PartitionRuntime}
    (hf : ∀ d' s, d'.bindings.decisionSequence = s.state.decisionSequence →
      s.lineage = r.lineage → Along none s (f d' s).2) :
    Along none r ((finalizeDecision d >>= f) r).2 := by
  have hfinal := finalizeDecision_writes hnil r
  rw [Act.bind_apply]
  rcases hdone : finalizeDecision d r with ⟨_ | d', s⟩
  · rw [hdone] at hfinal
    exact hfinal
  · rw [hdone] at hfinal
    refine hfinal.trans _ _ _ (hf d' s (finalizeDecision_dated hnil hdone) ?_)
    obtain ⟨_, _, _, _, _, -, rfl⟩ := (finalizeDecision_cases hdone).1
    rfl

theorem refuseAssessment_writes (code : ReasonCode) (subject detail : String) (clear : Bool) :
    Act.Within (Along none) (refuseAssessment code subject detail clear) := by
  refine .read_then fun r s => finalizeDecision_then (by rfl) fun d s hdated _ => ?_
  exact Relation.ReflTransGen.single (.reported hdated)

/-- What an assessment evaluates was classified by the store it read. -/
theorem evaluateAuthority_classified (r : PartitionRuntime) (allowRestore : Bool) :
    ∀ q ∈ (r.evaluateAuthority (buildPartitions r.snapshot r.state.partitionGeneration r.lineage
      r.limits) allowRestore).partitions, q.ClassifiedBy r.lineage := by
  intro q hq
  obtain ⟨b, hb, hdress⟩ := exists_of_forall₂ (r.evaluateAuthority_dresses _ allowRestore) hq
  exact hdress.classified (mem_buildPartitions hb).classified

/-- `assess_locked` once the generation has advanced. -/
theorem assessGeneration_writes (allowRestore : Bool) :
    Act.Within (Along none) (assessGeneration allowRestore) := by
  intro r
  rw [assessGeneration, Act.read_bind]
  split
  · refine finalizeDecision_then (by rfl) fun d s hdated _ => ?_
    exact Relation.ReflTransGen.single (.reported hdated)
  · rw [Act.modify_bind]
    refine Along.trans _ _ _ (.plain (.of_content (by rfl)))
      (finalizeDecision_then (by rfl) fun d s hdated hs => ?_)
    rw [Act.total_bind]
    refine Along.trans _ _ _ (commitLineages_writes _ (r.evaluateAuthority_classified allowRestore) s
      ?_) (publishAssessment_writes _ _ ?_)
    · rw [hs]
      exact List.Subset.refl _
    · rw [commitLineages_sequence]
      exact hdated

theorem assessLocked_writes (allowRestore : Bool) :
    Act.Within (Along none) (assessLocked allowRestore) := by
  refine .read_then fun r => ?_
  split
  · exact refuseAssessment_writes _ _ _ _
  split
  · exact refuseAssessment_writes _ _ _ _
  split
  · exact .throw Along.refl _
  · exact .bind Along.trans (.modify fun r => .of_content rfl) fun _ => assessGeneration_writes allowRestore

/-! ## The governed methods -/

/-- The runtime once an attempt is recorded, if it is admitted. -/
def admitted (r : PartitionRuntime) (attempt : AttemptToken) (kind : DecisionKind)
    (decision : Decision) : PartitionRuntime :=
  match r.admissionCheck attempt decision with
  | some _ => r
  | none => recordAttempt attempt kind r

theorem finishMerge_settles {n : DecisionSequence} {d : Decision} (h : Bears n d) :
    Settles n (finishMerge d) :=
  (finalizeDecision_settles h).then_along fun _ => .pure Along.refl _

theorem finishMerge_writes {d : Decision} (hnil : Unnumbered d) :
    Act.Within (Along none) (finishMerge d) :=
  .bind Along.trans (finalizeDecision_writes hnil) fun _ => .pure Along.refl _

theorem finishIsolation_writes {d : Decision} (hnil : Unnumbered d) :
    Act.Within (Along none) (finishIsolation d) :=
  .bind Along.trans (finalizeDecision_writes hnil) fun _ => .pure Along.refl _

theorem finishRevalidation_writes {d : Decision} (hnil : Unnumbered d) (ps : List Partition)
    (restored still : List PartitionId) :
    Act.Within (Along none) (finishRevalidation d ps restored still) :=
  .bind Along.trans (finalizeDecision_writes hnil) fun _ => .pure Along.refl _

/-- A sequence whose second part is run on results of the first only. -/
theorem Settles.bind_yields {α β : Type} {n : DecisionSequence} {P : α → Prop} {m : RuntimeAct α}
    {f : α → RuntimeAct β} (hm : Act.Within (Along (some n)) m) (hP : Act.Yields P m)
    (hf : ∀ a, P a → Settles n (f a)) : Settles n (m >>= f) := by
  intro r
  have hr := hm r
  rw [Act.bind_apply]
  rcases hmr : m r with ⟨_ | a, t⟩
  · rw [hmr] at hr
    exact Relation.ReflTransGen.trans hr (.single .abandoned)
  · rw [hmr] at hr
    exact Relation.ReflTransGen.trans hr (hf a (hP r a t hmr) t)

theorem fenceSubject_writes (subject : Partition) (d : Decision) :
    Act.Within (Along p) (fenceSubject subject d) := by
  rw [fenceSubject]
  split
  · exact .pure Along.refl _
  · exact .bind Along.trans (issueFence_writes _ _ _) fun _ => .pure Along.refl _

theorem fenceSubject_bears {n : DecisionSequence} {d : Decision} (h : Bears n d)
    (subject : Partition) : Act.Yields (Bears n) (fenceSubject subject d) := by
  rw [fenceSubject]
  split
  · exact .pure h
  · exact .bind fun _ => .pure ⟨h.id, h.sequence⟩

/-- Committing a lineage record and appending it: what goes on from each way that can end. -/
theorem Settles.chronicle {α : Type} {n : DecisionSequence} {r : PartitionRuntime}
    (record : LineageRecord) {sequence : LineageSequence}
    (hnext : r.state.lineageSequence.next = some sequence) (hsequence : record.sequence = sequence)
    (hcontinues : r.lineage.Rooted → r.lineage.Continues record)
    {failed : RuntimeAct α} {refused : RuntimeAct α} {appended : RuntimeAct α}
    (hfailed : Settles n failed) (hrefused : Settles n refused) (happended : Settles n appended) :
    Writes (r, some n) (((Act.total (commitRecord .lineageRecord (encodeLineage record)) >>=
      fun committed =>
        if !committed then failed
        else
          match r.lineage.append record with
          | none => refused
          | some lineage =>
            Act.modify (fun r => { r with
              lineage := lineage
              state := { r.state with lineageSequence := sequence } }) >>= fun _ => appended) r).2,
      none) := by
  rw [Act.total_bind]
  subst hsequence
  rcases hcommit : commitRecord .lineageRecord (encodeLineage record) r with ⟨_ | _, s⟩
  · exact Relation.ReflTransGen.head (.unchronicled hnext hcontinues hcommit (by simp)) (hfailed s)
  · rcases happend : r.lineage.append record with _ | lineage
    · exact Relation.ReflTransGen.head (.unchronicled hnext hcontinues hcommit fun _ => happend)
        (hrefused s)
    · exact Relation.ReflTransGen.head (.chronicled hnext hcontinues hcommit happend) (happended _)

/-- A merge record establishes the merged lineage. -/
theorem mergeRecord_establishes (r : PartitionRuntime) (request : MergeRequest)
    (subject : Partition) (decision : DecisionId) (sequence : LineageSequence) :
    ∃ x, (r.mergeRecord request subject decision sequence).Establishes x := by
  refine ⟨⟨"merge", if request.left < request.right then request.left else request.right,
    if request.left < request.right then request.right else request.left, default⟩, ?_,
    .inr (.inr ⟨?_, ?_⟩)⟩
  · rw [mergeRecord, LineagePreimage.id, mergeLineageId]
  · rw [mergeRecord]
  · rw [mergeRecord]

theorem mergeOpening_writes (request : MergeRequest) (subject : Partition) {d : Decision}
    (hnil : Unnumbered d) : Act.Within (Along none) (mergeOpening request subject d) := by
  refine .read_then fun r start => assignDecisionIdentity_then (by exact hnil) fun n d hd => ?_
  generalize start.drawnNumber n = s
  rw [Act.read_bind]
  have hconclude (v : DecisionVerdict) (code : ReasonCode) (subject : Text) (detail : String) :
      Settles n (finishMerge (s.conclude d v code subject detail) >>= fun _ =>
        (pure false : RuntimeAct Bool)) :=
    (finishMerge_settles ((Reworded.explain s d v code subject (ascii detail)).bears hd)).then_along
      fun _ => .pure Along.refl _
  rcases hnext : s.state.lineageSequence.next with _ | sequence
  · exact hconclude _ _ _ _ s
  · refine Settles.chronicle (s.mergeRecord request subject d.id sequence) hnext rfl
      (fun _ => .inl (s.mergeRecord_establishes request subject d.id sequence))
      (hconclude _ _ _ _) (hconclude _ _ _ _) ?_
    refine .bind_yields (fenceSubject_writes subject d) (fenceSubject_bears hd subject)
      fun d hd => ?_
    refine .bind (.modify fun r => .of_content rfl) fun _ => ?_
    exact (finalizeDecision_settles hd).then_along fun _ => .pure Along.refl _

theorem requestMergeOpening_writes (request : MergeRequest) (r : PartitionRuntime) :
    Along none (r.admitted request.attempt .mergePartitions
      (r.makeDecision .mergePartitions .invalid (partitionScope request.subject)))
      (requestMergeOpening request r).2 := by
  rw [requestMergeOpening, Act.read_bind, admitted]
  rcases hadm : r.admissionCheck request.attempt
      (r.makeDecision .mergePartitions .invalid (partitionScope request.subject)) with _ | refused
  · simp only
    rw [Act.modify_bind, Act.read_bind]
    generalize recordAttempt request.attempt .mergePartitions r = s
    rcases hcheck : s.mergeCheck request
        (r.makeDecision .mergePartitions .invalid (partitionScope request.subject))
      with refused | subject
    · exact Act.Within.bind Along.trans
        (finishMerge_writes ((mergeCheck_reworded hcheck).unnumbered (by rfl)))
        (fun _ => .pure Along.refl _) s
    · exact mergeOpening_writes request subject (by rfl) s
  · simp only
    exact Act.Within.bind Along.trans
      (finishMerge_writes ((admissionCheck_reworded hadm).unnumbered (by rfl)))
      (fun _ => .pure Along.refl _) r

theorem isolationOpening_writes {d : Decision} (hnil : Unnumbered d) (goesOn : Bool) :
    Act.Within (Along none) (isolationOpening d goesOn) :=
  .bind Along.trans (finishIsolation_writes hnil) fun _ => .pure Along.refl _

theorem isolateOpening_writes (request : IsolationRequest) (r : PartitionRuntime) :
    Along none (r.admitted request.attempt .isolateComponents
      (r.makeDecision .isolateComponents .invalid fabricScope)) (isolateOpening request r).2 := by
  rw [isolateOpening, Act.read_bind, admitted]
  rcases hadm : r.admissionCheck request.attempt
      (r.makeDecision .isolateComponents .invalid fabricScope) with _ | refused
  · simp only
    rw [Act.modify_bind, Act.read_bind]
    generalize recordAttempt request.attempt .isolateComponents r = s
    rcases hcheck : s.isolateCheck request
        (r.makeDecision .isolateComponents .invalid fabricScope) with _ | refused
    · exact Act.Within.bind Along.trans (.modify fun r => .of_content (by rfl))
        (fun _ => isolationOpening_writes (by rfl) true) s
    · exact isolationOpening_writes ((isolateCheck_reworded hcheck).unnumbered (by rfl)) false s
  · simp only
    exact isolationOpening_writes ((admissionCheck_reworded hadm).unnumbered (by rfl)) false r

theorem clearIsolationOpening_writes (request : IsolationRequest) (r : PartitionRuntime) :
    Along none (r.admitted request.attempt .isolateComponents
      (r.makeDecision .isolateComponents .invalid fabricScope))
      (clearIsolationOpening request r).2 := by
  rw [clearIsolationOpening, Act.read_bind, admitted]
  rcases hadm : r.admissionCheck request.attempt
      (r.makeDecision .isolateComponents .invalid fabricScope) with _ | refused
  · simp only
    rw [Act.modify_bind, Act.read_bind]
    generalize recordAttempt request.attempt .isolateComponents r = s
    rcases hcheck : s.epochRefusal request.expectedEpoch request.lineage.text
        (r.makeDecision .isolateComponents .invalid fabricScope) with _ | refused
    · refine Act.Within.bind Along.trans (.modify fun r => .of_content (by rfl)) (fun _ => ?_) s
      split
      · exact isolationOpening_writes (by rfl) true
      · exact isolationOpening_writes (by rfl) true
    · exact isolationOpening_writes ((epochRefusal_reworded hcheck).unnumbered (by rfl)) false s
  · simp only
    exact isolationOpening_writes ((admissionCheck_reworded hadm).unnumbered (by rfl)) false r

theorem fenceLineage_writes (lineage : LineageId) (d : Decision) (q : Partition) :
    Act.Within (Along p) (fenceLineage lineage d q) := by
  rw [fenceLineage]
  split
  · exact .pure Along.refl _
  · split
    · exact .pure Along.refl _
    · exact .bind Along.trans (issueFence_writes _ _ _) fun _ => .pure Along.refl _

theorem fenceLineage_bears {n : DecisionSequence} (lineage : LineageId) (d : Decision)
    (q : Partition) (h : Bears n d) : Act.Yields (Bears n) (fenceLineage lineage d q) := by
  rw [fenceLineage]
  split
  · exact .pure h
  · split
    · exact .pure h
    · exact .bind fun _ => .pure ⟨h.id, h.sequence⟩

/-- A retirement is recorded for a lineage that is. -/
theorem retireRecord_continues (r : PartitionRuntime) {latest : LineageRecord} {lineage : LineageId}
    (hlatest : r.lineage.latest lineage = some latest) (decision : DecisionId)
    (sequence : LineageSequence) (hrooted : r.lineage.Rooted) :
    r.lineage.Continues (r.retireRecord latest lineage decision sequence) := by
  obtain ⟨hmem, hlineage⟩ := LineageStore.latest_mem hlatest
  obtain ⟨origin, ho, hx, hol, hom⟩ := hrooted.established latest hmem
  exact .inr ⟨origin, ho, hx, hol.trans hlineage, hom⟩

theorem commitRetire_writes (request : RetireRequest) {latest : LineageRecord}
    {sequence : LineageSequence} {d : Decision} (hnil : Unnumbered d) {r : PartitionRuntime}
    (hlatest : r.lineage.latest request.lineage = some latest)
    (hnext : r.state.lineageSequence.next = some sequence) :
    Along none r (commitRetire request latest sequence d r).2 := by
  rw [commitRetire, Act.read_bind]
  refine assignDecisionIdentity_then (by exact hnil) fun n d hd => ?_
  rw [Act.read_bind]
  have hconclude (v : DecisionVerdict) (code : ReasonCode) (subject : Text) (detail : String) :
      Settles n (finalizeDecision ((r.drawnNumber n).conclude d v code subject detail)) :=
    finalizeDecision_settles
      ((Reworded.explain (r.drawnNumber n) d v code subject (ascii detail)).bears hd)
  refine Settles.chronicle (r := r.drawnNumber n)
    ((r.drawnNumber n).retireRecord latest request.lineage d.id sequence) hnext rfl
    (retireRecord_continues (r.drawnNumber n) hlatest d.id sequence)
    (hconclude _ _ _ _) (hconclude _ _ _ _) ?_
  refine .bind_yields (.forEach Along.refl Along.trans (fenceLineage_writes request.lineage) _ d)
    (.forEach (fenceLineage_bears request.lineage) _ d hd) fun d hd => ?_
  exact .bind (.modify fun r => .of_content rfl) fun _ => finalizeDecision_settles hd

theorem retire_writes (request : RetireRequest) (r : PartitionRuntime) :
    Along none (r.admitted request.attempt .retire
      (r.makeDecision .retire .invalid (namedScope .domain request.lineage.text)))
      (retire request r).2 := by
  rw [retire, Act.read_bind, admitted]
  rcases hadm : r.admissionCheck request.attempt
      (r.makeDecision .retire .invalid (namedScope .domain request.lineage.text)) with _ | refused
  · simp only
    rw [Act.modify_bind, Act.read_bind]
    generalize recordAttempt request.attempt .retire r = s
    rcases hcheck : s.retireCheck request
        (r.makeDecision .retire .invalid (namedScope .domain request.lineage.text))
      with refused | ⟨latest, sequence⟩
    · exact finalizeDecision_writes ((retireCheck_reworded hcheck).unnumbered (by rfl)) s
    · obtain ⟨hlatest, -, hnext⟩ := retireCheck_ok hcheck
      exact commitRetire_writes request (by rfl) hlatest hnext
  · simp only
    exact finalizeDecision_writes ((admissionCheck_reworded hadm).unnumbered (by rfl)) r

theorem revalidatePartition_writes (acc : Revalidation) (q : Partition) :
    Act.Within (Along p) (revalidatePartition acc q) := by
  refine .read_then fun r => ?_
  split
  · exact .pure Along.refl _
  · split
    · exact .pure Along.refl _
    · exact .bind Along.trans (issueFence_writes _ _ _) fun _ => .pure Along.refl _

theorem revalidatePartition_unnumbered (acc : Revalidation) (q : Partition)
    (h : Unnumbered acc.decision) :
    Act.Yields (fun acc => Unnumbered acc.decision) (revalidatePartition acc q) := by
  refine .read_then fun r => ?_
  split
  · exact .pure h
  · split
    · exact .pure h
    · exact .bind fun _ => .pure h

theorem explainAbsent_unnumbered (r : PartitionRuntime) (refreshed : List Partition)
    (restored : List PartitionId) {d : Decision} (h : Unnumbered d) :
    Unnumbered (r.explainAbsent refreshed restored d) := by
  rw [explainAbsent]
  generalize r.interrupted = entries
  induction entries generalizing d with
  | nil => exact h
  | cons entry rest ih =>
    rw [List.foldl_cons]
    split
    · exact ih h
    · exact ih h

theorem revalidationVerdict_unnumbered (r : PartitionRuntime) (reachability : ReachabilitySummary)
    (restored : List PartitionId) (interruptedBefore : Nat) {d : Decision} (h : Unnumbered d) :
    Unnumbered (r.revalidationVerdict reachability restored interruptedBefore d) := by
  rw [revalidationVerdict]
  split
  · exact h
  split
  · exact h
  split
  · exact h
  · exact h

theorem reassertAuthority_writes {d : Decision} (hnil : Unnumbered d) (n : Nat)
    (refreshed : PartitionAssessment) :
    Act.Within (Along none) (reassertAuthority d n refreshed) := by
  refine .bind_yields Along.trans (.forEach Along.refl Along.trans revalidatePartition_writes _ _)
    (.forEach revalidatePartition_unnumbered _ _ hnil) fun acc hacc => .read_then fun s => ?_
  refine .bind Along.trans (.modify fun r => .of_content rfl) fun _ => finishRevalidation_writes ?_ _ _ _
  exact revalidationVerdict_unnumbered s _ _ _ (explainAbsent_unnumbered s _ _ hacc)

theorem revalidateOpening_writes (request : RevalidationRequest) (r : PartitionRuntime) :
    Along none (r.admitted request.attempt .revalidate
      (r.makeDecision .revalidate .invalid fabricScope)) (revalidateOpening request r).2 := by
  have hrefused {d : Decision} (hd : Unnumbered d) : Act.Within (Along none)
      (finishRevalidation d [] [] [] >>= fun _ => (pure false : RuntimeAct Bool)) :=
    .bind Along.trans (finishRevalidation_writes hd [] [] []) fun _ => .pure Along.refl _
  rw [revalidateOpening, Act.read_bind, admitted]
  rcases hadm : r.admissionCheck request.attempt
      (r.makeDecision .revalidate .invalid fabricScope) with _ | refused
  · simp only
    rw [Act.modify_bind, Act.read_bind]
    generalize recordAttempt request.attempt .revalidate r = s
    rcases hcheck : s.revalidateCheck request
        (r.makeDecision .revalidate .invalid fabricScope) with _ | refused
    · exact .refl s
    · exact hrefused ((revalidateCheck_reworded hcheck).unnumbered (by rfl)) s
  · simp only
    exact hrefused ((admissionCheck_reworded hadm).unnumbered (by rfl)) r

/-! ## Operations -/

/-- What an operation does before its first write: the governed methods record the attempt,
`advance_ticks` moves the clock, `close` closes. -/
def started (r : PartitionRuntime) : Operation → PartitionRuntime
  | .requestMerge request => r.admitted request.attempt .mergePartitions
      (r.makeDecision .mergePartitions .invalid (partitionScope request.subject))
  | .isolate request => r.admitted request.attempt .isolateComponents
      (r.makeDecision .isolateComponents .invalid fabricScope)
  | .clearIsolation request => r.admitted request.attempt .isolateComponents
      (r.makeDecision .isolateComponents .invalid fabricScope)
  | .retire request => r.admitted request.attempt .retire
      (r.makeDecision .retire .invalid (namedScope .domain request.lineage.text))
  | .revalidate request => r.admitted request.attempt .revalidate
      (r.makeDecision .revalidate .invalid fabricScope)
  | .advanceTicks delta => (advanceTicks delta r).2
  | .close => close r
  | _ => r

/-- What an operation has written when it hands over to `assess_locked`. -/
theorem assessing_writes {r a : PartitionRuntime} {operation : Operation} {allowRestore : Bool}
    (h : r.assessing operation = some (allowRestore, a)) : Along none (r.started operation) a := by
  have hhanded : ∀ {flag : Bool} {opening : Except PartitionError Bool × PartitionRuntime},
      handedOver flag opening = some (allowRestore, a) → opening.2 = a := by
    rintro flag ⟨_ | _ | _, s⟩ hsome
    · cases hsome
    · cases hsome
    · cases hsome
      rfl
  cases operation with
  | assess =>
    cases h
    exact .refl _
  | requestMerge request => exact hhanded h ▸ requestMergeOpening_writes request r
  | isolate request => exact hhanded h ▸ isolateOpening_writes request r
  | clearIsolation request => exact hhanded h ▸ clearIsolationOpening_writes request r
  | revalidate request => exact hhanded h ▸ revalidateOpening_writes request r
  | _ => cases h

/-- A method that goes on from its opening writes what the opening does, and what comes after. -/
theorem Continues.writes {allowRestore : Bool} {α : Type} {opening : RuntimeAct Bool}
    {method : RuntimeAct α} (h : Continues (Along none) allowRestore opening method)
    {start r : PartitionRuntime} (hopening : Along none start (opening r).2) :
    Along none start (method r).2 := by
  have hr := h r
  rcases hopen : opening r with ⟨_ | _ | _, a⟩
  · rw [hopen] at hr hopening
    rw [show (method r).2 = a from hr]
    exact hopening
  · rw [hopen] at hr hopening
    rw [show (method r).2 = a from hr]
    exact hopening
  · rw [hopen] at hr hopening
    exact (hopening.trans _ _ _ (assessLocked_writes allowRestore a)).trans _ _ _ hr

/-- **Every operation is a sequence of writes**, none of which moves the clock or the attempt floor. -/
theorem perform_writes (r : PartitionRuntime) (operation : Operation) :
    Along none (r.started operation) (r.perform operation).2 := by
  cases operation with
  | advanceTicks delta => exact .refl _
  | adoptTopology definition =>
    rw [perform, respond_snd]
    exact adoptTopology_writes definition r
  | setPolicy policy =>
    rw [perform, respond_snd]
    exact setPolicy_writes policy r
  | ingestEvidence evidence =>
    rw [perform, respond_snd]
    exact ingestEvidence_writes evidence r
  | assess =>
    rw [perform, respond_snd]
    exact assessLocked_writes false r
  | requestMerge request =>
    rw [perform, respond_snd]
    exact (requestMerge_continues Along.refl request).writes (requestMergeOpening_writes request r)
  | isolate request =>
    rw [perform, respond_snd]
    exact (isolate_continues Along.refl request).writes (isolateOpening_writes request r)
  | clearIsolation request =>
    rw [perform, respond_snd]
    exact (clearIsolation_continues Along.refl request).writes
      (clearIsolationOpening_writes request r)
  | retire request =>
    rw [perform, respond_snd]
    exact retire_writes request r
  | revalidate request =>
    rw [perform, respond_snd]
    exact (revalidate_continues Along.refl request fun _ n refreshed =>
      reassertAuthority_writes (by rfl) n refreshed).writes (revalidateOpening_writes request r)
  | recordAcknowledgement ack =>
    rw [perform, respond_snd]
    exact recordAcknowledgement_writes ack r
  | recordVerifiedEffect effect =>
    rw [perform, respond_snd]
    exact recordVerifiedEffect_writes effect r
  | close => exact .refl _

end PartitionRuntime

end FabricPartition
