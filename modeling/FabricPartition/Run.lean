import FabricPartition.Operations

/-!
# Runs

A run of one incarnation is a list of calls, each an operation with its arguments and what the
appends it makes to the journal will meet.  The runtime is deterministic in these, so a run from a
given runtime is a function (`trace`), and a law of the runtime quantifies over the lists.

The invariants of a run are established move by move: `Move` is the union of everything the methods
write, `perform_evolves` shows that each operation is a sequence of moves, and `runs_invariant` turns
an invariant of the moves into one of the runs.  What only a whole operation restores is argued from
the inversions of `Operations`.
-/

set_option autoImplicit false

namespace FabricPartition

/-- The operations of the runtime, with their arguments. -/
inductive Operation
  | advanceTicks (delta : UInt64)
  | adoptTopology (definition : TopologyDefinition)
  | setPolicy (policy : PartitionPolicy)
  | ingestEvidence (evidence : ReachabilityEvidence)
  | assess
  | requestMerge (request : MergeRequest)
  | isolate (request : IsolationRequest)
  | clearIsolation (request : IsolationRequest)
  | retire (request : RetireRequest)
  | revalidate (request : RevalidationRequest)
  | recordAcknowledgement (ack : AuthorityAcknowledgement)
  | recordVerifiedEffect (effect : VerifiedEffect)
  | close

/-- The operations that neither assess as such, nor reset anything. -/
def Operation.Ordinary : Operation → Prop
  | .adoptTopology _ | .ingestEvidence _ | .assess | .close => False
  | _ => True

/-- What an operation returns, or the exception it leaves by. -/
inductive Response
  | ticks (advanced : Bool)
  | decision (decision : Decision)
  | assessment (assessment : PartitionAssessment)
  | merge (outcome : MergeOutcome)
  | isolation (outcome : IsolationOutcome)
  | revalidation (outcome : RevalidationOutcome)
  | closed
  | threw (error : PartitionError)
  deriving DecidableEq

/-- Is the response a granted merge? -/
def Response.grantsMerge : Response → Bool
  | .merge outcome => outcome.verdict == .granted
  | _ => false

theorem Response.grantsMerge_iff {response : Response} :
    response.grantsMerge = true ↔
      ∃ outcome, response = .merge outcome ∧ outcome.verdict = .granted := by
  cases response <;> simp [grantsMerge]

/-- Is the response a granted decision? -/
def Response.grants : Response → Bool
  | .decision d => d.verdict == .granted
  | _ => false

theorem Response.grants_iff {response : Response} :
    response.grants = true ↔ ∃ d, response = .decision d ∧ d.verdict = .granted := by
  cases response <;> simp [grants]

/-- Does the response accept a report about an authorisation? -/
def Response.observes : Response → Bool
  | .decision d => d.verdict == .observed
  | _ => false

namespace PartitionRuntime

/-- The response of a method. -/
def respond {α : Type} (wrap : α → Response) (act : RuntimeAct α) (r : PartitionRuntime) :
    Response × PartitionRuntime :=
  match act r with
  | (.ok a, r') => (wrap a, r')
  | (.error e, r') => (.threw e, r')

/-- One operation. -/
def perform (r : PartitionRuntime) : Operation → Response × PartitionRuntime
  | .advanceTicks delta => ((Response.ticks (advanceTicks delta r).1), (advanceTicks delta r).2)
  | .adoptTopology definition => respond .decision (adoptTopology definition) r
  | .setPolicy policy => respond .decision (setPolicy policy) r
  | .ingestEvidence evidence => respond .decision (ingestEvidence evidence) r
  | .assess => respond .assessment assess r
  | .requestMerge request => respond .merge (requestMerge request) r
  | .isolate request => respond .isolation (isolate request) r
  | .clearIsolation request => respond .isolation (clearIsolation request) r
  | .retire request => respond .decision (retire request) r
  | .revalidate request => respond .revalidation (revalidate request) r
  | .recordAcknowledgement ack => respond .decision (recordAcknowledgement ack) r
  | .recordVerifiedEffect effect => respond .decision (recordVerifiedEffect effect) r
  | .close => (.closed, close r)

/-- What the coming appends will meet. -/
def withFaults (faults : List (Option AppendFault)) (r : PartitionRuntime) : PartitionRuntime :=
  { r with store := r.store.map fun store => { store with faults := faults } }

end PartitionRuntime

/-- A call: an operation, and what its appends meet. -/
structure Call where
  operation : Operation
  faults : List (Option AppendFault) := []

/-- A call that was made. -/
structure Step where
  before : PartitionRuntime
  call : Call
  response : Response
  after : PartitionRuntime

namespace PartitionRuntime

/-- One call. -/
def call (r : PartitionRuntime) (c : Call) : Response × PartitionRuntime :=
  (r.withFaults c.faults).perform c.operation

/-- The steps of a run. -/
def trace : PartitionRuntime → List Call → List Step
  | _, [] => []
  | r, c :: cs => ⟨r, c, (r.call c).1, (r.call c).2⟩ :: trace (r.call c).2 cs

/-- The runtime after a run. -/
def after : PartitionRuntime → List Call → PartitionRuntime
  | r, [] => r
  | r, c :: cs => after (r.call c).2 cs

theorem after_append (r : PartitionRuntime) (cs ds : List Call) :
    r.after (cs ++ ds) = (r.after cs).after ds := by
  induction cs generalizing r with
  | nil => rfl
  | cons c cs ih => exact ih _

theorem trace_append (r : PartitionRuntime) (cs ds : List Call) :
    r.trace (cs ++ ds) = r.trace cs ++ (r.after cs).trace ds := by
  induction cs generalizing r with
  | nil => rfl
  | cons c cs ih => exact congrArg (_ :: ·) (ih _)

/-- **Invariants of a run**: what each step keeps holds at the end. -/
theorem runs_invariant {P : PartitionRuntime → Prop} {r : PartitionRuntime} {cs : List Call}
    (hinit : P r) (hstep : ∀ s ∈ r.trace cs, P s.before → P s.after) : P (r.after cs) := by
  induction cs generalizing r with
  | nil => exact hinit
  | cons c cs ih =>
    exact ih (hstep _ List.mem_cons_self hinit) fun s hs => hstep s (List.mem_cons_of_mem _ hs)

/-- A step of a run is the call it names, made on the state it names. -/
theorem mem_trace {r : PartitionRuntime} {cs : List Call} {s : Step} (h : s ∈ r.trace cs) :
    (s.response, s.after) = s.before.call s.call := by
  induction cs generalizing r with
  | nil => cases h
  | cons c cs ih =>
    rcases List.mem_cons.mp h with rfl | h
    · rfl
    · exact ih h

/-- Every step of a run starts where the steps before it ended. -/
theorem exists_before_of_mem_trace {r : PartitionRuntime} {cs : List Call} {s : Step}
    (h : s ∈ r.trace cs) :
    ∃ ds es, cs = ds ++ s.call :: es ∧ s.before = r.after ds := by
  induction cs generalizing r with
  | nil => cases h
  | cons c cs ih =>
    rcases List.mem_cons.mp h with rfl | h
    · exact ⟨[], cs, rfl, rfl⟩
    · obtain ⟨ds, es, rfl, hbefore⟩ := ih h
      exact ⟨c :: ds, es, rfl, hbefore⟩

/-! ## Moves -/

/-- A record other than those of assessments: the two kinds a governed operation commits. -/
def Governed (record : LineageRecord) : Prop := record.event = .merge ∨ record.event = .retire

/-- One of the writes the methods are made of. -/
inductive Move (r : PartitionRuntime) : PartitionRuntime → Prop
  | quiet {r' : PartitionRuntime} (h : Quiet r r') : Move r r'
  | stored {type : DurableRecordType} {r' : PartitionRuntime} (h : Stored type r r') : Move r r'
  | faults (faults : List (Option AppendFault)) : Move r (r.withFaults faults)
  | clock (tick : UInt64) : Move r { r with state := { r.state with tick := tick } }
  | evidence (evidence : ReachabilityEvidence) :
      Move r { r with ledger := (r.ledger.accept evidence r.roster r.policy r.state.tick).2 }
  | policy {policy canonical : PartitionPolicy}
      (h : policy.canonicalised r.limits = some canonical) : Move r { r with policy := canonical }
  | roster {definition : TopologyDefinition} {roster : ComponentRoster}
      (h : ComponentRoster.create definition r.limits = some roster) :
      Move r (installRoster definition roster r)
  | superseded :
      Move r { r with partitions := r.partitions.map fun p => { p with lifecycle := .superseded } }
  | interrupted {ps : List Partition} {r' : PartitionRuntime}
      (hps : ∀ p ∈ ps, p ∈ r.partitions ∧ p.granted = true) (h : Interrupted ps r r') : Move r r'
  | fenced {sequences : List AuthoritySequence} {r' : PartitionRuntime}
      (hs : ∀ n ∈ sequences, (∃ p ∈ r.partitions, p.granted = true ∧ p.authoritySequence = n) ∨
        ∃ e ∈ r.interrupted, e.authoritySequence = n)
      (h : Fenced sequences r r') : Move r r'
  | isolations (isolations : List IsolationDirective) : Move r { r with isolations := isolations }
  | forgot (keep : InterruptedAuthority → Bool) :
      Move r { r with interrupted := r.interrupted.filter keep }
  | recorded {record : LineageRecord} {sequence : LineageSequence}
      (hadmits : r.lineage.admits record = true) (hgoverned : Governed record) :
      Move r { r with
        lineage := r.lineage.push record
        state := { r.state with lineageSequence := sequence } }
  | acknowledged (ack : AuthorityAcknowledgement) :
      Move r { r with acknowledgements := r.acknowledgements ++ [ack] }
  | verified (effect : VerifiedEffect) :
      Move r { r with verifiedEffects := r.verifiedEffects ++ [effect] }
  | refused {assessment : PartitionAssessment}
      (h : assessment.generation = r.assessment.generation) :
      Move r { r with assessment := assessment }
  | abandoned {allowRestore : Bool} {generation : PartitionGeneration} {r' : PartitionRuntime}
      (hroster : r.rosterSet = true)
      (hnext : r.state.partitionGeneration.next = some generation)
      (h : Quiet (begun allowRestore generation r) r') : Move r r'
  | surveyed {allowRestore : Bool} {generation : PartitionGeneration} {r' : PartitionRuntime}
      {outcome : PartitionAssessment} (hroster : r.rosterSet = true)
      (hnext : r.state.partitionGeneration.next = some generation)
      (h : Surveyed allowRestore generation r r' outcome) : Move r r'
  | closed (store : Option DurableStore) : Move r { r with closed := true, store := store }

/-- A sequence of moves. -/
abbrev Evolves := Relation.ReflTransGen Move

/-- What every move keeps, a sequence of moves keeps. -/
theorem Evolves.invariant {P : PartitionRuntime → Prop} (hmove : ∀ r r', Move r r' → P r → P r')
    {r r' : PartitionRuntime} (h : Evolves r r') (hr : P r) : P r' := by
  induction h with
  | refl => exact hr
  | tail _ hlast ih => exact hmove _ _ hlast ih

theorem Quiet.evolves {r r' : PartitionRuntime} (h : Quiet r r') : Evolves r r' :=
  .single (.quiet h)

theorem assessLocked_evolves {allowRestore : Bool} {r r' : PartitionRuntime}
    {res : Except PartitionError PartitionAssessment}
    (h : assessLocked allowRestore r = (res, r')) : Evolves r r' := by
  rcases assessLocked_cases h with ⟨-, s, assessment, hq, rfl, hgen, -⟩ | ⟨-, rfl⟩ |
    ⟨generation, -, hroster, hnext, ⟨-, hq⟩ | ⟨outcome, -, hs⟩⟩
  · have hsgen : assessment.generation = s.assessment.generation := by
      obtain ⟨_, _, _, _, _, -, rfl⟩ := hq
      exact hgen
    exact hq.evolves.tail (.refused hsgen)
  · exact .refl
  · exact .single (.abandoned hroster hnext hq)
  · exact .single (.surveyed hroster hnext hs)

theorem mem_of_prefix_filter {qs ps : List Partition}
    (h : qs <+: ps.filter Partition.granted) : ∀ p ∈ qs, p ∈ ps ∧ p.granted = true := by
  intro p hp
  exact List.mem_filter.mp (h.subset hp)

theorem adoptTopology_evolves {definition : TopologyDefinition} {r r' : PartitionRuntime}
    {res : Except PartitionError Decision} (h : adoptTopology definition r = (res, r')) :
    Evolves r r' := by
  rcases adoptTopology_cases h with ⟨s, hst, hq, -⟩ | ⟨roster, s, -, hcreate, hcommit, hrest⟩
  · exact (Relation.ReflTransGen.single (.stored hst)).trans hq.evolves
  · have hst := commitRecord_stored .topologyDefinition (encodeTopology definition) r
    rw [hcommit] at hst
    have hfirst : Evolves r s := .single (.stored hst)
    obtain ⟨j, -, rfl⟩ := hst
    rcases hrest with ⟨-, hq, -⟩ | ⟨-, qs, t, hqs, hint, hrest⟩
    · exact (hfirst.tail (.roster hcreate)).trans hq.evolves
    · have hmid := hfirst.tail (.interrupted (mem_of_prefix_filter hqs) hint)
      rcases hrest with ⟨rfl, -⟩ | ⟨-, hq, -⟩
      · exact hmid
      · have hlimits : t.limits = r.limits := by
          obtain ⟨_, _, -, -, _, _, _, -, -, -, rfl⟩ := hint
          rfl
        exact ((hmid.tail .superseded).tail (.roster (by
          rw [← hcreate, ← hlimits]
          rfl))).trans hq.evolves

theorem setPolicy_evolves {policy : PartitionPolicy} {r r' : PartitionRuntime}
    {res : Except PartitionError Decision} (h : setPolicy policy r = (res, r')) :
    Evolves r r' := by
  rcases setPolicy_cases h with ⟨s, hst, hq, -⟩ |
    ⟨canonical, s, qs, t, hcanonical, -, hcommit, hqs, hint, hrest⟩
  · exact (Relation.ReflTransGen.single (.stored hst)).trans hq.evolves
  · have hst := commitRecord_stored .policyDefinition (encodePolicy canonical) r
    rw [hcommit] at hst
    have hfirst : Evolves r s := .single (.stored hst)
    obtain ⟨j, -, rfl⟩ := hst
    have hmid := hfirst.tail (.interrupted (mem_of_prefix_filter hqs) hint)
    rcases hrest with ⟨rfl, -⟩ | ⟨-, hq, -⟩
    · exact hmid
    · have hlimits : t.limits = r.limits := by
        obtain ⟨_, _, -, -, _, _, _, -, -, -, rfl⟩ := hint
        rfl
      have hcan : policy.canonicalised t.limits = some canonical := by rw [hlimits, hcanonical]
      exact (hmid.tail (.policy hcan)).trans hq.evolves

theorem MergeRecorded.evolves {request : MergeRequest} {subject : Partition}
    {r u : PartitionRuntime} (h : MergeRecorded request subject r u) : Evolves r u := by
  obtain ⟨s, c, decision, sequence, hq, -, hcommit, hadmits, rfl⟩ := h
  have hst := commitRecord_stored .lineageRecord
    (encodeLineage (s.mergeRecord request subject decision sequence)) s
  rw [hcommit] at hst
  have hmid : Evolves r c := hq.evolves.tail (.stored hst)
  obtain ⟨j, -, rfl⟩ := hst
  exact hmid.tail (.recorded hadmits (.inl rfl))

theorem RetireRecorded.evolves {request : RetireRequest} {r u : PartitionRuntime}
    (h : RetireRecorded request r u) : Evolves r u := by
  obtain ⟨s, c, latest, decision, sequence, hq, -, -, -, hcommit, hadmits, rfl⟩ := h
  have hst := commitRecord_stored .lineageRecord
    (encodeLineage (s.retireRecord latest request.lineage decision sequence)) s
  rw [hcommit] at hst
  have hmid : Evolves r c := hq.evolves.tail (.stored hst)
  obtain ⟨j, -, rfl⟩ := hst
  exact hmid.tail (.recorded hadmits (.inr rfl))

theorem MergeRecorded.partitions_eq {request : MergeRequest} {subject : Partition}
    {r u : PartitionRuntime} (h : MergeRecorded request subject r u) :
    u.partitions = r.partitions := by
  obtain ⟨s, c, decision, sequence, hq, -, hcommit, -, rfl⟩ := h
  obtain ⟨_, _, _, _, _, -, rfl⟩ := hq
  exact (congrArg (fun x => x.2.partitions) hcommit).symm

theorem RetireRecorded.partitions_eq {request : RetireRequest} {r u : PartitionRuntime}
    (h : RetireRecorded request r u) : u.partitions = r.partitions := by
  obtain ⟨s, c, latest, decision, sequence, hq, -, -, -, hcommit, -, rfl⟩ := h
  obtain ⟨_, _, _, _, _, -, rfl⟩ := hq
  exact (congrArg (fun x => x.2.partitions) hcommit).symm

theorem requestMerge_evolves {request : MergeRequest} {r r' : PartitionRuntime}
    {res : Except PartitionError MergeOutcome} (h : requestMerge request r = (res, r')) :
    Evolves r r' := by
  rcases requestMerge_cases h with ⟨⟨s, t, hq, hst, hq'⟩, -⟩ |
    ⟨subject, u, -, hm, hrec, ⟨-, rfl⟩ | ⟨s, t, resA, hf, hq, ha, -⟩⟩
  · exact (hq.evolves.tail (.stored hst)).trans hq'.evolves
  · exact hrec.evolves
  · refine ((((hrec.evolves.tail (.fenced ?_ hf)).tail (.forgot _)).trans hq.evolves)).trans
      (assessLocked_evolves ha)
    intro n hn
    split at hn
    · rename_i hg
      exact .inl ⟨subject, by rw [hrec.partitions_eq]; exact hm.mem, hg,
        (List.mem_singleton.mp hn).symm⟩
    · cases hn

theorem retire_evolves {request : RetireRequest} {r r' : PartitionRuntime}
    {res : Except PartitionError Decision} (h : retire request r = (res, r')) :
    Evolves r r' := by
  rcases retire_cases h with ⟨⟨s, t, hq, hst, hq'⟩, -⟩ |
    ⟨u, v, sequences, -, hrec, hsub, hf, hrest⟩
  · exact (hq.evolves.tail (.stored hst)).trans hq'.evolves
  · have hmid : Evolves r v := by
      refine hrec.evolves.tail (.fenced ?_ hf)
      intro n hn
      obtain ⟨p, hp, hpn⟩ := List.mem_map.mp (hsub hn)
      obtain ⟨hmem, hgrant⟩ := List.mem_filter.mp hp
      refine .inl ⟨p, by rw [hrec.partitions_eq]; exact hmem, ?_, hpn⟩
      exact (by simpa [holdsGrantOf] using hgrant : p.lineage = request.lineage ∧ _).2
    rcases hrest with ⟨-, rfl⟩ | ⟨-, hq, -⟩
    · exact hmid
    · exact (hmid.tail (.forgot _)).trans hq.evolves

theorem revalidate_evolves {request : RevalidationRequest} {r r' : PartitionRuntime}
    {res : Except PartitionError RevalidationOutcome} (h : revalidate request r = (res, r')) :
    Evolves r r' := by
  rcases revalidate_cases h with ⟨hq, -⟩ | ⟨s, t, resA, -, -, hq, ha, hrest⟩
  · exact hq.evolves
  · have hmid := hq.evolves.trans (assessLocked_evolves ha)
    rcases hrest with ⟨e, -, -, rfl⟩ | ⟨refreshed, sequences, u, -, hs, hf, hrest⟩
    · exact hmid
    · have hfenced := hmid.tail (.fenced (fun n hn => .inr (hs n hn)) hf)
      rcases hrest with ⟨-, rfl⟩ | ⟨hq', -⟩
      · exact hfenced
      · exact (hfenced.tail (.forgot _)).trans hq'.evolves

theorem Reassessed.evolves {r r' : PartitionRuntime} (h : Reassessed r r') : Evolves r r' := by
  obtain ⟨isolations, s, hq, hrest⟩ := h
  have hmid : Evolves r s := (Relation.ReflTransGen.single (.isolations isolations)).trans hq.evolves
  rcases hrest with rfl | ⟨res, ha⟩
  · exact hmid
  · exact hmid.trans (assessLocked_evolves ha)

/-- The state a method leaves is the state of its response. -/
theorem respond_snd {α : Type} (wrap : α → Response) (act : RuntimeAct α) (r : PartitionRuntime) :
    (respond wrap act r).2 = (act r).2 := by
  rw [respond]
  split
  · rename_i h
    rw [h]
  · rename_i h
    rw [h]

/-- **Every operation is a sequence of moves.** -/
theorem perform_evolves (r : PartitionRuntime) (operation : Operation) :
    Evolves r (r.perform operation).2 := by
  cases operation with
  | advanceTicks delta =>
    rcases advanceTicks_cases (Prod.eta (advanceTicks delta r)).symm with h | ⟨tick, h⟩
    · rw [perform, h]
    · rw [perform, h]
      exact .single (.clock tick)
  | adoptTopology definition =>
    rw [perform, respond_snd]
    exact adoptTopology_evolves rfl
  | setPolicy policy =>
    rw [perform, respond_snd]
    exact setPolicy_evolves rfl
  | ingestEvidence evidence =>
    rw [perform, respond_snd]
    rcases ingestEvidence_cases (Prod.eta (ingestEvidence evidence r)).symm with hq | hq
    · exact hq.evolves
    · exact (Relation.ReflTransGen.single (.evidence evidence)).trans hq.evolves
  | assess =>
    rw [perform, respond_snd]
    exact assessLocked_evolves rfl
  | requestMerge request =>
    rw [perform, respond_snd]
    exact requestMerge_evolves rfl
  | isolate request =>
    rw [perform, respond_snd]
    rcases isolate_cases (Prod.eta (isolate request r)).symm with hq | h
    · exact hq.evolves
    · exact h.evolves
  | clearIsolation request =>
    rw [perform, respond_snd]
    rcases clearIsolation_cases (Prod.eta (clearIsolation request r)).symm with hq | h
    · exact hq.evolves
    · exact h.evolves
  | retire request =>
    rw [perform, respond_snd]
    exact retire_evolves rfl
  | revalidate request =>
    rw [perform, respond_snd]
    exact revalidate_evolves rfl
  | recordAcknowledgement ack =>
    rw [perform, respond_snd]
    rcases recordAcknowledgement_cases (Prod.eta (recordAcknowledgement ack r)).symm with hq | hq
    · exact hq.evolves
    · exact (Relation.ReflTransGen.single (.acknowledged ack)).trans hq.evolves
  | recordVerifiedEffect effect =>
    rw [perform, respond_snd]
    rcases recordVerifiedEffect_cases (Prod.eta (recordVerifiedEffect effect r)).symm with hq | hq
    · exact hq.evolves
    · exact (Relation.ReflTransGen.single (.verified effect)).trans hq.evolves
  | close =>
    rw [perform, close]
    split
    · exact .refl
    · exact .single (.closed _)

theorem call_evolves (r : PartitionRuntime) (c : Call) : Evolves r (r.call c).2 :=
  (Relation.ReflTransGen.single (.faults c.faults)).trans (perform_evolves _ _)

/-- What every move keeps, a run keeps. -/
theorem after_invariant {P : PartitionRuntime → Prop} (hmove : ∀ r r', Move r r' → P r → P r')
    {r : PartitionRuntime} (hr : P r) (cs : List Call) : P (r.after cs) := by
  refine runs_invariant hr ?_
  intro s hs hbefore
  have hafter := congrArg Prod.snd (mem_trace hs)
  rw [show s.after = (s.before.call s.call).2 from hafter]
  exact (call_evolves _ _).invariant hmove hbefore

/-! ## Touches

What the operations write around an assessment, other than a roster and evidence.  An argument about
members that none of these writes is an argument about the three operations that are left. -/

/-- A write that is neither an assessment, nor a roster, nor evidence. -/
inductive Touch (r : PartitionRuntime) : PartitionRuntime → Prop
  | quiet {r' : PartitionRuntime} (h : Quiet r r') : Touch r r'
  | stored {type : DurableRecordType} {r' : PartitionRuntime} (h : Stored type r r') : Touch r r'
  | clock (tick : UInt64) : Touch r { r with state := { r.state with tick := tick } }
  | policy (policy : PartitionPolicy) : Touch r { r with policy := policy }
  | interrupted {ps : List Partition} {r' : PartitionRuntime} (h : Interrupted ps r r') : Touch r r'
  | fenced {sequences : List AuthoritySequence} {r' : PartitionRuntime}
      (h : Fenced sequences r r') : Touch r r'
  | isolations (isolations : List IsolationDirective) : Touch r { r with isolations := isolations }
  | forgot (keep : InterruptedAuthority → Bool) :
      Touch r { r with interrupted := r.interrupted.filter keep }
  | recorded (lineage : LineageStore) (sequence : LineageSequence) :
      Touch r { r with
        lineage := lineage
        state := { r.state with lineageSequence := sequence } }
  | acknowledged (ack : AuthorityAcknowledgement) :
      Touch r { r with acknowledgements := r.acknowledgements ++ [ack] }
  | verified (effect : VerifiedEffect) :
      Touch r { r with verifiedEffects := r.verifiedEffects ++ [effect] }

/-- A sequence of such writes. -/
abbrev Touches := Relation.ReflTransGen Touch

/-- At most one assessment, on an open runtime, among such writes. -/
def Refreshes (r r' : PartitionRuntime) : Prop :=
  Touches r r' ∨ ∃ allowRestore s, r.closed = false ∧ Touches r s ∧
    Touches (assessLocked allowRestore s).2 r'

theorem Quiet.touches {r r' : PartitionRuntime} (h : Quiet r r') : Touches r r' :=
  .single (.quiet h)

theorem MergeRecorded.touches {request : MergeRequest} {subject : Partition}
    {r u : PartitionRuntime} (h : MergeRecorded request subject r u) : Touches r u := by
  obtain ⟨s, c, decision, sequence, hq, -, hcommit, -, rfl⟩ := h
  have hstored := commitRecord_stored .lineageRecord
    (encodeLineage (s.mergeRecord request subject decision sequence)) s
  rw [hcommit] at hstored
  exact (hq.touches.tail (.stored hstored)).tail (.recorded _ _)

theorem RetireRecorded.touches {request : RetireRequest} {r u : PartitionRuntime}
    (h : RetireRecorded request r u) : Touches r u := by
  obtain ⟨s, c, latest, decision, sequence, hq, -, -, -, hcommit, -, rfl⟩ := h
  have hstored := commitRecord_stored .lineageRecord
    (encodeLineage (s.retireRecord latest request.lineage decision sequence)) s
  rw [hcommit] at hstored
  exact (hq.touches.tail (.stored hstored)).tail (.recorded _ _)

theorem admissionCheck_closed {r : PartitionRuntime} (hclosed : r.closed = true)
    (attempt : AttemptToken) (decision : Decision) :
    ∃ refused, r.admissionCheck attempt decision = some refused := by
  rw [admissionCheck, if_pos hclosed]
  exact ⟨_, rfl⟩

theorem Reassessed.refreshes {r r' : PartitionRuntime} (h : Reassessed r r')
    (hopen : r.closed = false) : Refreshes r r' := by
  obtain ⟨isolations, s, hq, hrest⟩ := h
  have htouches : Touches r s := (Relation.ReflTransGen.single (.isolations isolations)).tail (.quiet hq)
  rcases hrest with rfl | ⟨res, ha⟩
  · exact .inl htouches
  · refine .inr ⟨false, s, hopen, htouches, ?_⟩
    rw [ha]

theorem isolate_refreshes (request : IsolationRequest) (r : PartitionRuntime) :
    Refreshes r (isolate request r).2 := by
  rcases hclosed : r.closed with _ | _
  · rcases isolate_cases (Prod.eta (isolate request r)).symm with hq | hre
    · exact .inl hq.touches
    · exact hre.refreshes hclosed
  · obtain ⟨refused, hrefused⟩ := admissionCheck_closed hclosed request.attempt
      (r.makeDecision .isolateComponents .invalid fabricScope)
    rw [isolate, Act.read_bind]
    simp only [hrefused]
    exact .inl (finishIsolation_quiet (Prod.eta (finishIsolation refused r)).symm).touches

theorem clearIsolation_refreshes (request : IsolationRequest) (r : PartitionRuntime) :
    Refreshes r (clearIsolation request r).2 := by
  rcases hclosed : r.closed with _ | _
  · rcases clearIsolation_cases (Prod.eta (clearIsolation request r)).symm with hq | hre
    · exact .inl hq.touches
    · exact hre.refreshes hclosed
  · obtain ⟨refused, hrefused⟩ := admissionCheck_closed hclosed request.attempt
      (r.makeDecision .isolateComponents .invalid fabricScope)
    rw [clearIsolation, Act.read_bind]
    simp only [hrefused]
    exact .inl (finishIsolation_quiet (Prod.eta (finishIsolation refused r)).symm).touches

theorem requestMerge_refreshes (request : MergeRequest) (r : PartitionRuntime) :
    Refreshes r (requestMerge request r).2 := by
  rcases requestMerge_cases (Prod.eta (requestMerge request r)).symm with
    ⟨⟨s, t, hq, hst, hq'⟩, -⟩ | ⟨subject, u, hopen, -, hu, ⟨-, hr'⟩ | ⟨s, t, _, hf, hq, ha, -⟩⟩
  · exact .inl ((hq.touches.tail (.stored hst)).tail (.quiet hq'))
  · rw [hr']
    exact .inl hu.touches
  · refine .inr ⟨false, t, hopen, ((hu.touches.tail (.fenced hf)).tail (.forgot _)).tail (.quiet hq), ?_⟩
    rw [ha]

theorem retire_touches (request : RetireRequest) (r : PartitionRuntime) :
    Touches r (retire request r).2 := by
  rcases retire_cases (Prod.eta (retire request r)).symm with
    ⟨⟨s, t, hq, hst, hq'⟩, -⟩ | ⟨u, v, _, -, hu, -, hf, ⟨-, hr'⟩ | ⟨-, hq, -⟩⟩
  · exact (hq.touches.tail (.stored hst)).tail (.quiet hq')
  · rw [hr']
    exact hu.touches.tail (.fenced hf)
  · exact ((hu.touches.tail (.fenced hf)).tail (.forgot _)).tail (.quiet hq)

theorem revalidate_refreshes (request : RevalidationRequest) (r : PartitionRuntime) :
    Refreshes r (revalidate request r).2 := by
  rcases revalidate_cases (Prod.eta (revalidate request r)).symm with
    ⟨hq, -⟩ | ⟨s, t, _, hopen, -, hq, ha, ⟨_, -, -, hr'⟩ |
      ⟨refreshed, _, u, -, -, hf, ⟨-, hr'⟩ | ⟨hq', -⟩⟩⟩
  · exact .inl hq.touches
  all_goals refine .inr ⟨true, s, hopen, hq.touches, ?_⟩; rw [ha]
  · rw [hr']
  · rw [hr']
    exact .single (.fenced hf)
  · exact ((Relation.ReflTransGen.single (.fenced hf)).tail (.forgot _)).tail (.quiet hq')

theorem setPolicy_touches (policy : PartitionPolicy) (r : PartitionRuntime) :
    Touches r (setPolicy policy r).2 := by
  rcases setPolicy_cases (Prod.eta (setPolicy policy r)).symm with
    ⟨s, hst, hq, -⟩ | ⟨canonical, s, qs, t, -, -, hcommit, -, hint, ⟨hr', -⟩ | ⟨-, hq, -⟩⟩
  · exact (Relation.ReflTransGen.single (.stored hst)).tail (.quiet hq)
  all_goals
    have hst := commitRecord_stored .policyDefinition (encodePolicy canonical) r
    rw [hcommit] at hst
  · rw [hr']
    exact (Relation.ReflTransGen.single (.stored hst)).tail (.interrupted hint)
  · exact (((Relation.ReflTransGen.single (.stored hst)).tail (.interrupted hint)).tail
      (.policy _)).tail (.quiet hq)

/-- **The other operations** come to small writes, with one assessment among them at most. -/
theorem perform_refreshes (r : PartitionRuntime) {operation : Operation}
    (hordinary : operation.Ordinary) : Refreshes r (r.perform operation).2 := by
  rcases operation with delta | definition | policy | evidence | _ | request | request | request |
    request | request | ack | effect | _
  · rw [perform]
    rcases advanceTicks_cases (Prod.eta (advanceTicks delta r)).symm with h | ⟨tick, h⟩ <;> rw [h]
    · exact .inl .refl
    · exact .inl (.single (.clock tick))
  · cases hordinary
  · rw [perform, respond_snd]
    exact .inl (setPolicy_touches policy r)
  · cases hordinary
  · cases hordinary
  · rw [perform, respond_snd]
    exact requestMerge_refreshes request r
  · rw [perform, respond_snd]
    exact isolate_refreshes request r
  · rw [perform, respond_snd]
    exact clearIsolation_refreshes request r
  · rw [perform, respond_snd]
    exact .inl (retire_touches request r)
  · rw [perform, respond_snd]
    exact revalidate_refreshes request r
  · rw [perform, respond_snd]
    rcases recordAcknowledgement_cases (Prod.eta (recordAcknowledgement ack r)).symm with hq | hq
    · exact .inl hq.touches
    · exact .inl ((Relation.ReflTransGen.single (.acknowledged ack)).tail (.quiet hq))
  · rw [perform, respond_snd]
    rcases recordVerifiedEffect_cases (Prod.eta (recordVerifiedEffect effect r)).symm with hq | hq
    · exact .inl hq.touches
    · exact .inl ((Relation.ReflTransGen.single (.verified effect)).tail (.quiet hq))
  · cases hordinary

/-! ## Responses -/

/-- What a method returned, from its response. -/
theorem respond_ok {α : Type} {wrap : α → Response} (hwrap : Function.Injective wrap)
    (hthrew : ∀ a e, wrap a ≠ .threw e) {act : RuntimeAct α} {r : PartitionRuntime} {a : α}
    (h : (respond wrap act r).1 = wrap a) : act r = (.ok a, (respond wrap act r).2) := by
  rw [respond_snd]
  rw [respond] at h
  rcases hact : act r with ⟨res, r'⟩
  rw [hact] at h
  cases res with
  | ok b => rw [hwrap h]
  | error e => exact absurd h.symm (hthrew a e)

theorem call_merge {r : PartitionRuntime} {request : MergeRequest}
    {faults : List (Option AppendFault)} {outcome : MergeOutcome}
    (h : (r.call ⟨.requestMerge request, faults⟩).1 = .merge outcome) :
    requestMerge request (r.withFaults faults)
      = (.ok outcome, (r.call ⟨.requestMerge request, faults⟩).2) :=
  respond_ok (fun _ _ h => by cases h; rfl) (fun _ _ h => by cases h) h

end PartitionRuntime

/-! ## A small fabric

Components, bundles and a runtime without a store, for the concrete runs of the later modules. -/

/-- An identifier given by its text. -/
def named (tag : IdTag) (text : String) : TextId tag := (TextId.parse (ascii text)).getD .nil

/-- A roster of named components. -/
def smallTopology (generation : UInt64) (components : List String) : TopologyDefinition where
  id := named _ "t"
  generation := ⟨generation⟩
  provenance := .nil
  components := components.map (named _)

/-- Observations of some pairs, in both directions. -/
def bothWays (pairs : List (String × String)) (value : Reachability) : List LinkObservation :=
  pairs.flatMap fun pair =>
    [⟨named _ pair.1, named _ pair.2, value⟩, ⟨named _ pair.2, named _ pair.1, value⟩]

/-- The bundle with a number: observed at a tick, valid for ten. -/
def smallBundle (number : Nat) (tick : UInt64) (observations : List LinkObservation) :
    ReachabilityEvidence where
  id := named _ ("e" ++ toString number)
  sequence := ⟨UInt64.ofNat number⟩
  publisher := named _ "p"
  publisherBoot := default
  topologyGeneration := ⟨1⟩
  generation := ⟨UInt64.ofNat number⟩
  observedAtTick := tick
  validityTicks := 10
  provenance := .nil
  observations := observations

/-- A runtime that keeps nothing. -/
def smallRuntime : PartitionRuntime := (PartitionRuntime.construct { durable := false } {} default).2

theorem smallRuntime_started :
    PartitionRuntime.construct { durable := false } {} default = (.ok (), smallRuntime) :=
  Prod.ext (by decide +kernel) rfl

/-- The attempt with a number. -/
def smallAttempt (number : Nat) : AttemptToken :=
  ⟨named _ ("m" ++ toString number), ⟨UInt64.ofNat number⟩⟩

end FabricPartition
