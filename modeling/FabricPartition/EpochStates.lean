import FabricPartition.Adoption
import FabricPartition.Revalidation

/-!
# Epoch states in the journal

Two things commit an epoch state: a start, without marks, and an assessment, with a mark for each grant
it is about to publish.  `decode_epoch_state` bounds the marks by `max_fence_records`, the bound of
another table, which nothing compares with the number of partitions.

* `call_epochStates`, `Revived.epochStates` — what a call and a start add to the epoch states;
* `epochStates_readable` — as long as no assessment grants more than `max_fence_records` partitions, all
  of them are read back, in every life of a store.
-/

set_option autoImplicit false

namespace FabricPartition

namespace PartitionRuntime

/-- The epoch states among some records. -/
def epochStates (records : List DurableRecord) : List DurableRecord :=
  records.filter fun record => record.type = .epochState

theorem epochStates_append (xs ys : List DurableRecord) :
    epochStates (xs ++ ys) = epochStates xs ++ epochStates ys := List.filter_append ..

theorem mem_epochStates {records : List DurableRecord} {record : DurableRecord} :
    record ∈ epochStates records ↔ record ∈ records ∧ record.type = .epochState := by
  rw [epochStates, List.mem_filter, decide_eq_true_eq]

/-- Commits of other types add none. -/
theorem epochStates_commitAll {log : List Entry} (h : ∀ entry ∈ log, entry.1 ≠ .epochState)
    (j : Journal) :
    epochStates (Journal.records (commitAll log j)) = epochStates (Journal.records j) := by
  induction log generalizing j with
  | nil => rfl
  | cons entry log ih =>
    rw [commitAll_cons, ih fun e he => h e (List.mem_cons_of_mem _ he)]
    rcases records_commitJournal entry.1 entry.2 j with hsame | ⟨sequence, hadded⟩
    · rw [hsame]
    · have htype : entry.1 ≠ .epochState := h entry List.mem_cons_self
      rw [hadded, epochStates_append]
      simp [epochStates, htype]

theorem Journaled.epochStates {type : DurableRecordType} (htype : type ≠ .epochState)
    {j k : Journal} (h : Journaled (OfType type) j k) :
    epochStates (Journal.records k) = epochStates (Journal.records j) := by
  obtain ⟨log, htypes, rfl⟩ := h.exists_log
  refine epochStates_commitAll (fun entry hentry => ?_) j
  rw [show entry.1 = type from htypes entry hentry]
  exact htype

theorem Drifts.epochStates {r r' : PartitionRuntime} (h : Drifts r r') :
    epochStates (Journal.records r'.journal) = epochStates (Journal.records r.journal) := by
  obtain ⟨log, added, hdrift⟩ := h
  rw [hdrift.journal, epochStates_commitAll hdrift.unmarked]

theorem Quiet.epochStates {r r' : PartitionRuntime} (h : Quiet r r') :
    epochStates (Journal.records r'.journal) = epochStates (Journal.records r.journal) := by
  obtain ⟨_, _, _, _, j, hj, rfl⟩ := h
  exact Journaled.epochStates (by decide) hj

/-! ## Assessments -/

/-- The assessment of a runtime committed the epoch state it ended with. -/
structure Commits (allowRestore : Bool) (a : PartitionRuntime) (outcome : PartitionAssessment)
    (t : PartitionRuntime) (sequence : UInt64) : Prop where
  assesses : assessLocked allowRestore a = (.ok outcome, t)
  isOpen : a.closed = false
  rosterSet : a.rosterSet = true
  marks : t.state.liveGrants = grantMarks outcome.partitions
  added : epochStates (Journal.records t.journal) = epochStates (Journal.records a.journal)
    ++ [⟨.epochState, sequence, encodeEpochState t.state⟩]

/-- An assessment commits the epoch state it ends with, or none. -/
theorem assessLocked_epochStates {allowRestore : Bool} {a t : PartitionRuntime}
    {res : Except PartitionError PartitionAssessment} (h : assessLocked allowRestore a = (res, t)) :
    epochStates (Journal.records t.journal) = epochStates (Journal.records a.journal) ∨
      ∃ outcome sequence, res = .ok outcome ∧ Commits allowRestore a outcome t sequence := by
  rcases assessLocked_cases h with ⟨-, s, assessment, hq, rfl, -⟩ | ⟨-, rfl⟩ |
    ⟨generation, hopen, hroster, -, ⟨-, hq⟩ | ⟨outcome, rfl, hs⟩⟩
  · exact .inl hq.epochStates
  · exact .inl rfl
  · exact .inl hq.epochStates
  · obtain ⟨decision, s, u, ps, hq, hcommit, hpub⟩ := hs
    have hbegun : epochStates (Journal.records s.journal) = epochStates (Journal.records a.journal) :=
      hq.epochStates
    rcases hpub with ⟨-, hpub⟩ | ⟨-, -, -, -, -, rfl⟩
    · obtain ⟨-, _, _, j, hj, -, hu⟩ := commitLineages_cases hcommit
      have hsame : epochStates (Journal.records u.journal)
          = epochStates (Journal.records a.journal) := by
        rw [← hbegun, hu]
        exact Journaled.epochStates (by decide) hj
      obtain ⟨hjournal, hstate⟩ := publishAssessment_journal decision
        (planned allowRestore generation a) ps u
      obtain ⟨hpartitions, -⟩ := publishAssessment_cases hpub
      rw [← hpub] at hjournal hstate
      rw [← hstate, commitAll_cons, commitAll_nil] at hjournal
      rcases records_commitJournal .epochState (encodeEpochState t.state) u.journal with
        hnone | ⟨sequence, hadded⟩
      · exact .inl (by rw [hjournal, hnone, hsame])
      · refine .inr ⟨outcome, sequence, rfl, h, hopen, hroster, ?_, ?_⟩
        · rw [hstate, hpartitions]
        · rw [hjournal, hadded, epochStates_append, hsame]
          rfl
    · exact .inl hbegun

/-- A call commits the epoch state of its assessment, with drifts before and after it. -/
structure CallCommits (r : PartitionRuntime) (c : Call) (allowRestore : Bool) (a : PartitionRuntime)
    (outcome : PartitionAssessment) (t : PartitionRuntime) (sequence : UInt64) : Prop where
  assessing : (r.withFaults c.faults).assessing c.operation = some (allowRestore, a)
  opening : Drifts (r.withFaults c.faults) a
  commits : Commits allowRestore a outcome t sequence
  ending : Drifts t (r.call c).2

/-- **What a call adds to the epoch states**: the one its assessment ends with, or none. -/
theorem call_epochStates (r : PartitionRuntime) (c : Call) :
    epochStates (Journal.records (r.call c).2.journal) = epochStates (Journal.records r.journal) ∨
      ∃ allowRestore a outcome t sequence, CallCommits r c allowRestore a outcome t sequence ∧
        epochStates (Journal.records (r.call c).2.journal) = epochStates (Journal.records r.journal)
          ++ [⟨.epochState, sequence, encodeEpochState t.state⟩] := by
  have hwith : epochStates (Journal.records (r.withFaults c.faults).journal)
      = epochStates (Journal.records r.journal) := by rw [withFaults_records]
  by_cases hclose : c.operation = .close
  · refine .inl ?_
    rw [call, hclose, ← hwith, ← close_records (r.withFaults c.faults)]
    rfl
  · have hphases := perform_phases (r.withFaults c.faults) hclose
    rw [Phases] at hphases
    rcases hassessing : (r.withFaults c.faults).assessing c.operation with _ | ⟨allowRestore, a⟩
    · rw [hassessing] at hphases
      exact .inl (hphases.epochStates.trans hwith)
    · rw [hassessing] at hphases
      obtain ⟨hopening, hending⟩ := hphases
      have hend : epochStates (Journal.records (r.call c).2.journal)
          = epochStates (Journal.records (assessLocked allowRestore a).2.journal) :=
        hending.epochStates
      have hbegin : epochStates (Journal.records a.journal)
          = epochStates (Journal.records r.journal) := hopening.epochStates.trans hwith
      rcases assessLocked_epochStates (Prod.eta (assessLocked allowRestore a)).symm with
        hsame | ⟨outcome, sequence, -, hcommits⟩
      · exact .inl (hend.trans (hsame.trans hbegin))
      · refine .inr ⟨allowRestore, a, outcome, _, sequence, ⟨hassessing, hopening, hcommits,
          hending⟩, ?_⟩
        rw [hend, hcommits.added, hbegin]

/-- **What a start adds to the epoch states** it has loaded: one without marks. -/
theorem Revived.epochStates {options : RuntimeOptions} {disk : Disk} {ids : BootIdentities}
    {faults : List (Option AppendFault)} {r restored : PartitionRuntime}
    (h : Revived options disk ids faults r restored) :
    r.state.liveGrants = [] ∧ ∃ sequence, epochStates (Journal.records r.journal)
      = epochStates (loadedRecords options disk)
        ++ [⟨.epochState, sequence, encodeEpochState r.state⟩] := by
  obtain ⟨fresh, hrestored, -, -, -, -, -, -, hrecords⟩ := h.restores
  obtain ⟨fences, fenceSequence, epoch, bootSequence, sequence, -, -, -, -, hstate, hwritten⟩ :=
    h.entered
  have hkept : restored.journal = fresh.journal :=
    hrestored.invariant (P := fun u => u.journal = fresh.journal)
      (fun _ _ _ _ hstep hu => hstep.keeps.1.trans hu) rfl
  refine ⟨by rw [hstate], sequence, ?_⟩
  rw [hwritten, epochStates_append, epochStates_commitAll, hkept, hrecords]
  · rfl
  · intro entry hentry
    obtain ⟨fence, -, rfl⟩ := List.mem_map.mp hentry
    show DurableRecordType.fenceRecord ≠ .epochState
    decide

/-! ## What is read back -/

/-- A record is read back as a state: the turn of a restart over it puts the state in force, and what
was live in it is interrupted. -/
structure ReadsAs (limits : Limits) (record : DurableRecord) (state : EpochState) : Prop where
  payload : record.payload = encodeEpochState state
  decodes : decodeEpochState record.payload limits = some state
  turn : ∀ s : PartitionRuntime, s.limits = limits →
    ∃ s', restoreRecord record s = (.ok (), s') ∧ s'.state = { state with liveGrants := [] } ∧
      s'.interrupted = state.interruptions

/-- A committed state is read back as itself if its marks fit the bound of the decoder. -/
theorem readsAs_of_fitsIn {limits : Limits} {state : EpochState} (h : state.FitsIn limits)
    (sequence : UInt64) :
    ReadsAs limits ⟨.epochState, sequence, encodeEpochState state⟩ state := by
  have hdecode : decodeEpochState (encodeEpochState state) limits = some state :=
    ((codec_epochState limits).whole_iff _ _).mpr ⟨h, rfl⟩
  refine ⟨rfl, hdecode, fun s hlimits => ⟨restoreEpochState state s, ?_, rfl, rfl⟩⟩
  rw [restoreRecord, Act.read_bind]
  simp only [hlimits, hdecode]
  rfl

/-- All epoch states in the journal are read back under the limits of the runtime. -/
def EpochStatesReadable (r : PartitionRuntime) : Prop :=
  ∀ record ∈ epochStates (Journal.records r.journal), ∃ state, ReadsAs r.limits record state

/-- Everything that was restored could be decoded. -/
theorem Restored.epochStates_read {records : List DurableRecord} {r r' : PartitionRuntime}
    (h : Restored records r r') {record : DurableRecord} (hrecord : record ∈ epochStates records) :
    ∃ state, ReadsAs r.limits record state := by
  induction h with
  | nil => cases hrecord
  | @cons first records r s t hfirst _ ih =>
    have hlimits : s.limits = r.limits := congrArg RuntimeOptions.limits hfirst.keeps.2
    obtain ⟨hmem, htype⟩ := mem_epochStates.mp hrecord
    rcases List.mem_cons.mp hmem with rfl | hmem
    · rcases hfirst with
        ⟨_, hdecode⟩ | ⟨hne, _⟩ | ⟨hne, _, _⟩ | ⟨hne, _, _⟩ | ⟨hne, _⟩ | ⟨hne, _⟩
      · obtain ⟨hfits, hpayload⟩ := ((codec_epochState r.limits).whole_iff _ _).mp hdecode
        have hreads := readsAs_of_fitsIn hfits record.sequence
        rw [← hpayload, ← htype] at hreads
        exact ⟨_, hreads⟩
      all_goals exact absurd (htype.symm.trans hne) (by decide)
    · rw [← hlimits]
      exact ih (mem_epochStates.mpr ⟨hmem, htype⟩)

/-! ## How many marks there are -/

/-- The partitions the next assessment grants authority to: those whose class draws a number, as long
as there are numbers. -/
def grantees (allowRestore : Bool) (r : PartitionRuntime) : List Partition :=
  (r.decomposition.filter fun p =>
    draws r.policy (r.resolved.finalClass allowRestore r.decomposition p)).take r.numbersLeft

/-- The marks of an assessment are as many as the partitions it grants authority to. -/
theorem Commits.marks_length {allowRestore : Bool} {a t : PartitionRuntime}
    {outcome : PartitionAssessment} {sequence : UInt64}
    (h : Commits allowRestore a outcome t sequence) :
    t.state.liveGrants.length = (a.grantees allowRestore).length := by
  obtain ⟨hall, hspends⟩ := assessLocked_decomposed h.isOpen h.rosterSet h.assesses
  have hgranted := hspends.granted hall a.state.authoritySequence.value.toNat_lt
  rw [h.marks, grantMarks, List.length_map]
  exact hgranted.length_eq.symm

theorem Drifts.limits {r r' : PartitionRuntime} (h : Drifts r r') : r'.limits = r.limits := by
  obtain ⟨_, _, hdrift⟩ := h
  exact congrArg RuntimeOptions.limits hdrift.options

/-- No operation changes the options. -/
theorem perform_options (r : PartitionRuntime) (operation : Operation) :
    (r.perform operation).2.options = r.options := by
  by_cases hclose : operation = .close
  · subst hclose
    exact (close_opens r).options
  · have hphases := perform_phases r hclose
    rw [Phases] at hphases
    rcases hassessing : r.assessing operation with _ | ⟨allowRestore, a⟩
    · rw [hassessing] at hphases
      obtain ⟨_, _, hdrift⟩ := hphases
      exact hdrift.options
    · rw [hassessing] at hphases
      obtain ⟨⟨_, _, hbefore⟩, ⟨_, _, hafter⟩⟩ := hphases
      have hassess := assessLocked_consulted (Prod.eta (assessLocked allowRestore a)).symm
      rw [hafter.options, hassess.options, hbefore.options]

theorem call_limits (r : PartitionRuntime) (c : Call) : (r.call c).2.limits = r.limits :=
  congrArg RuntimeOptions.limits (perform_options (r.withFaults c.faults) c.operation)

/-- The assessment of a call is made under the limits of the runtime. -/
theorem CallCommits.limits {r : PartitionRuntime} {c : Call} {allowRestore : Bool}
    {a t : PartitionRuntime} {outcome : PartitionAssessment} {sequence : UInt64}
    (h : CallCommits r c allowRestore a outcome t sequence) : a.limits = r.limits :=
  h.opening.limits

/-- The marks of a call that commits an epoch state are read back exactly if they fit. -/
theorem CallCommits.readable_iff {r : PartitionRuntime} {c : Call} {allowRestore : Bool}
    {a t : PartitionRuntime} {outcome : PartitionAssessment} {sequence : UInt64}
    (h : CallCommits r c allowRestore a outcome t sequence) :
    (∃ state, ReadsAs r.limits ⟨.epochState, sequence, encodeEpochState t.state⟩ state) ↔
      Fits a.limits.maxFenceRecords (a.grantees allowRestore).length := by
  rw [← h.commits.marks_length, h.limits]
  refine ⟨fun ⟨state, hreads⟩ => ?_, fun hfits => ⟨t.state, readsAs_of_fitsIn hfits sequence⟩⟩
  obtain rfl := encodeEpochState_injective hreads.payload
  exact (((codec_epochState r.limits).whole_iff _ _).mp hreads.decodes).1

end PartitionRuntime

/-- Whatever a call has assessed grants authority to no more partitions than the decoder takes marks;
a restart is one on a store. -/
def Moment.MarksFit : Moment → Prop
  | .called s => ∀ allowRestore a,
    (s.before.withFaults s.call.faults).assessing s.call.operation = some (allowRestore, a) →
      Fits a.limits.maxFenceRecords (a.grantees allowRestore).length
  | .restarted _ options _ _ _ => options.durable = true

instance : (m : Moment) → Decidable m.MarksFit
  | .called s => decidable_of_iff
    (∀ handed ∈ (s.before.withFaults s.call.faults).assessing s.call.operation,
      Fits handed.2.limits.maxFenceRecords (handed.2.grantees handed.1).length)
    ⟨fun h allowRestore a ha => h (allowRestore, a) ha, fun h handed ha => h handed.1 handed.2 ha⟩
  | .restarted _ _ _ _ _ => inferInstanceAs (Decidable (_ = _))

namespace PartitionRuntime

/-- The epoch states that were added by a moment, behind those it found. -/
def addedEpochStates (m : Moment) : List DurableRecord :=
  (epochStates (Journal.records m.after.journal)).drop
    (epochStates (Journal.records m.before.journal)).length

/-- What a call committed interrupts, once it is read back, exactly the grants of the assessment it
made. -/
def InterruptsGrants (s : Step) : Prop :=
  ∀ record ∈ addedEpochStates (.called s), ∃ allowRestore a outcome t state,
    (s.before.withFaults s.call.faults).assessing s.call.operation = some (allowRestore, a) ∧
      assessLocked allowRestore a = (.ok outcome, t) ∧ ReadsAs s.before.limits record state ∧
      state.interruptions = (outcome.partitions.filter Partition.granted).map t.interruption

theorem Commits.interruptions {allowRestore : Bool} {a t : PartitionRuntime}
    {outcome : PartitionAssessment} {sequence : UInt64}
    (h : Commits allowRestore a outcome t sequence) :
    t.state.interruptions = (outcome.partitions.filter Partition.granted).map t.interruption := by
  rw [EpochState.interruptions, h.marks, grantMarks, List.map_map]
  rfl

/-- **One call**: what it commits is read back, if its grants fit. -/
theorem call_epochStates_readable {r : PartitionRuntime} {c : Call} (hr : EpochStatesReadable r)
    (hfit : (Moment.called ⟨r, c, (r.call c).1, (r.call c).2⟩).MarksFit) :
    EpochStatesReadable (r.call c).2 ∧ InterruptsGrants ⟨r, c, (r.call c).1, (r.call c).2⟩ := by
  have hlimits := call_limits r c
  rcases call_epochStates r c with hsame | ⟨allowRestore, a, outcome, t, sequence, hcommits, hadded⟩
  · refine ⟨?_, fun record hrecord => ?_⟩
    · rw [EpochStatesReadable, hsame, hlimits]
      exact hr
    · rw [addedEpochStates] at hrecord
      simp only [Moment.after, Moment.before] at hrecord
      rw [hsame, List.drop_length] at hrecord
      cases hrecord
  · have hfits := hfit allowRestore a hcommits.assessing
    have hreads : ReadsAs r.limits ⟨.epochState, sequence, encodeEpochState t.state⟩ t.state := by
      refine readsAs_of_fitsIn ?_ sequence
      rw [EpochState.FitsIn, hcommits.commits.marks_length, ← hcommits.limits]
      exact hfits
    refine ⟨?_, fun record hrecord => ?_⟩
    · intro record hrecord
      rw [hadded] at hrecord
      rw [hlimits]
      rcases List.mem_append.mp hrecord with hrecord | hrecord
      · exact hr record hrecord
      · rw [List.mem_singleton.mp hrecord]
        exact ⟨_, hreads⟩
    · rw [addedEpochStates] at hrecord
      simp only [Moment.after, Moment.before] at hrecord
      rw [hadded, List.drop_left, List.mem_singleton] at hrecord
      subst hrecord
      exact ⟨allowRestore, a, outcome, t, t.state, hcommits.assessing, hcommits.commits.assesses,
        hreads, hcommits.commits.interruptions⟩

/-- **One start**: it has read all epoch states it loaded, and commits one without marks. -/
theorem construct_epochStates_readable {options : RuntimeOptions} {disk : Disk}
    {ids : BootIdentities} {faults : List (Option AppendFault)} {r : PartitionRuntime}
    (hdurable : options.durable = true) (h : construct options disk ids faults = (.ok (), r)) :
    EpochStatesReadable r := by
  obtain ⟨restored, hrevived⟩ := construct_revived hdurable h
  obtain ⟨hmarks, sequence, hadded⟩ := hrevived.epochStates
  obtain ⟨fresh, hrestored, hoptions, -⟩ := hrevived.restores
  intro record hrecord
  rw [hadded] at hrecord
  rw [show r.limits = options.limits from congrArg RuntimeOptions.limits hrevived.settings]
  rcases List.mem_append.mp hrecord with hrecord | hrecord
  · rw [← show fresh.limits = options.limits from congrArg RuntimeOptions.limits hoptions]
    exact hrestored.epochStates_read hrecord
  · rw [List.mem_singleton.mp hrecord]
    refine ⟨r.state, readsAs_of_fitsIn ?_ sequence⟩
    rw [EpochState.FitsIn, hmarks]
    exact ⟨Nat.zero_le _, by decide⟩

/-- A call that commits an epoch state has them all read back exactly if its grants fit. -/
theorem call_readable_iff {r : PartitionRuntime} {c : Call} (hr : EpochStatesReadable r)
    (hadded : addedEpochStates (.called ⟨r, c, (r.call c).1, (r.call c).2⟩) ≠ []) :
    EpochStatesReadable (r.call c).2 ↔
      (Moment.called ⟨r, c, (r.call c).1, (r.call c).2⟩).MarksFit := by
  refine ⟨fun hafter => ?_, fun hfit => (call_epochStates_readable hr hfit).1⟩
  rcases call_epochStates r c with hsame | ⟨allowRestore, a, outcome, t, sequence, hcommits, hgrown⟩
  · rw [addedEpochStates] at hadded
    simp only [Moment.after, Moment.before] at hadded
    rw [hsame, List.drop_length] at hadded
    exact absurd rfl hadded
  · intro allowRestore' a' hassessing
    rw [hcommits.assessing] at hassessing
    obtain ⟨rfl, rfl⟩ := Prod.mk.inj (Option.some.inj hassessing)
    refine hcommits.readable_iff.mp ?_
    rw [← call_limits r c]
    exact hafter _ (by
      rw [hgrown]
      exact List.mem_append_right _ (List.mem_singleton_self _))

/-- **Every epoch state is read back**, in the life of a store in which no assessment grants authority
to more partitions than the decoder takes marks; and what an assessment has committed interrupts exactly
what it granted.  The first assessment that does so and commits its epoch state leaves one that is not
read back. -/
theorem epochStates_readable {options : RuntimeOptions} {disk : Disk} {ids : BootIdentities}
    {faults : List (Option AppendFault)} {r : PartitionRuntime} (incidents : List Incident)
    (hdurable : options.durable = true) (hfirst : construct options disk ids faults = (.ok (), r)) :
    EpochStatesReadable r ∧
      ((∀ m ∈ r.history incidents, m.MarksFit) →
        ∀ m ∈ r.history incidents, EpochStatesReadable m.after ∧
          ∀ s, m = .called s → InterruptsGrants s) ∧
      ∀ s, .called s ∈ r.history incidents → EpochStatesReadable s.before →
        addedEpochStates (.called s) ≠ [] →
        (EpochStatesReadable s.after ↔ (Moment.called s).MarksFit) := by
  have hr := construct_epochStates_readable hdurable hfirst
  -- a step is the call it names
  have hcall : ∀ s : Step, Happened (.called s) → (Moment.called s).MarksFit →
      EpochStatesReadable s.before → EpochStatesReadable s.after ∧ InterruptsGrants s := by
    rintro ⟨before, c, response, after⟩ hhappened hfit hbefore
    obtain ⟨rfl, rfl⟩ := Prod.mk.inj (show (response, after) = before.call c from hhappened)
    exact call_epochStates_readable hbefore hfit
  refine ⟨hr, fun h m hm => ?_, fun s hs hbefore hadded => ?_⟩
  · obtain ⟨hhappened, hbefore, hafter⟩ := history_invariant (P := EpochStatesReadable) hr
      (fun m hm hhappened hbefore => by
        rcases m with s | ⟨before, options, ids, faults, after⟩
        · exact (hcall s hhappened (h _ hm) hbefore).1
        · exact construct_epochStates_readable (h _ hm) hhappened) m hm
    refine ⟨hafter, ?_⟩
    rintro s rfl
    exact (hcall s hhappened (h _ hm) hbefore).2
  · obtain ⟨before, c, response, after⟩ := s
    obtain ⟨rfl, rfl⟩ :=
      Prod.mk.inj (show (response, after) = before.call c from mem_history hs)
    exact call_readable_iff hbefore hadded

/-- Two components nothing is known about, each a partition that may observe. -/
def twoObservers : List Incident :=
  [.call ⟨.adoptTopology (smallTopology 1 ["a", "b"]), []⟩, .call ⟨.assess, []⟩]

/-- A runtime whose decoder takes one mark, on a fresh disk. -/
def oneMarkRuntime : PartitionRuntime :=
  (construct { limits := { maxFenceRecords := 1 } } {} default).2

theorem oneMarkRuntime_started :
    construct { limits := { maxFenceRecords := 1 } } {} default = (.ok (), oneMarkRuntime) :=
  Prod.ext (by decide +kernel) rfl

/-- One granted partition is read back where one mark is taken. -/
theorem one_mark_readable :
    let history := oneMarkRuntime.history ((firstGrant []).map .call)
    EpochStatesReadable oneMarkRuntime ∧ ∀ m ∈ history, EpochStatesReadable m.after ∧
      ∀ s, m = .called s → InterruptsGrants s :=
  ⟨construct_epochStates_readable rfl oneMarkRuntime_started,
    (epochStates_readable _ rfl oneMarkRuntime_started).2.1 (by decide +kernel)⟩

set_option maxRecDepth 4000 in
/-- Two are not: the store cannot be started from any more. -/
theorem two_marks_unreadable :
    let history := oneMarkRuntime.history (twoObservers ++ [reopen oneMarkRuntime.options])
    history.length = 2 ∧ ∃ m ∈ history, ¬ EpochStatesReadable m.after := by
  intro history
  have hrun : history.length = 2 ∧ ∃ m ∈ history,
      ∃ record ∈ epochStates (Journal.records m.after.journal),
        decodeEpochState record.payload m.after.limits = none := by decide +kernel
  obtain ⟨hlength, m, hm, record, hrecord, hnone⟩ := hrun
  refine ⟨hlength, m, hm, fun hreadable => ?_⟩
  obtain ⟨state, hreads⟩ := hreadable record hrecord
  rw [hreads.decodes] at hnone
  cases hnone

end PartitionRuntime

end FabricPartition
