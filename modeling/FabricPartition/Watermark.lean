import FabricPartition.Drift
import FabricPartition.Durability

/-!
# The watermark of an assessment

An assessment ends with a commit of the epoch state: the counters, and a mark for each grant it is
about to publish.  A restart interrupts and fences exactly the grants it finds marked, so a grant
without its mark would survive a restart unnoticed.

`Survey` is what a completed assessment does, with the log of its commits.  The last entry of the log
is the epoch state the runtime is left with; the marks in it are those of the published partitions.
Whether that entry was acknowledged is not asked by the source: `commit_record` returns it, and
`assess_locked` drops it.  `watermarkPoint` is the runtime at that commit, and **the grants of an
assessment are durably marked whenever the store takes it there** (`grants_durably_marked`).
-/

set_option autoImplicit false

namespace FabricPartition

namespace PartitionRuntime

/-! ## Grants in increasing order -/

/-- The sequences of the grants among some partitions, in order. -/
def grantSequences (ps : List Partition) : List Nat :=
  (ps.filter Partition.granted).map fun p => p.authoritySequence.value.toNat

theorem grantSequences_cons_granted {p : Partition} (hp : p.granted = true) (ps : List Partition) :
    grantSequences (p :: ps) = p.authoritySequence.value.toNat :: grantSequences ps := by
  rw [grantSequences, List.filter_cons_of_pos hp]
  rfl

theorem grantSequences_cons_bare {p : Partition} (hp : p.granted = false) (ps : List Partition) :
    grantSequences (p :: ps) = grantSequences ps := by
  rw [grantSequences, List.filter_cons_of_neg (by simp [hp])]
  rfl

/-- The issuing loop numbers the grants strictly upwards. -/
theorem issueAuthority_increasing (r : PartitionRuntime) (pes : List (Partition × ClassEvaluation))
    (sequence : AuthoritySequence) (reasons : List Reason) :
    (grantSequences (r.issueAuthority pes sequence reasons).1).Pairwise (· < ·) ∧
      ∀ n ∈ grantSequences (r.issueAuthority pes sequence reasons).1,
        sequence.value.toNat < n := by
  induction pes generalizing sequence reasons with
  | nil => exact ⟨List.Pairwise.nil, fun n hn => nomatch hn⟩
  | cons pe rest ih =>
    obtain ⟨p, e⟩ := pe
    rw [issueAuthority]
    dsimp only
    split
    · rename_i hempty
      rw [grantSequences_cons_bare (by simp [Partition.granted, hempty])]
      exact ih sequence reasons
    · rename_i hsome
      cases hnext : sequence.next with
      | none =>
        dsimp only
        rw [grantSequences_cons_bare (by
          simp [Partition.granted, CapabilitySet.none, CapabilitySet.empty])]
        exact ih sequence _
      | some next =>
        dsimp only
        rw [grantSequences_cons_granted (by simpa [Partition.granted] using hsome)]
        obtain ⟨hincreasing, habove⟩ := ih next reasons
        have hlt := Counter.next_toNat hnext
        refine ⟨List.Pairwise.cons habove hincreasing, ?_⟩
        intro n hn
        rcases List.mem_cons.mp hn with rfl | hn
        · show sequence.value.toNat < next.value.toNat
          omega
        · have := habove n hn
          omega

theorem evaluateAuthority_increasing (r : PartitionRuntime) (ps : List Partition)
    (allowRestore : Bool) :
    (grantSequences (r.evaluateAuthority ps allowRestore).partitions).Pairwise (· < ·) := by
  obtain ⟨reasons, hps, -⟩ := r.evaluateAuthority_eq ps allowRestore
  rw [hps]
  exact (r.issueAuthority_increasing _ _ _).1

/-! ## What a completed assessment does -/

/-- A completed assessment, with the log of its commits up to the epoch state. -/
structure Survey (r : PartitionRuntime) (log : List Entry) (outcome : PartitionAssessment)
    (r' : PartitionRuntime) : Prop where
  options : r'.options = r.options
  closed : r'.closed = r.closed
  roster : r'.RosterSound
  epoch : r'.state.epoch = r.state.epoch
  boot : r'.state.boot = r.state.boot
  fences : r'.fences = r.fences
  fenceSequence : r'.state.fenceSequence = r.state.fenceSequence
  next : r.state.partitionGeneration.next = some r'.state.partitionGeneration
  generation : outcome.generation = r'.state.partitionGeneration
  authority : r.state.authoritySequence.value.toNat ≤ r'.state.authoritySequence.value.toNat
  increasing : (grantSequences outcome.partitions).Pairwise (· < ·)
  above : ∀ n ∈ grantSequences outcome.partitions,
    r.state.authoritySequence.value.toNat < n ∧ n ≤ r'.state.authoritySequence.value.toNat
  partitions : r'.partitions = outcome.partitions
  marks : r'.state.liveGrants = grantMarks outcome.partitions
  journal : r'.journal
    = commitAll (log ++ [(.epochState, encodeEpochState r'.state)]) r.journal
  unmarked : ∀ entry ∈ log, entry.1 ≠ .epochState
  unfenced : fenceEntries log = []

/-- Changing lifecycles and reasons leaves the grants as they are. -/
theorem grantSequences_redressed {ps qs : List Partition}
    (h : List.Forall₂ (fun p q => ∃ lifecycle reasons,
      q = { p with lifecycle := lifecycle, reasons := reasons }) ps qs) :
    grantSequences qs = grantSequences ps := by
  induction h with
  | nil => rfl
  | @cons p q ps qs hpq _ ih =>
    obtain ⟨lifecycle, reasons, rfl⟩ := hpq
    by_cases hp : p.granted = true
    · rw [grantSequences_cons_granted hp, grantSequences_cons_granted (by exact hp), ih]
    · have hbare : p.granted = false := by simpa using hp
      rw [grantSequences_cons_bare hbare, grantSequences_cons_bare (by exact hbare), ih]

/-- The commit of the epoch state is asked for whether there is a store or not. -/
theorem publishAssessment_journal (decision : Decision) (evaluation : AuthorityEvaluation)
    (ps : List Partition) (r : PartitionRuntime) :
    (publishAssessment decision evaluation ps r).2.journal
        = commitAll [(.epochState, encodeEpochState { r.state with liveGrants := grantMarks ps })]
          r.journal ∧
      (publishAssessment decision evaluation ps r).2.state
        = { r.state with liveGrants := grantMarks ps } := by
  rw [publishAssessment]
  dsimp only
  split
  · exact ⟨rfl, rfl⟩
  · rename_i hstore
    refine ⟨?_, rfl⟩
    have hnone : r.store = none := by simpa using hstore
    show (r.store, r.durableSequence) = (commitJournal _ _ (r.store, r.durableSequence)).2
    rw [hnone]
    rfl

theorem buildReachabilitySnapshot_valid {roster : ComponentRoster} (hset : roster.set = true)
    (evidence : List ReachabilityEvidence) (policy : Option PartitionPolicy) (tick : UInt64)
    (limits : Limits) :
    (buildReachabilitySnapshot roster evidence policy tick limits).valid = true := by
  rw [buildReachabilitySnapshot, if_neg (by simp [hset])]
  dsimp only
  split <;> rfl

/-- **What a completed assessment does**, on a runtime whose adopted roster is one. -/
theorem Surveyed.survey {allowRestore : Bool} {generation : PartitionGeneration}
    {r r' : PartitionRuntime} {outcome : PartitionAssessment}
    (h : Surveyed allowRestore generation r r' outcome) (hroster : r.rosterSet = true)
    (hsound : r.RosterSound) (hnext : r.state.partitionGeneration.next = some generation) :
    ∃ log, Survey r log outcome r' := by
  have hvalid : (beginAssessment generation r).snapshot.valid = true :=
    buildReachabilitySnapshot_valid (hsound hroster) _ _ _ _
  have hlow := ((beginAssessment generation r).evaluateAuthority_sequence
    (buildPartitions (beginAssessment generation r).snapshot
      (beginAssessment generation r).state.partitionGeneration
      (beginAssessment generation r).lineage (beginAssessment generation r).limits) allowRestore).1
  have hincreasing := (beginAssessment generation r).evaluateAuthority_increasing
    (buildPartitions (beginAssessment generation r).snapshot
      (beginAssessment generation r).state.partitionGeneration
      (beginAssessment generation r).lineage (beginAssessment generation r).limits) allowRestore
  have hsequenced : ∀ q ∈ outcome.partitions,
      Sequenced r.state.authoritySequence r'.state.authoritySequence q := fun q hq => h.sequenced hq
  have habove : ∀ n ∈ grantSequences outcome.partitions,
      r.state.authoritySequence.value.toNat < n ∧ n ≤ r'.state.authoritySequence.value.toNat := by
    intro n hn
    obtain ⟨q, hq, rfl⟩ := List.mem_map.mp hn
    obtain ⟨hq, hgranted⟩ := List.mem_filter.mp hq
    have := hsequenced q hq
    rwa [Sequenced, if_pos hgranted] at this
  obtain ⟨decision, s, t, ps, hq, hcommit, ⟨-, hpub⟩ | ⟨hinvalid, -⟩⟩ := h
  · obtain ⟨hall, hchron⟩ := commitLineages_cases hcommit
    obtain ⟨_, _, _, _, _, hjq, rfl⟩ := hq
    obtain ⟨lineage, lineageSequence, j, hjl, -, rfl⟩ := hchron
    obtain ⟨logq, htypesq, hjq⟩ := hjq.exists_log
    obtain ⟨logl, htypesl, hjl⟩ := hjl.exists_log
    obtain ⟨hjournal, hstate⟩ := publishAssessment_journal decision
      (PartitionRuntime.planned allowRestore generation r) ps _
    rw [← hpub] at hjournal hstate
    obtain ⟨rfl, hgen, j', -, rfl⟩ := publishAssessment_cases hpub
    refine ⟨logq ++ logl, rfl, rfl, hsound, rfl, rfl, rfl, rfl, hnext, hgen, hlow, ?_, habove, rfl,
      rfl, ?_, ?_, ?_⟩
    · rw [grantSequences_redressed hall]
      exact hincreasing
    · rw [commitAll_append, commitAll_append, hjournal]
      refine congrArg (commitAll _) ?_
      show j = _
      rw [hjl]
      refine congrArg (commitAll logl) ?_
      exact hjq
    · intro entry hentry
      rcases List.mem_append.mp hentry with hentry | hentry
      · rw [show entry.1 = .decisionRecord from htypesq entry hentry]
        decide
      · rw [show entry.1 = .lineageRecord from htypesl entry hentry]
        decide
    · rw [fenceEntries_append, fenceEntries_of_type (by decide) htypesq,
        fenceEntries_of_type (by decide) htypesl]
      rfl
  · rw [hvalid] at hinvalid
    cases hinvalid

/-! ## The commit the source does not look at -/

/-- The runtime in which `assess_locked` commits the epoch state, if it gets there. -/
def watermarkPoint (allowRestore : Bool) (r : PartitionRuntime) : Option PartitionRuntime :=
  if r.closed || !r.rosterSet then none
  else
    match r.state.partitionGeneration.next with
    | none => none
    | some generation =>
      let b := beginAssessment generation r
      if !b.snapshot.valid then none
      else
        let evaluation := planned allowRestore generation r
        match finalizeDecision (b.assessmentDecision evaluation) (begun allowRestore generation r) with
        | (.error _, _) => none
        | (.ok decision, s) =>
          let outcome := commitLineages decision.id evaluation.partitions s
          some { outcome.2 with
            state := { outcome.2.state with liveGrants := grantMarks outcome.1 } }

/-- The store takes the epoch state of a runtime: it is open, the record fits, the sequence is above
every one before it, and the write meets no fault. -/
def TakesWatermark (r : PartitionRuntime) : Prop :=
  ∃ store next, r.store = some store ∧ checkedAdd r.durableSequence 1 = some next ∧
    store.Accepts ⟨.epochState, next, encodeEpochState r.state⟩ ∧ store.faults.head?.join = none

instance (r : PartitionRuntime) : Decidable r.TakesWatermark :=
  decidable_of_iff
    (∃ store ∈ r.store, ∃ next ∈ checkedAdd r.durableSequence 1,
      store.Accepts ⟨.epochState, next, encodeEpochState r.state⟩ ∧
        store.faults.head?.join = none)
    ⟨fun ⟨store, hstore, next, hnext, h⟩ => ⟨store, next, hstore, hnext, h⟩,
      fun ⟨store, next, hstore, hnext, h⟩ => ⟨store, hstore, next, hnext, h⟩⟩

/-- A returned assessment has no partitions, or it published what it committed at its watermark. -/
theorem assessLocked_watermark {allowRestore : Bool} {r r' : PartitionRuntime}
    {outcome : PartitionAssessment} (h : assessLocked allowRestore r = (.ok outcome, r')) :
    outcome.partitions = [] ∨
      ∃ w, watermarkPoint allowRestore r = some w ∧
        w.state.liveGrants = grantMarks outcome.partitions ∧
        r'.journal = (commitJournal .epochState (encodeEpochState w.state) w.journal).2 := by
  have hrefuse : ∀ {code subject detail clear},
      refuseAssessment code subject detail clear r = (.ok outcome, r') → outcome.partitions = [] := by
    intro code subject detail clear hr
    rw [refuseAssessment, Act.read_bind] at hr
    obtain ⟨d, s, -, hs⟩ := Act.bind_ok.mp hr
    cases hs
    rfl
  rw [assessLocked, Act.read_bind] at h
  rw [watermarkPoint]
  cases hclosed : r.closed with
  | true =>
    rw [hclosed, if_pos rfl] at h
    exact .inl (hrefuse h)
  | false =>
    rw [hclosed, if_neg (by simp)] at h
    cases hroster : r.rosterSet with
    | false =>
      rw [hroster, if_pos (by simp)] at h
      exact .inl (hrefuse h)
    | true =>
      rw [hroster, if_neg (by simp)] at h
      rw [if_neg (by simp)]
      cases hnext : r.state.partitionGeneration.next with
      | none =>
        rw [hnext] at h
        cases h
      | some generation =>
        simp only [hnext] at h
        dsimp only
        rw [Act.modify_bind, assessGeneration, Act.read_bind] at h
        cases hvalid : (beginAssessment generation r).snapshot.valid with
        | false =>
          simp only [hvalid, Bool.not_false, if_true] at h
          obtain ⟨d, s, -, hs⟩ := Act.bind_ok.mp h
          cases hs
          exact .inl rfl
        | true =>
          simp only [hvalid, Bool.not_true, Bool.false_eq_true, if_false] at h ⊢
          rw [Act.modify_bind] at h
          obtain ⟨d, s, hd, hs⟩ := Act.bind_ok.mp h
          have hd' : finalizeDecision ((beginAssessment generation r).assessmentDecision
              (planned allowRestore generation r)) (begun allowRestore generation r) = (.ok d, s) := hd
          rw [hd']
          have hs' : (Act.total (commitLineages d.id (planned allowRestore generation r).partitions)
              >>= fun built => Act.total (publishAssessment d (planned allowRestore generation r)
                built)) s = (.ok outcome, r') := hs
          rw [Act.total_bind, Act.total_apply] at hs'
          dsimp only
          generalize commitLineages d.id (planned allowRestore generation r).partitions s = built
            at hs' ⊢
          rw [Prod.mk.injEq, Except.ok.injEq] at hs'
          obtain ⟨houtcome, hr'⟩ := hs'
          obtain ⟨hjournal, -⟩ :=
            publishAssessment_journal d (planned allowRestore generation r) built.1 built.2
          refine .inr ⟨_, rfl, ?_, ?_⟩
          · rw [← houtcome, publishAssessment]
          · rw [← hr', hjournal]
            rfl

/-! ## Durable marks -/

/-- The records the store of a journal has acknowledged. -/
def Journal.records (j : Journal) : List DurableRecord := (j.1.map DurableStore.records).getD []

/-- The journal has acknowledged an epoch state with a mark. -/
def Journal.Marks (j : Journal) (mark : AuthorityGrantMark) : Prop :=
  ∃ record ∈ Journal.records j, record.type = .epochState ∧
    ∃ state : EpochState, record.payload = encodeEpochState state ∧ mark ∈ state.liveGrants

/-- A commit adds its record to what is acknowledged, or nothing. -/
theorem records_commitJournal (type : DurableRecordType) (payload : Bytes) (j : Journal) :
    Journal.records (commitJournal type payload j).2 = Journal.records j ∨
      ∃ sequence, Journal.records (commitJournal type payload j).2
        = Journal.records j ++ [⟨type, sequence, payload⟩] := by
  obtain ⟨_ | store, sequence⟩ := j
  · exact .inl rfl
  · rw [commitJournal]
    -- the sum is opaque from here on: unfolded, its 64-bit bound is counted down
    generalize checkedAdd sequence 1 = sum
    rcases sum with _ | next
    · exact .inl rfl
    · rcases store.append_cases ⟨type, next, payload⟩ with
        ⟨-, happend⟩ | ⟨-, ⟨fault, -, happend⟩ | ⟨-, happend⟩⟩
      · dsimp only at happend ⊢
        rw [happend]
        exact .inl rfl
      · dsimp only at happend ⊢
        rw [happend]
        exact .inl rfl
      · dsimp only at happend ⊢
        rw [happend]
        exact .inr ⟨next, rfl⟩

/-- Commits of allowed records add records of allowed types to what is acknowledged. -/
theorem Journaled.records {allowed : DurableRecordType → Bytes → Prop} {j k : Journal}
    (h : Journaled allowed j k) :
    ∃ added, Journal.records k = Journal.records j ++ added ∧
      ∀ record ∈ added, allowed record.type record.payload := by
  induction h with
  | refl => exact ⟨[], (List.append_nil _).symm, fun _ h => nomatch h⟩
  | @commit k type payload _ ha ih =>
    obtain ⟨added, hadded, hall⟩ := ih
    rcases records_commitJournal type payload k with heq | ⟨sequence, heq⟩
    · exact ⟨added, heq.trans hadded, hall⟩
    · refine ⟨added ++ [⟨type, sequence, payload⟩], ?_, fun record hrecord => ?_⟩
      · rw [heq, hadded, List.append_assoc]
      · rcases List.mem_append.mp hrecord with hrecord | hrecord
        · exact hall record hrecord
        · obtain rfl := List.mem_singleton.mp hrecord
          exact ha

/-- A commit that is acknowledged adds its record. -/
theorem commitJournal_acknowledged {store : DurableStore} {sequence : UInt64}
    {type : DurableRecordType} {payload : Bytes} {k : Journal}
    (h : commitJournal type payload (some store, sequence) = (true, k)) :
    ∃ next, Journal.records k = store.records ++ [⟨type, next, payload⟩] := by
  rw [commitJournal] at h
  -- the sum is opaque from here on: unfolded, its 64-bit bound is counted down
  generalize checkedAdd sequence 1 = sum at h
  rcases sum with _ | next
  · cases h
  · rcases store.append_cases ⟨type, next, payload⟩ with
      ⟨-, happend⟩ | ⟨-, ⟨fault, -, happend⟩ | ⟨-, happend⟩⟩
    · dsimp only at happend h
      rw [happend] at h
      cases h
    · dsimp only at happend h
      rw [happend] at h
      cases h
    · dsimp only at happend h
      rw [happend] at h
      cases h
      exact ⟨next, rfl⟩

theorem records_subset_commitAll (log : List Entry) (j : Journal) :
    Journal.records j ⊆ Journal.records (commitAll log j) := by
  induction log generalizing j with
  | nil => exact List.Subset.refl _
  | cons entry log ih =>
    refine List.Subset.trans ?_ (ih (commitJournal entry.1 entry.2 j).2)
    rcases records_commitJournal entry.1 entry.2 j with h | ⟨sequence, h⟩
    · rw [h]
      exact List.Subset.refl _
    · rw [h]
      exact List.subset_append_left _ _

theorem Journal.Marks.mono {j k : Journal} {mark : AuthorityGrantMark} (h : Journal.Marks j mark)
    (hsub : Journal.records j ⊆ Journal.records k) : Journal.Marks k mark := by
  obtain ⟨record, hrecord, hmarks⟩ := h
  exact ⟨record, hsub hrecord, hmarks⟩

/-- Every grant the runtime holds has its durable mark. -/
def MarkedGrants (r : PartitionRuntime) : Prop :=
  ∀ p ∈ r.partitions, p.granted = true → Journal.Marks r.journal p.mark

theorem Drifts.markedGrants {r r' : PartitionRuntime} (h : Drifts r r') (hr : r.MarkedGrants) :
    r'.MarkedGrants := by
  obtain ⟨log, added, h⟩ := h
  intro p hp hgranted
  obtain ⟨q, hq, hmark, hsame⟩ := h.partitions p hp
  rw [← hmark, h.journal]
  exact (hr q hq (hsame.trans hgranted)).mono (records_subset_commitAll log _)

theorem Quiet.markedGrants {r r' : PartitionRuntime} (h : Quiet r r') (hr : r.MarkedGrants) :
    r'.MarkedGrants := by
  obtain ⟨_, _, _, _, j, hj, rfl⟩ := h
  obtain ⟨log, -, hlog⟩ := hj.exists_log
  intro p hp hgranted
  refine (hr p hp hgranted).mono ?_
  show Journal.records r.journal ⊆ Journal.records j
  rw [hlog]
  exact records_subset_commitAll log _

theorem mem_grantMarks {ps : List Partition} {p : Partition} (hp : p ∈ ps)
    (hgranted : p.granted = true) : p.mark ∈ grantMarks ps :=
  List.mem_map.mpr ⟨p, List.mem_filter.mpr ⟨hp, hgranted⟩, rfl⟩

/-- A commit the store takes. -/
theorem commitJournal_taken {store : DurableStore} {sequence next : UInt64}
    {type : DurableRecordType} {payload : Bytes} (hnext : checkedAdd sequence 1 = some next)
    (haccepts : store.Accepts ⟨type, next, payload⟩) (hfault : store.faults.head?.join = none) :
    commitJournal type payload (some store, sequence)
      = (true, (some (store.appended ⟨type, next, payload⟩), next)) := by
  rw [commitJournal]
  generalize checkedAdd sequence 1 = sum at hnext ⊢
  subst hnext
  rcases store.append_cases ⟨type, next, payload⟩ with
    ⟨hrefused, -⟩ | ⟨-, ⟨fault, hsome, -⟩ | ⟨-, happend⟩⟩
  · exact absurd haccepts hrefused
  · rw [hfault] at hsome
    cases hsome
  · dsimp only at happend ⊢
    rw [happend]

/-- A watermark the store takes is acknowledged. -/
theorem TakesWatermark.marks {w : PartitionRuntime} (h : w.TakesWatermark)
    {mark : AuthorityGrantMark} (hmark : mark ∈ w.state.liveGrants) :
    Journal.Marks (commitJournal .epochState (encodeEpochState w.state) w.journal).2 mark := by
  obtain ⟨store, next, hstore, hnext, haccepts, hfault⟩ := h
  refine ⟨⟨.epochState, next, encodeEpochState w.state⟩, ?_, rfl, w.state, rfl, hmark⟩
  rw [show w.journal = (some store, w.durableSequence) by rw [journal, hstore],
    commitJournal_taken hnext haccepts hfault]
  exact List.mem_append_right _ (List.mem_singleton_self _)

/-- An assessment keeps every grant marked, as long as the store takes the marks it commits. -/
theorem assessLocked_markedGrants {allowRestore : Bool} {r r' : PartitionRuntime}
    {res : Except PartitionError PartitionAssessment} (h : assessLocked allowRestore r = (res, r'))
    (hr : r.MarkedGrants)
    (htakes : ∀ w, watermarkPoint allowRestore r = some w → w.state.liveGrants ≠ [] →
      w.TakesWatermark) :
    r'.MarkedGrants := by
  rcases assessLocked_cases h with ⟨-, s, assessment, hq, rfl, -⟩ | ⟨-, rfl⟩ |
    ⟨generation, -, -, -, ⟨-, hq⟩ | ⟨outcome, rfl, hs⟩⟩
  · exact hq.markedGrants hr
  · exact hr
  · exact hq.markedGrants hr
  · obtain ⟨-, -, _, _, _, _, _, _, _, _, _, -, hr'⟩ := hs.cases
    have hpartitions : r'.partitions = outcome.partitions := by rw [hr']
    intro p hp hgranted
    rw [hpartitions] at hp
    rcases assessLocked_watermark h with hnil | ⟨w, hw, hmarks, hjournal⟩
    · rw [hnil] at hp
      cases hp
    · have hmark : p.mark ∈ w.state.liveGrants := by
        rw [hmarks]
        exact mem_grantMarks hp hgranted
      rw [hjournal]
      exact (htakes w hw (List.ne_nil_of_mem hmark)).marks hmark

/-- Wherever an operation commits marks, the store takes them. -/
def MeetsWatermark (r : PartitionRuntime) (operation : Operation) : Prop :=
  ∀ allowRestore a w, r.assessing operation = some (allowRestore, a) →
    watermarkPoint allowRestore a = some w → w.state.liveGrants ≠ [] → w.TakesWatermark

instance (r : PartitionRuntime) (operation : Operation) : Decidable (r.MeetsWatermark operation) :=
  decidable_of_iff
    (∀ handed ∈ r.assessing operation, ∀ w ∈ watermarkPoint handed.1 handed.2,
      w.state.liveGrants ≠ [] → w.TakesWatermark)
    ⟨fun h allowRestore a w ha hw => h (allowRestore, a) ha w hw,
      fun h handed ha w hw => h handed.1 handed.2 w ha hw⟩

/-- Closing acknowledges nothing and forgets nothing. -/
theorem close_records (r : PartitionRuntime) :
    Journal.records r.close.journal = Journal.records r.journal := by
  have hcompact : ∀ store : DurableStore, store.compact.2.records = store.records := by
    intro store
    rw [DurableStore.compact]
    dsimp only
    split
    · rfl
    · split <;> rfl
  rw [close]
  split
  · rfl
  · cases hstore : r.store with
    | none =>
      simp only [Journal.records, journal, hstore]
      rfl
    | some store =>
      simp only [Journal.records, journal, hstore, Option.map_some, Option.getD_some]
      split
      · exact hcompact store
      · rfl

theorem withFaults_records (r : PartitionRuntime) (faults : List (Option AppendFault)) :
    Journal.records (r.withFaults faults).journal = Journal.records r.journal := by
  cases hstore : r.store with
  | none => simp only [Journal.records, journal, withFaults, hstore, Option.map_none]
  | some store => simp only [Journal.records, journal, withFaults, hstore, Option.map_some]

/-- **One operation** keeps every grant marked. -/
theorem perform_markedGrants {r : PartitionRuntime} {operation : Operation} (hr : r.MarkedGrants)
    (hmeets : r.MeetsWatermark operation) : (r.perform operation).2.MarkedGrants := by
  by_cases hclose : operation = .close
  · subst hclose
    intro p hp hgranted
    have hp' : p ∈ r.partitions := by
      have hsame : r.close.partitions = r.partitions := by
        rw [close]
        split <;> rfl
      rwa [show (r.perform .close).2.partitions = r.partitions from hsame] at hp
    refine (hr p hp' hgranted).mono ?_
    rw [show (r.perform .close).2.journal = r.close.journal from rfl, close_records]
    exact List.Subset.refl _
  · have hphases := perform_phases r hclose
    rw [Phases] at hphases
    cases hassessing : r.assessing operation with
    | none =>
      rw [hassessing] at hphases
      exact hphases.markedGrants hr
    | some handed =>
      obtain ⟨allowRestore, a⟩ := handed
      rw [hassessing] at hphases
      refine hphases.2.markedGrants (assessLocked_markedGrants rfl (hphases.1.markedGrants hr) ?_)
      exact fun w hw hlive => hmeets allowRestore a w hassessing hw hlive

theorem withFaults_markedGrants {r : PartitionRuntime} (hr : r.MarkedGrants)
    (faults : List (Option AppendFault)) : (r.withFaults faults).MarkedGrants := by
  intro p hp hgranted
  refine (hr p hp hgranted).mono ?_
  rw [withFaults_records]
  exact List.Subset.refl _

/-- What `assess` returns is what it installs. -/
theorem assess_partitions {r : PartitionRuntime} {faults : List (Option AppendFault)}
    {outcome : PartitionAssessment} (h : (r.call ⟨.assess, faults⟩).1 = .assessment outcome) :
    outcome.partitions = [] ∨ (r.call ⟨.assess, faults⟩).2.partitions = outcome.partitions := by
  have hok : assessLocked false (r.withFaults faults)
      = (.ok outcome, (r.call ⟨.assess, faults⟩).2) :=
    respond_ok (fun _ _ h => by cases h; rfl) (fun _ _ h => by cases h) h
  rcases assessLocked_cases hok with ⟨-, s, assessment, -, -, -, ⟨a, ha, hnil⟩ | herr⟩ | ⟨herr, -⟩ |
    ⟨generation, -, -, -, ⟨herr, -⟩ | ⟨outcome', houtcome, hs⟩⟩
  · cases ha
    exact .inl hnil
  · cases herr
  · cases herr
  · cases herr
  · cases houtcome
    obtain ⟨-, -, _, _, _, _, _, _, _, _, _, -, hr'⟩ := hs.cases
    exact .inr (by rw [hr'])

/-- **No grant without its durable mark.**  In every run in which the store takes the epoch state of
each assessment that commits marks, every grant the runtime holds after a step has its mark in an
acknowledged epoch state, and so has every grant of an assessment that is returned. -/
theorem grants_durably_marked {options : RuntimeOptions} {disk : Disk} {ids : BootIdentities}
    {faults : List (Option AppendFault)} {r : PartitionRuntime}
    (hstart : construct options disk ids faults = (.ok (), r)) {cs : List Call}
    (hmeets : ∀ s ∈ r.trace cs,
      (s.before.withFaults s.call.faults).MeetsWatermark s.call.operation) :
    ∀ s ∈ r.trace cs, s.after.MarkedGrants ∧
      ∀ outcome, s.call.operation = .assess → s.response = .assessment outcome →
        ∀ p ∈ outcome.partitions, p.granted = true → Journal.Marks s.after.journal p.mark := by
  have hinit : r.MarkedGrants := by
    have hbooted := construct_booted options disk ids faults
    rw [hstart] at hbooted
    intro p hp
    rw [hbooted.partitions] at hp
    cases hp
  have hstep : ∀ s ∈ r.trace cs, s.before.MarkedGrants → s.after.MarkedGrants := by
    intro s hs hbefore
    rw [show s.after = (s.before.call s.call).2 from congrArg Prod.snd (mem_trace hs)]
    exact perform_markedGrants (withFaults_markedGrants hbefore _) (hmeets s hs)
  have hbefore : ∀ s ∈ r.trace cs, s.before.MarkedGrants := by
    intro s hs
    obtain ⟨ds, es, rfl, hbefore⟩ := exists_before_of_mem_trace hs
    rw [hbefore]
    refine runs_invariant hinit fun s' hs' => hstep s' ?_
    rw [trace_append]
    exact List.mem_append_left _ hs'
  intro s hs
  have hmarked := hstep s hs (hbefore s hs)
  refine ⟨hmarked, fun outcome hop hresponse p hp hgranted => ?_⟩
  have hcall := mem_trace hs
  obtain ⟨before, ⟨operation, fs⟩, response, after⟩ := s
  obtain rfl : operation = .assess := hop
  rw [show after = (before.call ⟨.assess, fs⟩).2 from congrArg Prod.snd hcall] at hmarked ⊢
  have hreturned : (before.call ⟨.assess, fs⟩).1 = .assessment outcome :=
    (congrArg Prod.fst hcall).symm.trans hresponse
  rcases assess_partitions hreturned with hnil | hsame
  · rw [hnil] at hp
    cases hp
  · exact hmarked p (hsame ▸ hp) hgranted

/-- A runtime on a fresh disk. -/
def durableRuntime : PartitionRuntime := (construct {} {} default).2

theorem durableRuntime_started : construct {} {} default = (.ok (), durableRuntime) :=
  Prod.ext (by decide +kernel) rfl

/-- One component is granted authority, by an assessment with some faults. -/
def firstGrant (faults : List (Option AppendFault)) : List Call :=
  [⟨.adoptTopology (smallTopology 1 ["a"]), []⟩, ⟨.assess, faults⟩]

theorem first_grant_durably_marked :
    (∃ p ∈ (durableRuntime.after (firstGrant [])).partitions, p.granted = true) ∧
      ∀ s ∈ durableRuntime.trace (firstGrant []), s.after.MarkedGrants ∧
        ∀ outcome, s.call.operation = .assess → s.response = .assessment outcome →
          ∀ p ∈ outcome.partitions, p.granted = true → Journal.Marks s.after.journal p.mark :=
  ⟨by decide +kernel, grants_durably_marked durableRuntime_started (by decide +kernel)⟩

/-- The length of an encoded epoch state: 108 bytes, and its marks. -/
theorem length_encodeEpochState (state : EpochState) :
    (encodeEpochState state).length = 108 + (state.liveGrants.flatMap encodeMark).length := by
  have hboot : (Write.binaryId state.boot).length = 16 := state.boot.size
  have hincarnation : (Write.binaryId state.incarnation).length = 16 := state.incarnation.size
  simp only [encodeEpochState, List.length_append, hboot, hincarnation, Write.counted,
    Write.counter, Write.u64, Write.count, Write.u32, be64_length, be32_length]
  omega

/-- A journal whose epoch states have no room for a mark has none. -/
theorem Journal.not_marks {j : Journal}
    (h : ∀ record ∈ Journal.records j, record.type = .epochState → record.payload.length = 108)
    (mark : AuthorityGrantMark) : ¬ Journal.Marks j mark := by
  rintro ⟨record, hrecord, htype, state, hpayload, hmark⟩
  have hlength := h record hrecord htype
  obtain ⟨front, back, hgrants⟩ := List.append_of_mem hmark
  rw [hpayload, length_encodeEpochState, hgrants] at hlength
  simp only [List.flatMap_append, List.flatMap_cons, List.length_append, encodeMark, Write.counter,
    Write.u64, be64_length] at hlength
  omega

/-- The partitions of a returned assessment. -/
def returned : Response → List Partition
  | .assessment outcome => outcome.partitions
  | _ => []

/-- The write of the epoch state fails, and the grant is returned without its mark. -/
theorem unmarked_grant_returned :
    ∃ s ∈ durableRuntime.trace (firstGrant [none, some (.short 0)]),
      ∃ p ∈ returned s.response, p.granted = true ∧ ¬ Journal.Marks s.after.journal p.mark := by
  have hrun : ∃ s ∈ durableRuntime.trace (firstGrant [none, some (.short 0)]),
      (∃ p ∈ returned s.response, p.granted = true) ∧
        ∀ record ∈ Journal.records s.after.journal,
          record.type = .epochState → record.payload.length = 108 := by
    decide +kernel
  obtain ⟨s, hs, ⟨p, hp, hgranted⟩, hshort⟩ := hrun
  exact ⟨s, hs, p, hp, hgranted, Journal.not_marks hshort _⟩

end PartitionRuntime

end FabricPartition
