import FabricPartition.Codecs
import FabricPartition.Watermark

/-!
# What a start makes of a store

The constructor on a durable store, taken apart.  A construction that completes has loaded the store,
restored every record, fenced what the restored epoch state calls live, entered a new epoch and
committed it; one that throws has committed fences at most (`start_cases`).

What is restored is a function of the records, one after another; `Restores` says what one record does
to the runtime, and everything that is restored follows by induction over the records.
-/

set_option autoImplicit false

namespace FabricPartition

/-- The interruptions a restart makes of the marks of an epoch state. -/
def EpochState.interruptions (state : EpochState) : List InterruptedAuthority :=
  state.liveGrants.map fun mark =>
    ⟨mark.partition, mark.lineage, mark.authoritySequence, state.epoch, state.boot, state.tick⟩

namespace PartitionRuntime

/-! ## One record -/

/-- What a record that could be restored does to the runtime. -/
inductive Restores (record : DurableRecord) (r : PartitionRuntime) : PartitionRuntime → Prop
  | epochState {state : EpochState} (htype : record.type = .epochState)
      (hdecode : decodeEpochState record.payload r.limits = some state) :
      Restores record r (restoreEpochState state r)
  | policyDefinition {policy : PartitionPolicy} (htype : record.type = .policyDefinition)
      (hdecode : decodePolicy record.payload r.limits = some policy) :
      Restores record r (restorePolicy policy r)
  | topologyDefinition {definition : TopologyDefinition} {roster : ComponentRoster}
      (htype : record.type = .topologyDefinition)
      (hdecode : decodeTopology record.payload r.limits = some definition)
      (hcreate : ComponentRoster.create definition r.limits = some roster) :
      Restores record r (restoreTopology definition roster r)
  | lineageRecord {entry : LineageRecord} {lineage : LineageStore}
      (htype : record.type = .lineageRecord)
      (hdecode : decodeLineage record.payload r.limits = some entry)
      (happend : r.lineage.append entry = some lineage) :
      Restores record r { r with lineage := lineage }
  | decisionRecord {decision : Decision} (htype : record.type = .decisionRecord)
      (hdecode : decodeDecision record.payload r.limits = some decision) :
      Restores record r { r with decisions := r.decisions.append decision }
  | fenceRecord {fence : FenceRecord} (htype : record.type = .fenceRecord)
      (hdecode : decodeFence record.payload = some fence) :
      Restores record r (restoreFence fence r)

theorem restoreRecord_cases {record : DurableRecord} {r r' : PartitionRuntime}
    {res : Except PartitionError Unit} (h : restoreRecord record r = (res, r')) :
    (res = .ok () ∧ Restores record r r') ∨ (∃ e, res = .error e) ∧ r' = r := by
  rw [restoreRecord, Act.read_bind] at h
  rcases htype : record.type <;> simp only [htype] at h
  · rcases hdecode : decodeEpochState record.payload r.limits with _ | state <;>
      simp only [hdecode] at h <;> cases h
    · exact .inr ⟨⟨_, rfl⟩, rfl⟩
    · exact .inl ⟨rfl, .epochState htype hdecode⟩
  · rcases hdecode : decodePolicy record.payload r.limits with _ | policy <;>
      simp only [hdecode] at h <;> cases h
    · exact .inr ⟨⟨_, rfl⟩, rfl⟩
    · exact .inl ⟨rfl, .policyDefinition htype hdecode⟩
  · rcases hdecode : decodeTopology record.payload r.limits with _ | definition <;>
      simp only [hdecode] at h
    · cases h
      exact .inr ⟨⟨_, rfl⟩, rfl⟩
    · rcases hcreate : ComponentRoster.create definition r.limits with _ | roster <;>
        simp only [hcreate] at h <;> cases h
      · exact .inr ⟨⟨_, rfl⟩, rfl⟩
      · exact .inl ⟨rfl, .topologyDefinition htype hdecode hcreate⟩
  · rcases hdecode : decodeLineage record.payload r.limits with _ | entry <;>
      simp only [hdecode] at h
    · cases h
      exact .inr ⟨⟨_, rfl⟩, rfl⟩
    · rcases happend : r.lineage.append entry with _ | lineage <;>
        simp only [happend] at h <;> cases h
      · exact .inr ⟨⟨_, rfl⟩, rfl⟩
      · exact .inl ⟨rfl, .lineageRecord htype hdecode happend⟩
  · rcases hdecode : decodeDecision record.payload r.limits with _ | decision <;>
      simp only [hdecode] at h <;> cases h
    · exact .inr ⟨⟨_, rfl⟩, rfl⟩
    · exact .inl ⟨rfl, .decisionRecord htype hdecode⟩
  · rcases hdecode : decodeFence record.payload with _ | fence <;>
      simp only [hdecode] at h <;> cases h
    · exact .inr ⟨⟨_, rfl⟩, rfl⟩
    · exact .inl ⟨rfl, .fenceRecord htype hdecode⟩

/-! ## The records, one after another -/

/-- All records were restored, in order. -/
inductive Restored : List DurableRecord → PartitionRuntime → PartitionRuntime → Prop
  | nil (r : PartitionRuntime) : Restored [] r r
  | cons {record : DurableRecord} {records : List DurableRecord} {r s t : PartitionRuntime}
      (h : Restores record r s) (rest : Restored records s t) : Restored (record :: records) r t

theorem restoreRecords_cons (record : DurableRecord) (records : List DurableRecord) :
    restoreRecords (record :: records) = restoreRecord record >>= fun _ => restoreRecords records :=
  rfl

theorem restoreRecords_ok {records : List DurableRecord} {r r' : PartitionRuntime}
    (h : restoreRecords records r = (.ok (), r')) : Restored records r r' := by
  induction records generalizing r with
  | nil =>
    cases h
    exact .nil _
  | cons record records ih =>
    rw [restoreRecords_cons] at h
    obtain ⟨_, s, hs, ht⟩ := Act.bind_ok.mp h
    obtain ⟨-, hrestores⟩ | ⟨⟨_, he⟩, -⟩ := restoreRecord_cases hs
    · exact .cons hrestores (ih ht)
    · cases he

namespace Restored

variable {xs ys records : List DurableRecord} {r r' t : PartitionRuntime}

theorem append_iff :
    Restored (xs ++ ys) r t ↔ ∃ s, Restored xs r s ∧ Restored ys s t := by
  induction xs generalizing r with
  | nil =>
    refine ⟨fun h => ⟨r, .nil r, h⟩, ?_⟩
    rintro ⟨s, ⟨⟩, h⟩
    exact h
  | cons x xs ih =>
    refine ⟨?_, ?_⟩
    · rintro (_ | ⟨hx, hrest⟩)
      obtain ⟨s, hs, ht⟩ := ih.mp hrest
      exact ⟨s, .cons hx hs, ht⟩
    · rintro ⟨s, (_ | ⟨hx, hrest⟩), ht⟩
      exact .cons hx (ih.mpr ⟨s, hrest, ht⟩)

/-- What every record keeps, all of them keep. -/
theorem invariant {P : PartitionRuntime → Prop}
    (hstep : ∀ record ∈ records, ∀ r r', Restores record r r' → P r → P r')
    (h : Restored records r r') (hr : P r) : P r' := by
  induction h with
  | nil => exact hr
  | cons hrecord _ ih =>
    exact ih (fun record hmem => hstep record (List.mem_cons_of_mem _ hmem))
      (hstep _ List.mem_cons_self _ _ hrecord hr)

end Restored

/-- Restoring writes nothing to the journal. -/
theorem Restores.keeps {record : DurableRecord} {r r' : PartitionRuntime}
    (h : Restores record r r') : r'.journal = r.journal ∧ r'.options = r.options := by
  rcases h with ⟨_, _⟩ | ⟨_, _⟩ | ⟨_, _, _⟩ | ⟨_, _, _⟩ | ⟨_, _⟩ | ⟨_, _⟩
  · exact ⟨rfl, rfl⟩
  · rw [restorePolicy]
    split <;> exact ⟨rfl, rfl⟩
  · rw [restoreTopology]
    split <;> exact ⟨rfl, rfl⟩
  · exact ⟨rfl, rfl⟩
  · exact ⟨rfl, rfl⟩
  · exact ⟨rfl, rfl⟩

/-- A loop over the records that throws has written nothing to the journal either. -/
theorem restoreRecords_keeps {records : List DurableRecord} {r r' : PartitionRuntime}
    {res : Except PartitionError Unit} (h : restoreRecords records r = (res, r')) :
    r'.journal = r.journal ∧ r'.options = r.options := by
  induction records generalizing r with
  | nil =>
    cases h
    exact ⟨rfl, rfl⟩
  | cons record records ih =>
    rw [restoreRecords_cons] at h
    rcases Act.bind_cases h with ⟨_, s, hs, ht⟩ | ⟨e, hs, -⟩
    · obtain ⟨-, hrestores⟩ | ⟨⟨_, he⟩, -⟩ := restoreRecord_cases hs
      · exact ⟨(ih ht).1.trans hrestores.keeps.1, (ih ht).2.trans hrestores.keeps.2⟩
      · cases he
    · obtain ⟨he, -⟩ | ⟨-, rfl⟩ := restoreRecord_cases hs
      · cases he
      · exact ⟨rfl, rfl⟩

/-! ## The last epoch state -/

/-- The last epoch state among some records. -/
def LastState (records : List DurableRecord) (state : EpochState) : Prop :=
  ∃ front sequence back,
    records = front ++ ⟨.epochState, sequence, encodeEpochState state⟩ :: back ∧
      ∀ record ∈ back, record.type ≠ .epochState

/-- Records that are no epoch states leave it the last one. -/
theorem LastState.append {records extra : List DurableRecord} {state : EpochState}
    (h : LastState records state) (hextra : ∀ record ∈ extra, record.type ≠ .epochState) :
    LastState (records ++ extra) state := by
  obtain ⟨front, sequence, back, rfl, hback⟩ := h
  refine ⟨front, sequence, back ++ extra, by simp, fun record hrecord => ?_⟩
  rcases List.mem_append.mp hrecord with hrecord | hrecord
  · exact hback record hrecord
  · exact hextra record hrecord

theorem LastState.unique {records : List DurableRecord} {state state' : EpochState}
    (h : LastState records state) (h' : LastState records state') : state = state' := by
  obtain ⟨front, sequence, back, rfl, hback⟩ := h
  obtain ⟨front', sequence', back', heq, hback'⟩ := h'
  rcases List.append_eq_append_iff.mp heq with ⟨mid, rfl, hmid⟩ | ⟨mid, rfl, hmid⟩
  · rcases mid with _ | ⟨x, mid⟩
    · rw [List.nil_append, List.cons.injEq, DurableRecord.mk.injEq] at hmid
      exact encodeEpochState_injective hmid.1.2.2
    · rw [List.cons_append, List.cons.injEq] at hmid
      exact absurd rfl (hback ⟨.epochState, sequence', encodeEpochState state'⟩ (by
        rw [hmid.2]
        simp))
  · rcases mid with _ | ⟨x, mid⟩
    · rw [List.nil_append, List.cons.injEq, DurableRecord.mk.injEq] at hmid
      exact (encodeEpochState_injective hmid.1.2.2).symm
    · rw [List.cons_append, List.cons.injEq] at hmid
      exact absurd rfl (hback' ⟨.epochState, sequence, encodeEpochState state⟩ (by
        rw [hmid.2]
        simp))

/-- Only epoch states move the state and the interruptions. -/
theorem Restores.state_of_ne {record : DurableRecord} {r r' : PartitionRuntime}
    (h : Restores record r r') (htype : record.type ≠ .epochState) :
    r'.state = r.state ∧ r'.interrupted = r.interrupted := by
  rcases h with ⟨hepoch, _⟩ | ⟨_, _⟩ | ⟨_, _, _⟩ | ⟨_, _, _⟩ | ⟨_, _⟩ | ⟨_, _⟩
  · exact absurd hepoch htype
  · rw [restorePolicy]
    split <;> exact ⟨rfl, rfl⟩
  · rw [restoreTopology]
    split <;> exact ⟨rfl, rfl⟩
  · exact ⟨rfl, rfl⟩
  · exact ⟨rfl, rfl⟩
  · exact ⟨rfl, rfl⟩

theorem Restored.state_of_ne {records : List DurableRecord} {r r' : PartitionRuntime}
    (h : Restored records r r') (htypes : ∀ record ∈ records, record.type ≠ .epochState) :
    r'.state = r.state ∧ r'.interrupted = r.interrupted :=
  h.invariant (P := fun s => s.state = r.state ∧ s.interrupted = r.interrupted)
    (fun record hrecord _ _ hstep hs =>
      ⟨(hstep.state_of_ne (htypes record hrecord)).1.trans hs.1,
        (hstep.state_of_ne (htypes record hrecord)).2.trans hs.2⟩) ⟨rfl, rfl⟩

/-- **What is restored of the state is the last epoch state**, and its marks are interrupted. -/
theorem Restored.state {records : List DurableRecord} {r r' : PartitionRuntime}
    (h : Restored records r r') {state : EpochState} (hlast : LastState records state) :
    r'.state = { state with liveGrants := [] } ∧ r'.interrupted = state.interruptions := by
  obtain ⟨front, sequence, back, rfl, hback⟩ := hlast
  obtain ⟨s, -, hrest⟩ := Restored.append_iff.mp h
  rcases hrest with _ | ⟨hrecord, hrest⟩
  obtain ⟨hstate, hinterrupted⟩ := hrest.state_of_ne hback
  rcases hrecord with ⟨_, hdecode⟩ | ⟨htype, _⟩ | ⟨htype, _, _⟩ | ⟨htype, _, _⟩ | ⟨htype, _⟩ |
    ⟨htype, _⟩
  · have hpayload := (((codec_epochState s.limits).whole_iff _ _).mp hdecode).2
    obtain rfl := encodeEpochState_injective hpayload
    exact ⟨hstate, hinterrupted⟩
  all_goals cases htype

/-! ## The fences of a restart -/

/-- What a start may have written when it has fenced the interruptions it found: fences in the name
of the state it restored, numbered upwards and committed in order. -/
structure Rebuilt (r r' : PartitionRuntime) : Prop where
  eq : ∃ added fenceSequence j,
    j = commitAll (added.map fenceEntry) r.journal ∧
    Ascending r.state.fenceSequence added fenceSequence ∧
    (∀ fence ∈ added, Signed r.state.epoch r.state.boot fence) ∧
    r' = { r with
      fences := r.fences ++ added
      state := { r.state with fenceSequence := fenceSequence }
      store := j.1
      durableSequence := j.2 }

theorem Rebuilt.refl (r : PartitionRuntime) : Rebuilt r r :=
  ⟨[], r.state.fenceSequence, r.journal, rfl, Nat.le_refl _, by simp, by
    rw [List.append_nil]
    rfl⟩

theorem Rebuilt.trans {r s t : PartitionRuntime} (h : Rebuilt r s) (h' : Rebuilt s t) :
    Rebuilt r t := by
  obtain ⟨added, fs, j, rfl, hasc, hsigned, rfl⟩ := h
  obtain ⟨added', fs', j', rfl, hasc', hsigned', rfl⟩ := h'
  refine ⟨added ++ added', fs', _, rfl, hasc.append hasc', fun fence hfence => ?_, ?_⟩
  · rcases List.mem_append.mp hfence with hfence | hfence
    · exact hsigned fence hfence
    · exact hsigned' fence hfence
  · rw [List.map_append, commitAll_append, ← List.append_assoc]
    rfl

theorem rebuildFences_rebuilt (entries : List InterruptedAuthority) (r : PartitionRuntime) :
    Rebuilt r (rebuildFences entries r) := by
  induction entries generalizing r with
  | nil => exact .refl r
  | cons entry rest ih =>
    rw [rebuildFences]
    rcases hnext : r.state.fenceSequence.next with _ | next
    · exact .refl r
    · refine Rebuilt.trans ?_ (ih _)
      have hlt : r.state.fenceSequence.value.toNat < next.value.toNat := by
        rw [Counter.next_toNat hnext]
        exact Nat.lt_succ_self _
      dsimp only
      rw [storeFence]
      split
      · exact ⟨[], next, r.journal, rfl, Nat.le_of_lt hlt, by simp, by
          rw [List.append_nil]
          rfl⟩
      · refine ⟨[_], next, _, rfl, ⟨hlt, Nat.le_refl _⟩, fun fence hfence => ?_, rfl⟩
        rw [List.mem_singleton.mp hfence]
        exact ⟨rfl, rfl, rfl⟩

/-! ## The constructor -/

/-- Only the restart report was written. -/
def Reported (r r' : PartitionRuntime) : Prop := ∃ reasons, r' = { r with restartReasons := reasons }

theorem Reported.trans {r s t : PartitionRuntime} (h : Reported r s) (h' : Reported s t) :
    Reported r t := by
  obtain ⟨_, rfl⟩ := h
  obtain ⟨_, rfl⟩ := h'
  exact ⟨_, rfl⟩

theorem reportRestarted_reported (r : PartitionRuntime) : Reported r (reportRestarted r) := by
  have hreport : ∀ (code : ReasonCode) (subject : String) (detail : Text) (r : PartitionRuntime),
      Reported r (reportRestart code subject detail r) := fun _ _ _ _ => ⟨_, rfl⟩
  have hif : ∀ (b : Bool) (code : ReasonCode) (subject : String) (detail : Text)
      (r : PartitionRuntime),
      Reported r (if b then r else reportRestart code subject detail r) := by
    intro b code subject detail r
    split
    · exact ⟨_, rfl⟩
    · exact hreport _ _ _ _
  rw [reportRestarted]
  exact ((((((hreport _ _ _ _).trans (hreport _ _ _ _)).trans (hif _ _ _ _ _)).trans
    (hif _ _ _ _ _)).trans (hreport _ _ _ _)).trans (hif _ _ _ _ _)).trans (hreport _ _ _ _)

/-- The epoch is entered: under the next number and fresh identities. -/
def Enters (ids : BootIdentities) (r r' : PartitionRuntime) : Prop :=
  ∃ epoch bootSequence reasons, r.state.epoch.next = some epoch ∧
    r.state.bootSequence.next = some bootSequence ∧
    r' = { enterEpoch epoch bootSequence ids r with restartReasons := reasons }

/-- The journal of a start, once it is open. -/
def openedJournal (store : DurableStore) : Journal :=
  (some store.load.2.openForAppend, store.load.2.highestSequence)

/-- The members of a runtime once the store of a start is open. -/
def opened (store : DurableStore) (r : PartitionRuntime) : PartitionRuntime :=
  { r with
    store := (openedJournal store).1
    durableSequence := (openedJournal store).2 }

/-- A completed construction on a durable store: what the store was found to hold is restored, its
interruptions are fenced, and the new epoch is entered and committed. -/
structure Constructed (fresh : PartitionRuntime) (store : DurableStore) (ids : BootIdentities)
    (r : PartitionRuntime) (policy : PartitionPolicy) (restored entered : PartitionRuntime) :
    Prop where
  canonical : fresh.options.policy.canonicalised fresh.limits = some policy
  loaded : store.load.1.ok = true
  restores : Restored store.load.2.openForAppend.records
    (opened store { fresh with policy := policy }) restored
  enters : Enters ids (rebuildFences restored.interrupted restored) entered
  commits : ∃ s, commitRecord .epochState (encodeEpochState entered.state) entered = (true, s) ∧
    r = initialAssessment s

/-- What a construction that left by an exception has written: nothing, or fences, with a commit
behind them that was refused. -/
inductive Aborted (store : DurableStore) : Journal → Prop
  | unopened {object : DurableStore} {sequence : UInt64}
      (h : object = store ∨ object = store.load.2) : Aborted store (some object, sequence)
  | fenced (hloaded : store.load.1.ok = true) (fences : List FenceRecord) :
      Aborted store (commitAll (fences.map fenceEntry) (openedJournal store))
  | refused {payload : Bytes} {j : Journal} (hloaded : store.load.1.ok = true)
      (fences : List FenceRecord)
      (h : commitJournal .epochState payload
        (commitAll (fences.map fenceEntry) (openedJournal store)) = (false, j)) :
      Aborted store j

/-- Entering the epoch: the state is exhausted, the commit is refused, or the epoch is entered. -/
theorem advanceEpoch_cases {ids : BootIdentities} {r r' : PartitionRuntime}
    {res : Except PartitionError Unit} (h : advanceEpoch ids r = (res, r')) :
    (∃ e, res = .error e) ∧ (r'.journal = r.journal ∨
        ∃ payload, commitJournal .epochState payload r.journal = (false, r'.journal)) ∨
      res = .ok () ∧ ∃ epoch bootSequence reasons, r.state.epoch.next = some epoch ∧
        r.state.bootSequence.next = some bootSequence ∧
        ∃ entered, entered
            = { enterEpoch epoch bootSequence ids r with restartReasons := reasons } ∧
          commitRecord .epochState (encodeEpochState entered.state) entered = (true, r') := by
  rw [advanceEpoch, Act.read_bind] at h
  rcases hepoch : r.state.epoch.next with _ | epoch <;> simp only [hepoch] at h
  · cases h
    exact .inl ⟨⟨_, rfl⟩, .inl rfl⟩
  · rcases hboot : r.state.bootSequence.next with _ | bootSequence <;> simp only [hboot] at h
    · cases h
      exact .inl ⟨⟨_, rfl⟩, .inl rfl⟩
    · rw [Act.modify_bind, Act.read_bind, Act.total_bind] at h
      obtain ⟨reasons, hreport⟩ := reportRestarted_reported (enterEpoch epoch bootSequence ids r)
      have hsame : (reportRestarted (enterEpoch epoch bootSequence ids r)).journal = r.journal := by
        rw [hreport]
        rfl
      generalize reportRestarted (enterEpoch epoch bootSequence ids r) = entered at h hreport hsame
      rcases hcommit : commitRecord .epochState (encodeEpochState entered.state) entered with
        ⟨_ | _, s⟩ <;> rw [hcommit] at h
      · cases h
        refine .inl ⟨⟨_, rfl⟩, .inr ⟨encodeEpochState entered.state, ?_⟩⟩
        rw [← hsame]
        exact congrArg (fun x => (x.1, x.2.journal)) hcommit
      · cases h
        exact .inr ⟨rfl, epoch, bootSequence, reasons, rfl, rfl, entered, hreport, hcommit⟩

theorem reportTornTail_eq (torn : Bool) (r : PartitionRuntime) : Reported r (reportTornTail torn r) := by
  rw [reportTornTail]
  split <;> exact ⟨_, rfl⟩

theorem Rebuilt.journal {r r' : PartitionRuntime} (h : Rebuilt r r') :
    ∃ fences : List FenceRecord, r'.journal = commitAll (fences.map fenceEntry) r.journal := by
  obtain ⟨added, _, j, rfl, -, -, rfl⟩ := h
  exact ⟨added, rfl⟩

/-- Opening the store of a start. -/
theorem openStore_cases {store : DurableStore} {r r' : PartitionRuntime}
    {res : Except PartitionError StoreLoadResult} (h : openStore store r = (res, r')) :
    (∃ e, res = .error e) ∧ Aborted store r'.journal ∨
      store.load.1.ok = true ∧ (∃ loaded, res = .ok loaded) ∧
        r' = { r with
          store := (openedJournal store).1
          durableSequence := (openedJournal store).2 } := by
  rw [openStore] at h
  rcases hok : store.load.1.ok
  · simp only [hok, Bool.not_false, if_true] at h
    cases h
    exact .inl ⟨⟨_, rfl⟩, .unopened (.inr rfl)⟩
  · simp only [hok, Bool.not_true, Bool.false_eq_true, if_false] at h
    cases h
    exact .inr ⟨rfl, ⟨_, rfl⟩, rfl⟩

/-- **The runs of the durable part**: the store is refused or opened, a record cannot be restored or
all are, the interruptions are fenced, and the epoch is entered or not. -/
theorem startFromStore_cases {store : DurableStore} {ids : BootIdentities} {r r' : PartitionRuntime}
    {res : Except PartitionError Unit}
    (h : startFromStore store ids r = (res, r')) :
    (∃ e, res = .error e) ∧ Aborted store r'.journal ∨
      res = .ok () ∧ store.load.1.ok = true ∧
        ∃ restored entered,
          Restored store.load.2.openForAppend.records (opened store r) restored ∧
          Enters ids (rebuildFences restored.interrupted restored) entered ∧
          commitRecord .epochState (encodeEpochState entered.state) entered = (true, r') := by
  rw [startFromStore] at h
  rcases Act.bind_cases h with ⟨loaded, t, hopen, hrest⟩ | ⟨e, hopen, rfl⟩
  · obtain ⟨⟨_, he⟩, -⟩ | ⟨hloaded, -, rfl⟩ := openStore_cases hopen
    · cases he
    rw [Act.read_bind, restoreFromRecords] at hrest
    change ((restoreRecords _ >>= fun _ => Act.modify fun r => rebuildFences r.interrupted r) >>=
      fun _ => Act.modify (reportTornTail loaded.tornTailRecovered) >>= fun _ => advanceEpoch ids)
        (opened store r) = (res, r') at hrest
    rcases Act.bind_cases hrest with ⟨_, u, hrestore, hrest⟩ | ⟨e, hrestore, rfl⟩
    · obtain ⟨_, restored, hrecords, hu⟩ := Act.bind_ok.mp hrestore
      cases hu
      rw [Act.modify_bind] at hrest
      have hrestored := restoreRecords_ok hrecords
      obtain ⟨reasons, htorn⟩ := reportTornTail_eq loaded.tornTailRecovered
        (rebuildFences restored.interrupted restored)
      rw [htorn] at hrest
      obtain ⟨fences, hjournal⟩ := (rebuildFences_rebuilt restored.interrupted restored).journal
      rw [(restoreRecords_keeps hrecords).1] at hjournal
      obtain ⟨herror, hj | ⟨payload, hj⟩⟩ | ⟨rfl, epoch, bootSequence, reasons', hepoch, hboot,
        entered, hentered, hcommit⟩ := advanceEpoch_cases hrest
      · refine .inl ⟨herror, ?_⟩
        rw [hj]
        exact hjournal ▸ Aborted.fenced hloaded fences
      · have hrefused : commitJournal .epochState payload
            (commitAll (fences.map fenceEntry) (openedJournal store)) = (false, r'.journal) := by
          rw [← hj]
          exact congrArg _ hjournal.symm
        exact .inl ⟨herror, .refused hloaded fences hrefused⟩
      · exact .inr ⟨rfl, hloaded, restored, entered, hrestored,
          ⟨epoch, bootSequence, reasons', hepoch, hboot, hentered⟩, hcommit⟩
    · refine .inl ⟨⟨e, rfl⟩, ?_⟩
      rcases Act.bind_cases hrestore with ⟨_, _, _, hmodify⟩ | ⟨_, hrecords, -⟩
      · cases hmodify
      · rw [(restoreRecords_keeps hrecords).1]
        exact .fenced hloaded []
  · obtain ⟨-, haborted⟩ | ⟨-, ⟨_, hok⟩, -⟩ := openStore_cases hopen
    · exact .inl ⟨⟨e, rfl⟩, haborted⟩
    · cases hok

/-- **The runs of the constructor** on a durable store. -/
theorem start_cases {ids : BootIdentities} {fresh r : PartitionRuntime} {store : DurableStore}
    {res : Except PartitionError Unit} (hstore : fresh.store = some store)
    (h : start ids fresh = (res, r)) :
    (res = .ok () ∧ ∃ policy restored entered,
        Constructed fresh store ids r policy restored entered) ∨
      (∃ e, res = .error e) ∧ Aborted store r.journal := by
  rw [start, Act.read_bind] at h
  rcases hpolicy : fresh.options.policy.canonicalised fresh.limits with _ | policy
  · simp only [hpolicy] at h
    cases h
    refine .inr ⟨⟨_, rfl⟩, ?_⟩
    rw [journal, hstore]
    exact .unopened (.inl rfl)
  simp only [hpolicy] at h
  rw [Act.modify_bind, hstore] at h
  rcases Act.bind_cases h with ⟨_, s, hstart, hend⟩ | ⟨e, hstart, rfl⟩
  · obtain ⟨⟨_, he⟩, -⟩ | ⟨-, hloaded, restored, entered, hrestored, henters, hcommit⟩ :=
      startFromStore_cases hstart
    · cases he
    · cases hend
      exact .inl ⟨rfl, policy, restored, entered, hpolicy, hloaded, hrestored, henters, s, hcommit,
        rfl⟩
  · obtain ⟨-, haborted⟩ | ⟨hok, -⟩ := startFromStore_cases hstart
    · exact .inr ⟨⟨e, rfl⟩, haborted⟩
    · cases hok

/-- A durable runtime is constructed on its store. -/
theorem unstarted_store {options : RuntimeOptions} (hdurable : options.durable = true) (disk : Disk)
    (ids : BootIdentities) (faults : List (Option AppendFault)) :
    (unstarted options disk ids faults).store
      = some { limits := options.limits, disk := disk, faults := faults } := by
  rw [unstarted, if_pos hdurable]

end PartitionRuntime

end FabricPartition
