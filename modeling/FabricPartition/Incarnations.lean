import FabricPartition.Restoration
import FabricPartition.Writes

/-!
# Incarnations

A store outlives the runtimes that are constructed on it.  A *history* is a run of calls with
crashes between them: the process dies once a call has returned, and a runtime is constructed on the
disk it left.  A constructor that throws ends the history, since the next one would meet the same
store.

* `construct_revived` — what a completed start on a store makes of the records it loads: the last
  epoch state among them is where the counters resume (`durableState`), and what is in memory only
  is gone.
* `history_invariant`, `history_increasing` — invariants of a history, and values that are drawn
  from a counter in increasing order all through it.
-/

set_option autoImplicit false

namespace FabricPartition

/-! ## Histories -/

/-- What happens to a runtime: a call, or the death of its process and a start on what is left. -/
inductive Incident
  | call (c : Call)
  | restart (options : RuntimeOptions) (ids : BootIdentities) (faults : List (Option AppendFault))

/-- An incident that happened. -/
inductive Moment
  | called (s : Step)
  | restarted (before : PartitionRuntime) (options : RuntimeOptions) (ids : BootIdentities)
      (faults : List (Option AppendFault)) (after : PartitionRuntime)

namespace Moment

/-- The runtime before the incident. -/
def before : Moment → PartitionRuntime
  | called s => s.before
  | restarted r _ _ _ _ => r

/-- The runtime after it. -/
def after : Moment → PartitionRuntime
  | called s => s.after
  | restarted _ _ _ _ r => r

end Moment

namespace PartitionRuntime

/-- The disk a process leaves. -/
def remains (r : PartitionRuntime) : Disk := (r.store.map DurableStore.disk).getD {}

/-- The process dies, and a runtime is started on the same disk. -/
def reopen (options : RuntimeOptions) : Incident := .restart options default []

/-- The moments of a history. -/
def history : PartitionRuntime → List Incident → List Moment
  | _, [] => []
  | r, .call c :: rest =>
    .called ⟨r, c, (r.call c).1, (r.call c).2⟩ :: history (r.call c).2 rest
  | r, .restart options ids faults :: rest =>
    match construct options r.remains ids faults with
    | (.ok (), r') => .restarted r options ids faults r' :: history r' rest
    | (.error _, _) => []

/-- A moment is what the call or the constructor makes of the runtime before it. -/
def Happened : Moment → Prop
  | .called s => (s.response, s.after) = s.before.call s.call
  | .restarted before options ids faults after =>
    construct options before.remains ids faults = (.ok (), after)

/-- **Invariants of a history**: what each moment keeps holds before and after all of them. -/
theorem history_invariant {P : PartitionRuntime → Prop} {r : PartitionRuntime}
    {incidents : List Incident} (hr : P r)
    (hstep : ∀ m ∈ r.history incidents, Happened m → P m.before → P m.after) :
    ∀ m ∈ r.history incidents, Happened m ∧ P m.before ∧ P m.after := by
  induction incidents generalizing r with
  | nil =>
    intro m hm
    cases hm
  | cons incident rest ih =>
    rcases incident with c | ⟨options, ids, faults⟩
    · rw [history] at hstep ⊢
      have hfirst := hstep _ List.mem_cons_self rfl hr
      intro m hm
      rcases List.mem_cons.mp hm with rfl | hm
      · exact ⟨rfl, hr, hfirst⟩
      · exact ih hfirst (fun m hm => hstep m (List.mem_cons_of_mem _ hm)) m hm
    · rw [history] at hstep ⊢
      rcases hconstruct : construct options r.remains ids faults with ⟨_ | ⟨⟩, r'⟩
      · intro m hm
        cases hm
      · simp only [hconstruct] at hstep ⊢
        have hfirst := hstep _ List.mem_cons_self hconstruct hr
        intro m hm
        rcases List.mem_cons.mp hm with rfl | hm
        · exact ⟨hconstruct, hr, hfirst⟩
        · exact ih hfirst (fun m hm => hstep m (List.mem_cons_of_mem _ hm)) m hm

theorem mem_history {r : PartitionRuntime} {incidents : List Incident} {m : Moment}
    (h : m ∈ r.history incidents) : Happened m :=
  (history_invariant (P := fun _ => True) trivial (fun _ _ _ _ => trivial) m h).1

/-- A moment draws some values from a counter: in increasing order, above where the counter stood
and not above where it is left. -/
structure Draws (counter : PartitionRuntime → Nat) (values : Moment → List Nat) (m : Moment) :
    Prop where
  climbs : counter m.before ≤ counter m.after
  increasing : (values m).Pairwise (· < ·)
  above : ∀ v ∈ values m, counter m.before < v
  below : ∀ v ∈ values m, v ≤ counter m.after

/-- **What is drawn from a counter increases** all through a history, if the counter is never set
back. -/
theorem history_increasing {counter : PartitionRuntime → Nat} {values : Moment → List Nat}
    {r : PartitionRuntime} {incidents : List Incident}
    (h : ∀ m ∈ r.history incidents, Draws counter values m) :
    ((r.history incidents).flatMap values).Pairwise (· < ·) ∧
      ∀ v ∈ (r.history incidents).flatMap values, counter r < v := by
  induction incidents generalizing r with
  | nil => exact ⟨.nil, fun v hv => nomatch hv⟩
  | cons incident rest ih =>
    -- the values of the first moment, before those of the rest
    have hcons : ∀ (m : Moment), m.before = r →
        (∀ m' ∈ m :: m.after.history rest, Draws counter values m') →
        ((m :: m.after.history rest).flatMap values).Pairwise (· < ·) ∧
          ∀ v ∈ (m :: m.after.history rest).flatMap values, counter r < v := by
      rintro m rfl hall
      have hm := hall m List.mem_cons_self
      obtain ⟨hrest, habove⟩ := ih fun m' hm' => hall m' (List.mem_cons_of_mem _ hm')
      rw [List.flatMap_cons]
      refine ⟨List.pairwise_append.mpr ⟨hm.increasing, hrest, fun v hv w hw =>
        (hm.below v hv).trans_lt (habove w hw)⟩, fun v hv => ?_⟩
      rcases List.mem_append.mp hv with hv | hv
      · exact hm.above v hv
      · exact hm.climbs.trans_lt (habove v hv)
    rcases incident with c | ⟨options, ids, faults⟩
    · rw [history] at h ⊢
      exact hcons (.called _) rfl h
    · rw [history] at h ⊢
      rcases hconstruct : construct options r.remains ids faults with ⟨_ | ⟨⟩, r'⟩
      · exact ⟨.nil, fun v hv => nomatch hv⟩
      · simp only [hconstruct] at h ⊢
        exact hcons (.restarted r options ids faults r') rfl h

/-! ## What is loaded -/

/-- The records a start finds on a disk. -/
def loadedRecords (options : RuntimeOptions) (disk : Disk) : List DurableRecord :=
  (DurableStore.load { limits := options.limits, disk := disk }).2.records

theorem openForAppend_records (store : DurableStore) :
    store.openForAppend.records = store.records := by
  rw [DurableStore.openForAppend]
  split
  · rfl
  · split <;> rfl

theorem loaded_records (options : RuntimeOptions) (disk : Disk)
    (faults : List (Option AppendFault)) :
    (DurableStore.load { limits := options.limits, disk := disk, faults := faults }
      |>.2.openForAppend.records) = loadedRecords options disk := by
  rw [openForAppend_records, loadedRecords, DurableStore.load_snd, DurableStore.load_snd]

/-- The last epoch state among some records. -/
def lastEpochState (limits : Limits) (records : List DurableRecord) : Option EpochState :=
  (records.reverse.find? fun record => record.type = .epochState).bind fun record =>
    decodeEpochState record.payload limits

/-- The last epoch state among records that were restored is the one `lastEpochState` finds. -/
theorem Restored.lastEpochState {records : List DurableRecord} {r r' : PartitionRuntime}
    (h : Restored records r r') :
    (PartitionRuntime.lastEpochState r.limits records = none ∧ r'.state = r.state ∧
        r'.interrupted = r.interrupted) ∨
      ∃ state, PartitionRuntime.lastEpochState r.limits records = some state ∧
        LastState records state ∧ r'.state = { state with liveGrants := [] } ∧
        r'.interrupted = state.interruptions := by
  rw [PartitionRuntime.lastEpochState]
  generalize hfind : List.find? _ records.reverse = found
  rcases found with _ | record
  · refine .inl ⟨rfl, h.state_of_ne fun record hrecord => ?_⟩
    simpa using List.find?_eq_none.mp hfind record (List.mem_reverse.mpr hrecord)
  · obtain ⟨htype, after, front, hsplit, hafter⟩ := List.find?_eq_some_iff_append.mp hfind
    have hrecords : records = front.reverse ++ record :: after.reverse := by
      rw [← List.reverse_reverse records, hsplit]
      simp
    rw [decide_eq_true_eq] at htype
    have hlater : ∀ later ∈ after.reverse, later.type ≠ .epochState := by
      intro later hlater
      simpa using hafter later (List.mem_reverse.mp hlater)
    subst hrecords
    obtain ⟨s, hs, hrest⟩ := Restored.append_iff.mp h
    have hlimits : s.limits = r.limits :=
      hs.invariant (P := fun u => u.limits = r.limits)
        (fun _ _ _ _ hstep hu => (congrArg RuntimeOptions.limits hstep.keeps.2).trans hu) rfl
    rcases hrest with _ | ⟨hrecord, hrest⟩
    rcases hrecord with ⟨_, hdecode⟩ | ⟨hne, _⟩ | ⟨hne, _, _⟩ | ⟨hne, _, _⟩ | ⟨hne, _⟩ | ⟨hne, _⟩
    · rename_i state _
      rw [hlimits] at hdecode
      have hpayload := (((codec_epochState r.limits).whole_iff _ _).mp hdecode).2
      have hlast : LastState (front.reverse ++ record :: after.reverse) state := by
        refine ⟨front.reverse, record.sequence, after.reverse, ?_, hlater⟩
        rw [← hpayload, ← htype]
      exact .inr ⟨state, hdecode, hlast, (h.state hlast).1, (h.state hlast).2⟩
    all_goals exact absurd (htype.symm.trans hne) (by decide)

/-- Where the counters resume on a disk. -/
def durableState (options : RuntimeOptions) (disk : Disk) (ids : BootIdentities) : EpochState :=
  (lastEpochState options.limits (loadedRecords options disk)).getD
    (unstarted options disk ids []).state

/-! ## What is revived -/

/-- A journal with a store keeps it. -/
theorem commitAll_some (log : List Entry) {j : Journal} (h : j.1.isSome = true) :
    (commitAll log j).1.isSome = true := by
  induction log generalizing j with
  | nil => exact h
  | cons entry log ih =>
    rw [commitAll_cons]
    refine ih ?_
    obtain ⟨_ | store, sequence⟩ := j
    · cases h
    · rw [commitJournal]
      -- the sum is opaque from here on: unfolded, its 64-bit bound is counted down
      generalize checkedAdd sequence 1 = sum
      rcases sum with _ | next
      · rfl
      · dsimp only
        rcases store.append entry.1 next entry.2 with ⟨_ | _, _⟩ <;> rfl

/-- A runtime that a start on a store revived. -/
structure Revived (options : RuntimeOptions) (disk : Disk) (ids : BootIdentities)
    (faults : List (Option AppendFault)) (r restored : PartitionRuntime) : Prop where
  loaded : DurableStore.load { limits := options.limits, disk := disk, faults := faults }
    |>.1.ok = true
  /-- All that was written since the journal was opened went through commits. -/
  commits : ∃ log, r.journal
    = commitAll log (openedJournal { limits := options.limits, disk := disk, faults := faults })
  /-- What the records made of a runtime that had nothing but its options. -/
  restores : ∃ fresh : PartitionRuntime,
    Restored (loadedRecords options disk) fresh restored ∧ fresh.options = options ∧
      fresh.lineage = { limits := options.limits } ∧
      fresh.decisions = { limits := options.limits } ∧ fresh.fences = [] ∧
      fresh.interrupted = [] ∧ fresh.rosterSet = false ∧
      Journal.records fresh.journal = loadedRecords options disk
  settings : r.options = options
  lineage : r.lineage = restored.lineage
  decisions : r.decisions = restored.decisions
  interrupted : r.interrupted = ((lastEpochState options.limits (loadedRecords options disk)).map
    EpochState.interruptions).getD []
  /-- The fences of the interruptions, and behind them the new epoch. -/
  entered : ∃ (fences : List FenceRecord) (fenceSequence : FenceSequence) (epoch : CoordinatorEpoch)
    (bootSequence : BootSequence) (sequence : UInt64),
    Ascending (durableState options disk ids).fenceSequence fences fenceSequence ∧
      (∀ fence ∈ fences, Signed (durableState options disk ids).epoch
        (durableState options disk ids).boot fence) ∧
      r.fences = restored.fences ++ fences ∧
      (durableState options disk ids).epoch.next = some epoch ∧
      r.state = { durableState options disk ids with
        liveGrants := []
        fenceSequence := fenceSequence
        epoch := epoch
        bootSequence := bootSequence
        boot := ids.freshBoot
        incarnation := ids.freshIncarnation } ∧
      Journal.records r.journal
        = Journal.records (commitAll (fences.map fenceEntry) restored.journal)
          ++ [⟨.epochState, sequence, encodeEpochState r.state⟩]

/-- **What a completed start makes of a store.** -/
theorem construct_revived {options : RuntimeOptions} {disk : Disk} {ids : BootIdentities}
    {faults : List (Option AppendFault)} {r : PartitionRuntime} (hdurable : options.durable = true)
    (h : construct options disk ids faults = (.ok (), r)) :
    ∃ restored, Revived options disk ids faults r restored := by
  rcases start_cases (unstarted_store hdurable disk ids faults) h with
    ⟨-, policy, restored, entered, hc⟩ | ⟨⟨_, herror⟩, -⟩
  · obtain ⟨-, hloaded, hrestores, ⟨epoch, bootSequence, reasons, hepoch, hboot, rfl⟩, s, hcommit,
      rfl⟩ := hc
    rw [loaded_records] at hrestores
    generalize hfresh : opened _ _ = fresh at hrestores
    have hopened : fresh.options = options ∧ fresh.lineage = { limits := options.limits } ∧
        fresh.decisions = { limits := options.limits } ∧ fresh.fences = [] ∧
        fresh.interrupted = [] ∧ fresh.rosterSet = false ∧
        Journal.records fresh.journal = loadedRecords options disk ∧
        fresh.state = (unstarted options disk ids []).state := by
      subst hfresh
      refine ⟨rfl, rfl, rfl, rfl, rfl, rfl, ?_, rfl⟩
      exact loaded_records options disk faults
    obtain ⟨hoptions, hlineage, hdecisions, hfences, hinterrupted, hroster, hrecords, hstate⟩ :=
      hopened
    have hresumed : restored.state = { durableState options disk ids with liveGrants := [] } ∧
        restored.interrupted = ((lastEpochState options.limits
          (loadedRecords options disk)).map EpochState.interruptions).getD [] := by
      have hlimits : fresh.limits = options.limits := congrArg RuntimeOptions.limits hoptions
      rw [durableState, ← hlimits]
      rcases hrestores.lastEpochState with ⟨hnone, hsame, hint⟩ | ⟨state, hsome, -, hsame, hint⟩
      · rw [hnone, hsame, hint, hstate, hinterrupted]
        exact ⟨rfl, rfl⟩
      · rw [hsome, hsame, hint]
        exact ⟨rfl, rfl⟩
    have hkept : restored.options = options ∧ restored.journal = fresh.journal :=
      hrestores.invariant (P := fun u => u.options = options ∧ u.journal = fresh.journal)
        (fun _ _ _ _ hstep hu => ⟨hstep.keeps.2.trans hu.1, hstep.keeps.1.trans hu.2⟩)
        ⟨hoptions, rfl⟩
    -- the journal of the start, open all along
    have hopen : ∀ log, (commitAll log restored.journal).1.isSome = true := fun log =>
      commitAll_some log (by
        rw [hkept.2, ← hfresh]
        rfl)
    obtain ⟨added, fenceSequence, _, rfl, hascending, hsigned, hrebuilt⟩ :=
      rebuildFences_rebuilt restored.interrupted restored
    have hfenced : (rebuildFences restored.interrupted restored).journal
          = commitAll (added.map fenceEntry) restored.journal ∧
        (rebuildFences restored.interrupted restored).state
          = { restored.state with fenceSequence := fenceSequence } ∧
        (rebuildFences restored.interrupted restored).fences = restored.fences ++ added ∧
        (rebuildFences restored.interrupted restored).options = restored.options ∧
        (rebuildFences restored.interrupted restored).lineage = restored.lineage ∧
        (rebuildFences restored.interrupted restored).decisions = restored.decisions ∧
        (rebuildFences restored.interrupted restored).interrupted = restored.interrupted := by
      rw [hrebuilt]
      exact ⟨rfl, rfl, rfl, rfl, rfl, rfl, rfl⟩
    clear hrebuilt
    generalize rebuildFences restored.interrupted restored = fenced at hepoch hboot hcommit hfenced
    obtain ⟨hfjournal, hfstate, hffences, hfoptions, hflineage, hfdecisions, hfinterrupted⟩ :=
      hfenced
    rw [commitRecord] at hcommit
    have hjournal : ({ enterEpoch epoch bootSequence ids fenced with
        restartReasons := reasons } : PartitionRuntime).journal
          = commitAll (added.map fenceEntry) restored.journal := hfjournal
    rw [hjournal] at hcommit
    generalize hpayload : encodeEpochState _ = payload at hcommit
    specialize hopen (added.map fenceEntry)
    generalize hj : commitAll (added.map fenceEntry) restored.journal = j at hopen hcommit
    obtain ⟨_ | store, last⟩ := j
    · cases hopen
    generalize hout : commitJournal .epochState payload _ = out at hcommit
    obtain ⟨committed, k⟩ := out
    cases hcommit
    obtain ⟨sequence, hcommitted⟩ := commitJournal_acknowledged hout
    have hcommits : k = commitAll (added.map fenceEntry ++ [(.epochState, payload)])
        (openedJournal { limits := options.limits, disk := disk, faults := faults }) := by
      have hfirst : fresh.journal
          = openedJournal { limits := options.limits, disk := disk, faults := faults } := by
        rw [← hfresh]
        rfl
      rw [commitAll_append, ← hfirst, ← hkept.2, hj, commitAll_cons, commitAll_nil, hout]
    refine ⟨restored, hloaded, ⟨_, hcommits⟩, ⟨fresh, hrestores, hoptions, hlineage, hdecisions,
      hfences, hinterrupted, hroster, hrecords⟩, hfoptions.trans hkept.1, hflineage, hfdecisions,
      hfinterrupted.trans hresumed.2, added, fenceSequence, epoch, bootSequence, sequence,
      ?_, ?_, hffences, ?_, ?_, ?_⟩
    · rw [hresumed.1] at hascending
      exact hascending
    · rw [hresumed.1] at hsigned
      exact hsigned
    · rw [hfstate, hresumed.1] at hepoch
      exact hepoch
    · show ({ fenced.state with
          epoch := epoch
          bootSequence := bootSequence
          boot := ids.freshBoot
          incarnation := ids.freshIncarnation } : EpochState) = _
      rw [hfstate, hresumed.1]
    · rw [hj]
      exact hcommitted.trans (by rw [← hpayload]; rfl)
  · cases herror

end PartitionRuntime

/-! ## What a store keeps without faults -/

namespace DurableStore

/-- A store that has met no faults, and whose records have exact length fields: the disk holds what
was acknowledged, under limits that let it be loaded. -/
structure Unharmed (store : DurableStore) : Prop where
  consistent : ∃ (limits : Limits) (covered : Nat),
    Consistent { store with limits := limits } covered
  faultless : store.faults = []
  narrow : store.limits.maxRecordBytes < 2 ^ 32

/-- Consistency asks of the limits that they are wide enough. -/
theorem Consistent.widen {store : DurableStore} {covered : Nat} (h : Consistent store covered)
    {limits : Limits} (hrecord : store.limits.maxRecordBytes ≤ limits.maxRecordBytes)
    (hsnapshot : store.limits.maxSnapshotBytes ≤ limits.maxSnapshotBytes)
    (hjournal : store.limits.maxJournalRecords ≤ limits.maxJournalRecords) :
    Consistent { store with limits := limits } covered where
  holds := h.holds
  recorded := h.recorded
  fits record hr := (h.fits record hr).trans hrecord
  highest := h.highest
  within image himage := ⟨(h.within image himage).1.trans hsnapshot,
    (h.within image himage).2.trans hjournal⟩
  good := h.good
  solid := h.solid
  opened := h.opened

namespace Unharmed

variable {store : DurableStore}

/-- Limits under which a store is consistent may be taken as wide as one likes. -/
theorem consistent_under (h : store.Unharmed) (least : Limits) :
    ∃ limits covered, Consistent { store with limits := limits } covered ∧
      least.maxRecordBytes ≤ limits.maxRecordBytes ∧
      least.maxSnapshotBytes ≤ limits.maxSnapshotBytes ∧
      least.maxJournalRecords ≤ limits.maxJournalRecords := by
  obtain ⟨limits, covered, hc⟩ := h.consistent
  exact ⟨{ limits with
      maxRecordBytes := max limits.maxRecordBytes least.maxRecordBytes
      maxSnapshotBytes := max limits.maxSnapshotBytes least.maxSnapshotBytes
      maxJournalRecords := max limits.maxJournalRecords least.maxJournalRecords }, covered,
    hc.widen (Nat.le_max_left _ _) (Nat.le_max_left _ _) (Nat.le_max_left _ _),
    Nat.le_max_right _ _, Nat.le_max_right _ _, Nat.le_max_right _ _⟩

theorem append (h : store.Unharmed) (type : DurableRecordType) (sequence : UInt64)
    (payload : Bytes) :
    (store.append type sequence payload).2.Unharmed := by
  rcases store.append_cases ⟨type, sequence, payload⟩ with
    ⟨-, happend⟩ | ⟨haccepts, ⟨fault, hfault, -⟩ | ⟨-, happend⟩⟩
  · rw [happend]
    exact h
  · rw [h.faultless] at hfault
    cases hfault
  · rw [happend]
    obtain ⟨limits, covered, hc, hrecord, -, -⟩ := h.consistent_under store.limits
    have hrep : DurableRecord.Representable ⟨type, sequence, payload⟩ :=
      Nat.lt_of_le_of_lt haccepts.2.1 h.narrow
    refine ⟨⟨limits, covered, hc.appended ⟨haccepts.1, haccepts.2.1.trans hrecord, haccepts.2.2⟩
      hrep⟩, ?_, h.narrow⟩
    show store.faults.tail = []
    rw [h.faultless]
    rfl

theorem close (h : store.Unharmed) : store.close.Unharmed := by
  obtain ⟨limits, covered, hc⟩ := h.consistent
  exact ⟨⟨limits, covered, hc.close⟩, h.faultless, h.narrow⟩

theorem compact (h : store.Unharmed) : store.compact.2.Unharmed := by
  obtain ⟨limits, covered, hc, -, hsnapshot, hjournal⟩ := h.consistent_under
    { store.limits with maxJournalRecords := store.records.length }
  by_cases hbytes : (snapshotImage store.highestSequence store.records).length
      > store.limits.maxSnapshotBytes
  · rw [DurableStore.compact, if_pos hbytes]
    exact h
  · have hbytes' : ¬ (snapshotImage store.highestSequence store.records).length
        > limits.maxSnapshotBytes := by
      have : store.limits.maxSnapshotBytes ≤ limits.maxSnapshotBytes := hsnapshot
      omega
    obtain ⟨covered', hc', -, -, -⟩ := hc.compact fun _ => hjournal
    rw [DurableStore.compact, if_neg hbytes'] at hc'
    rw [DurableStore.compact, if_neg hbytes]
    dsimp only at hc' ⊢
    split at hc'
    · rename_i hclosed
      rw [if_pos hclosed]
      exact ⟨⟨limits, covered', hc'⟩, h.faultless, h.narrow⟩
    · rename_i hopen
      rw [if_neg hopen]
      exact ⟨⟨limits, covered', hc'⟩, h.faultless, h.narrow⟩

/-- **An unharmed store is loaded as it was**, if it is loaded at all. -/
theorem load (h : store.Unharmed) {limits : Limits}
    (hok : ({ limits := limits, disk := store.disk } : DurableStore).load.1.ok = true)
    (hnarrow : limits.maxRecordBytes < 2 ^ 32) :
    ({ limits := limits, disk := store.disk } : DurableStore).load.2.records = store.records ∧
      ({ limits := limits, disk := store.disk } : DurableStore).load.2.openForAppend.Unharmed := by
  obtain ⟨_, covered, hc⟩ := h.consistent
  let object : DurableStore := { limits := limits, disk := store.disk }
  have hscan : (DurableStore.scanDisk object.limits object.disk).refusal = none :=
    (load_ok_iff _).mp hok
  obtain ⟨hfits, hwithin⟩ := within_of_scanDisk hc.holds hc.recorded hscan
  have hrecovers : object.Recovers store.records [] :=
    recovers hc.holds hc.recorded hfits hwithin (tornTail_nil _) hc.solid rfl rfl
  obtain ⟨-, hloaded, -, ⟨⟨covered', hc'⟩, -, hfaults⟩, -, hlimits⟩ := hrecovers
  exact ⟨hloaded, ⟨_, covered', hc'⟩, hfaults, by rwa [hlimits]⟩

end Unharmed

end DurableStore

namespace PartitionRuntime

/-- The store of a journal is unharmed. -/
def Journal.Unharmed (j : Journal) : Prop := ∃ store, j.1 = some store ∧ store.Unharmed

theorem Journal.Unharmed.representable {j : Journal} (h : Journal.Unharmed j) :
    ∀ record ∈ Journal.records j, record.Representable := by
  obtain ⟨store, hstore, hunharmed⟩ := h
  obtain ⟨_, _, hc⟩ := hunharmed.consistent
  rw [Journal.records, hstore]
  exact hc.recorded.representable

theorem commitJournal_unharmed {j : Journal} (h : Journal.Unharmed j) (type : DurableRecordType)
    (payload : Bytes) : Journal.Unharmed (commitJournal type payload j).2 := by
  obtain ⟨store, hstore, hkept⟩ := h
  obtain ⟨_, sequence⟩ := j
  cases hstore
  rw [commitJournal]
  -- the sum is opaque from here on: unfolded, its 64-bit bound is counted down
  generalize checkedAdd sequence 1 = sum
  rcases sum with _ | next
  · exact ⟨store, rfl, hkept⟩
  · have happend := hkept.append type next payload
    dsimp only
    rcases hout : store.append type next payload with ⟨_ | _, store'⟩
    · rw [hout] at happend
      exact ⟨store', rfl, happend⟩
    · rw [hout] at happend
      exact ⟨store', rfl, happend⟩

theorem commitAll_unharmed (log : List Entry) {j : Journal} (h : Journal.Unharmed j) :
    Journal.Unharmed (commitAll log j) := by
  induction log generalizing j with
  | nil => exact h
  | cons entry log ih =>
    rw [commitAll_cons]
    exact ih (commitJournal_unharmed h _ _)

/-- A write commits at most one record. -/
theorem Write.commits {x y : Point} (h : Write x y) : y.1.journal = x.1.journal ∨
    ∃ type payload, y.1.journal = (commitJournal type payload x.1.journal).2 := by
  rcases h with h | _ | _ | _ | _ | ⟨_, _, _⟩ | ⟨_, _, hcommit, _⟩ | ⟨_, _, hcommit, _⟩ | ⟨_, h⟩ | _
  · exact .inl h.journal
  · exact .inr ⟨_, _, rfl⟩
  · exact .inl rfl
  · dsimp only
    rw [publishDecision]
    dsimp only
    split
    · exact .inr ⟨_, _, rfl⟩
    · exact .inl rfl
  · exact .inl rfl
  · dsimp only
    rw [storeFence]
    split
    · exact .inl rfl
    · exact .inr ⟨_, _, rfl⟩
  · exact .inr ⟨_, _, congrArg (fun out => out.2.journal) hcommit.symm⟩
  · exact .inr ⟨_, _, congrArg (fun out => out.2.journal) hcommit.symm⟩
  · exact .inr ⟨_, _, h⟩
  · exact .inl rfl

theorem Along.unharmed {p : Option DecisionSequence} {r r' : PartitionRuntime} (h : Along p r r')
    (hr : Journal.Unharmed r.journal) : Journal.Unharmed r'.journal := by
  have hall : ∀ y : Point, Writes (r, p) y → Journal.Unharmed y.1.journal := by
    intro y hy
    induction hy with
    | refl => exact hr
    | tail _ hstep ih =>
      rcases hstep.commits with hsame | ⟨type, payload, hcommit⟩
      · rw [hsame]
        exact ih
      · rw [hcommit]
        exact commitJournal_unharmed ih type payload
  exact hall _ h

theorem withFaults_journal {r : PartitionRuntime} (hr : Journal.Unharmed r.journal) :
    (r.withFaults []).journal = r.journal := by
  obtain ⟨store, hstore, hkept⟩ := hr
  have hsame : r.store = some store := hstore
  rw [withFaults, journal, journal, hsame, Option.map_some]
  show (some { store with faults := [] }, r.durableSequence) = _
  rw [← hkept.faultless]

theorem close_unharmed {r : PartitionRuntime} (hr : Journal.Unharmed r.journal) :
    Journal.Unharmed r.close.journal := by
  obtain ⟨store, hstore, hkept⟩ := hr
  have hsame : r.store = some store := hstore
  rw [close]
  split
  · exact ⟨store, hstore, hkept⟩
  · refine ⟨_, by rw [journal, hsame]; rfl, ?_⟩
    split
    · exact hkept.compact.close
    · exact hkept.close

theorem advanceTicks_journal (delta : UInt64) (r : PartitionRuntime) :
    (advanceTicks delta r).2.journal = r.journal := by
  rw [advanceTicks]
  split
  · rfl
  · generalize checkedAdd r.state.tick delta = sum
    rcases sum with _ | _ <;> rfl

/-- Starting an operation writes nothing to the journal, but for `close`. -/
theorem started_journal (r : PartitionRuntime) (operation : Operation) :
    (r.started operation).journal = r.journal ∨
      operation = .close ∧ (r.started operation).journal = r.close.journal := by
  have hadmitted : ∀ attempt kind d, (r.admitted attempt kind d).journal = r.journal := by
    intro attempt kind d
    rw [admitted]
    split <;> rfl
  rcases operation with delta | _ | _ | _ | _ | _ | _ | _ | _ | _ | _ | _ | _
  · exact .inl (advanceTicks_journal delta r)
  all_goals first
    | exact .inl (hadmitted _ _ _)
    | exact .inr ⟨rfl, rfl⟩
    | exact .inl rfl

/-- **A call without faults** keeps the store. -/
theorem call_unharmed {r : PartitionRuntime} {c : Call} (hr : Journal.Unharmed r.journal)
    (hc : c.faults = []) : Journal.Unharmed (r.call c).2.journal := by
  rw [call, hc]
  have hwith : Journal.Unharmed (r.withFaults []).journal := by
    rw [withFaults_journal hr]
    exact hr
  refine (perform_writes (r.withFaults []) c.operation).unharmed ?_
  rcases started_journal (r.withFaults []) c.operation with hsame | ⟨-, hclose⟩
  · rw [hsame]
    exact hwith
  · rw [hclose]
    exact close_unharmed hwith

/-- **A start on an unharmed store** finds what was acknowledged, and keeps it. -/
theorem Revived.unharmed {options : RuntimeOptions} {disk : Disk} {ids : BootIdentities}
    {r restored : PartitionRuntime} (h : Revived options disk ids [] r restored)
    (hnarrow : options.limits.maxRecordBytes < 2 ^ 32) {store : DurableStore}
    (hstore : store.Unharmed) (hdisk : store.disk = disk) :
    loadedRecords options disk = store.records ∧ Journal.Unharmed r.journal := by
  subst hdisk
  obtain ⟨hrecords, hkept⟩ := hstore.load h.loaded hnarrow
  obtain ⟨log, hlog⟩ := h.commits
  refine ⟨hrecords, ?_⟩
  rw [hlog]
  exact commitAll_unharmed log ⟨_, rfl, hkept⟩

end PartitionRuntime

/-- A moment without I/O errors, in the life of durable runtimes whose records fit their length
field. -/
def Moment.Undisturbed : Moment → Prop
  | .called s => s.call.faults = []
  | .restarted _ options _ faults _ =>
    options.durable = true ∧ faults = [] ∧ options.limits.maxRecordBytes < 2 ^ 32

instance : (m : Moment) → Decidable m.Undisturbed
  | .called _ => inferInstanceAs (Decidable (_ = _))
  | .restarted _ _ _ _ _ => inferInstanceAs (Decidable (_ ∧ _ ∧ _))

namespace PartitionRuntime

/-- An undisturbed restart revives what was acknowledged. -/
theorem restart_revives {before after : PartitionRuntime} {options : RuntimeOptions}
    {ids : BootIdentities} {faults : List (Option AppendFault)}
    (h : Happened (.restarted before options ids faults after))
    (hundisturbed : (Moment.restarted before options ids faults after).Undisturbed)
    (hkept : Journal.Unharmed before.journal) :
    ∃ restored, Revived options before.remains ids [] after restored ∧
      loadedRecords options before.remains = Journal.records before.journal ∧
      Journal.Unharmed after.journal := by
  obtain ⟨hdurable, rfl, hnarrow⟩ := hundisturbed
  obtain ⟨restored, hrevived⟩ := construct_revived hdurable h
  obtain ⟨store, hstore, hstoreKept⟩ := hkept
  have hsame : before.store = some store := hstore
  have hdisk : store.disk = before.remains := by rw [remains, hsame]; rfl
  obtain ⟨hrecords, hafter⟩ := hrevived.unharmed hnarrow hstoreKept hdisk
  refine ⟨restored, hrevived, ?_, hafter⟩
  rw [hrecords, Journal.records, journal, hsame]
  rfl

/-- **A history without I/O errors** keeps the store all along. -/
theorem history_unharmed {r : PartitionRuntime} {incidents : List Incident}
    (hr : Journal.Unharmed r.journal) (h : ∀ m ∈ r.history incidents, m.Undisturbed) :
    ∀ m ∈ r.history incidents, Happened m ∧ Journal.Unharmed m.before.journal ∧
      Journal.Unharmed m.after.journal := by
  refine history_invariant (P := fun r => Journal.Unharmed r.journal) hr
    fun m hm hhappened hbefore => ?_
  rcases m with s | ⟨before, options, ids, faults, after⟩
  · show Journal.Unharmed s.after.journal
    rw [show s.after = (s.before.call s.call).2 from congrArg Prod.snd hhappened]
    exact call_unharmed hbefore (h _ hm)
  · obtain ⟨-, -, -, hafter⟩ := restart_revives hhappened (h _ hm) hbefore
    exact hafter

/-- The first incarnation, on an empty disk. -/
theorem first_unharmed {options : RuntimeOptions} {ids : BootIdentities} {r : PartitionRuntime}
    (hdurable : options.durable = true) (hnarrow : options.limits.maxRecordBytes < 2 ^ 32)
    (h : construct options {} ids [] = (.ok (), r)) :
    (∃ restored, Revived options {} ids [] r restored) ∧ loadedRecords options {} = [] ∧
      Journal.Unharmed r.journal := by
  obtain ⟨restored, hrevived⟩ := construct_revived hdurable h
  have hempty : DurableStore.Unharmed { limits := options.limits, disk := {} } :=
    ⟨⟨options.limits, 0, DurableStore.Consistent.empty options.limits⟩, rfl, hnarrow⟩
  obtain ⟨hrecords, hkept⟩ := hrevived.unharmed hnarrow hempty rfl
  exact ⟨⟨restored, hrevived⟩, hrecords, hkept⟩

/-! ## Before a method writes -/

/-- The members that stand still while a method is started: faults are handed out, the clock moves, an
attempt is recorded or the store is closed. -/
structure Opens (r r' : PartitionRuntime) : Prop where
  options : r'.options = r.options
  lineage : r'.lineage = r.lineage
  decisions : r'.decisions = r.decisions
  fences : r'.fences = r.fences
  interrupted : r'.interrupted = r.interrupted
  assessment : r'.assessment = r.assessment
  partitions : r'.partitions = r.partitions
  state : r'.state = { r.state with
    tick := r'.state.tick
    attemptSequence := r'.state.attemptSequence }
  records : Journal.records r'.journal = Journal.records r.journal

theorem Opens.refl (r : PartitionRuntime) : Opens r r := ⟨rfl, rfl, rfl, rfl, rfl, rfl, rfl, rfl, rfl⟩

theorem advanceTicks_opens (delta : UInt64) (r : PartitionRuntime) :
    Opens r (r.advanceTicks delta).2 := by
  rw [advanceTicks]
  split
  · exact .refl r
  · generalize checkedAdd r.state.tick delta = sum
    rcases sum with _ | _ <;> exact ⟨rfl, rfl, rfl, rfl, rfl, rfl, rfl, rfl, rfl⟩

theorem close_opens (r : PartitionRuntime) : Opens r r.close := by
  have hrecords := close_records r
  rw [close] at hrecords ⊢
  split at hrecords
  · rename_i hclosed
    rw [if_pos hclosed]
    exact .refl r
  · rename_i hopen
    rw [if_neg hopen]
    exact ⟨rfl, rfl, rfl, rfl, rfl, rfl, rfl, rfl, hrecords⟩

theorem started_opens (r : PartitionRuntime) (operation : Operation) :
    Opens r (r.started operation) := by
  have hadmitted : ∀ attempt kind d, Opens r (r.admitted attempt kind d) := by
    intro attempt kind d
    rw [admitted]
    split
    · exact .refl r
    · exact ⟨rfl, rfl, rfl, rfl, rfl, rfl, rfl, rfl, rfl⟩
  rcases operation with delta | _ | _ | _ | _ | _ | _ | _ | _ | _ | _ | _ | _
  · exact advanceTicks_opens delta r
  all_goals first
    | exact hadmitted _ _ _
    | exact close_opens r
    | exact .refl r

theorem withFaults_opens (faults : List (Option AppendFault)) (r : PartitionRuntime) :
    Opens r (r.withFaults faults) := by
  refine ⟨rfl, rfl, rfl, rfl, rfl, rfl, rfl, rfl, ?_⟩
  rcases hstore : r.store with _ | store <;>
    simp only [withFaults, journal, Journal.records, hstore, Option.map_none, Option.map_some]

theorem Opens.trans {r s t : PartitionRuntime} (h : Opens r s) (h' : Opens s t) : Opens r t where
  options := h'.options.trans h.options
  lineage := h'.lineage.trans h.lineage
  decisions := h'.decisions.trans h.decisions
  fences := h'.fences.trans h.fences
  interrupted := h'.interrupted.trans h.interrupted
  assessment := h'.assessment.trans h.assessment
  partitions := h'.partitions.trans h.partitions
  state := by
    rw [h'.state, h.state]
  records := h'.records.trans h.records

/-- **A call** is opened, and then it writes. -/
theorem call_opens (r : PartitionRuntime) (c : Call) :
    ∃ s, Opens r s ∧ Along none s (r.call c).2 :=
  ⟨_, (withFaults_opens c.faults r).trans (started_opens _ c.operation),
    perform_writes (r.withFaults c.faults) c.operation⟩

/-! ## What no write moves -/

/-- The members that stand still while a method writes. -/
structure Steady (r r' : PartitionRuntime) : Prop where
  options : r'.options = r.options
  closed : r'.closed = r.closed
  epoch : r'.state.epoch = r.state.epoch
  boot : r'.state.boot = r.state.boot
  attemptSequence : r'.state.attemptSequence = r.state.attemptSequence
  tick : r'.state.tick = r.state.tick

namespace Steady

theorem refl (r : PartitionRuntime) : Steady r r := ⟨rfl, rfl, rfl, rfl, rfl, rfl⟩

theorem trans {r s t : PartitionRuntime} (h : Steady r s) (h' : Steady s t) : Steady r t where
  options := h'.options.trans h.options
  closed := h'.closed.trans h.closed
  epoch := h'.epoch.trans h.epoch
  boot := h'.boot.trans h.boot
  attemptSequence := h'.attemptSequence.trans h.attemptSequence
  tick := h'.tick.trans h.tick

end Steady

theorem commitRecord_steady {type : DurableRecordType} {payload : Bytes} {r s : PartitionRuntime}
    {committed : Bool} (h : commitRecord type payload r = (committed, s)) : Steady r s := by
  obtain rfl : (commitRecord type payload r).2 = s := congrArg Prod.snd h
  exact ⟨rfl, rfl, rfl, rfl, rfl, rfl⟩

/-- One write. -/
theorem Write.steady {x y : Point} (h : Write x y) : Steady x.1 y.1 := by
  rcases h with h | _ | _ | _ | _ | ⟨_, _, _⟩ | ⟨_, _, hcommit, _⟩ | ⟨_, _, hcommit, _⟩ | ⟨h, _⟩ | _
  · exact ⟨h.options, h.closed, h.epoch, h.boot, h.attemptSequence, h.tick⟩
  · exact commitRecord_steady rfl
  · exact ⟨rfl, rfl, rfl, rfl, rfl, rfl⟩
  · dsimp only
    rw [publishDecision]
    dsimp only
    split <;> exact ⟨rfl, rfl, rfl, rfl, rfl, rfl⟩
  · exact .refl _
  · dsimp only
    rw [storeFence]
    split
    · exact ⟨rfl, rfl, rfl, rfl, rfl, rfl⟩
    · exact ⟨rfl, rfl, rfl, rfl, rfl, rfl⟩
  · exact (commitRecord_steady hcommit).trans ⟨rfl, rfl, rfl, rfl, rfl, rfl⟩
  · exact commitRecord_steady hcommit
  · exact ⟨h.options, h.closed, h.epoch, h.boot, h.attemptSequence, h.tick⟩
  · exact ⟨rfl, rfl, rfl, rfl, rfl, rfl⟩

/-- **A method that has been started moves neither the clock nor the attempt floor**, and the epoch
and the identities of the incarnation stay. -/
theorem Along.steady {p : Option DecisionSequence} {r r' : PartitionRuntime} (h : Along p r r') :
    Steady r r' := by
  have hall : ∀ y : Point, Writes (r, p) y → Steady r y.1 := by
    intro y hy
    induction hy with
    | refl => exact .refl r
    | tail _ hstep ih => exact ih.trans hstep.steady
  exact hall _ h

end PartitionRuntime

end FabricPartition
