import FabricPartition.EpochStates
import FabricPartition.Service

/-!
# Outages

The process may die at any byte of what it is writing to its journal: between two calls, inside a
call, or inside the start that follows.  The next start under the same options finds every record that
was acknowledged, and of what was being written the records that had arrived whole.

* `DurableStore.Grows`, `Left` — a journal that has only been appended to, and what a cut leaves of it;
* `Passage` — the life of a store as steps between running and dead processes;
* `outages_lose_nothing` — records are never lost, and every start enters an epoch above all that were
  ever entered before.
-/

set_option autoImplicit false

namespace FabricPartition

open Frames

/-- A disk whose journal ends after some bytes. -/
def Disk.cut (disk : Disk) (length : Nat) : Disk :=
  { disk with journal := disk.journal.map (·.take length) }

/-- The length of the journal of a disk. -/
def Disk.written (disk : Disk) : Nat := (disk.journal.getD []).length

namespace DurableStore

/-! ## Cuts -/

/-- A store has appended some records, and written nothing else. -/
structure Grows (store : DurableStore) (added : List DurableRecord) (store' : DurableStore) :
    Prop where
  records : store'.records = store.records ++ added
  limits : store'.limits = store.limits
  disk : ∃ journal, store.disk.journal = some journal ∧
    store'.disk = { store.disk with journal := some (journal ++ stream encodeRecord added) }
  fits : ∀ record ∈ added, record.payload.length ≤ store.limits.maxRecordBytes

/-- What a dead process has left on a disk: some records, and perhaps the front part of one more. -/
structure Left (limits : Limits) (disk : Disk) (records : List DurableRecord) : Prop where
  holds : ∃ covered tail, disk.Holds records covered tail ∧ TornTail limits tail
  recorded : Recorded records
  solid : disk.journal ≠ some []

namespace Grows

variable {store s t : DurableStore} {added more : List DurableRecord}

theorem refl {journal : Bytes} (h : store.disk.journal = some journal) : Grows store [] store where
  records := (List.append_nil _).symm
  limits := rfl
  disk := ⟨journal, h, by simp [← h]⟩
  fits := by simp

theorem trans (h : Grows store added s) (h' : Grows s more t) : Grows store (added ++ more) t where
  records := by rw [h'.records, h.records, List.append_assoc]
  limits := h'.limits.trans h.limits
  disk := by
    obtain ⟨journal, hjournal, hdisk⟩ := h.disk
    obtain ⟨journal', hjournal', hdisk'⟩ := h'.disk
    refine ⟨journal, hjournal, ?_⟩
    rw [hdisk] at hjournal' hdisk'
    obtain rfl := Option.some.inj hjournal'
    simp [hdisk']
  fits record hrecord := by
    rcases List.mem_append.mp hrecord with hrecord | hrecord
    · exact h.fits record hrecord
    · rw [← h.limits]
      exact h'.fits record hrecord

/-- The journal is still there. -/
theorem journal (h : Grows store added s) : ∃ journal, s.disk.journal = some journal := by
  obtain ⟨journal, -, hdisk⟩ := h.disk
  exact ⟨_, congrArg Disk.journal hdisk⟩

end Grows

/-- One append, without a fault: the record is added, or refused. -/
theorem append_grows {store : DurableStore} {journal : Bytes} (hfaults : store.faults = [])
    (hjournal : store.disk.journal = some journal) (record : DurableRecord) :
    (∃ store', store.append record.type record.sequence record.payload = (true, store') ∧
        Grows store [record] store') ∨
      store.append record.type record.sequence record.payload = (false, store) := by
  rcases store.append_cases record with ⟨-, happend⟩ | ⟨haccepts, ⟨fault, hfault, -⟩ | ⟨-, happend⟩⟩
  · exact .inr happend
  · rw [hfaults] at hfault
    cases hfault
  · refine .inl ⟨_, happend, rfl, rfl, ⟨journal, hjournal, ?_⟩, by simpa using haccepts.2.1⟩
    show ({ store.disk with journal := some (store.disk.journal.getD [] ++ encodeRecord record) } :
      Disk) = _
    simp [hjournal]

/-- **A cut behind what was there** leaves it, and of what was added the records that had arrived
whole. -/
theorem Grows.cut_left {store store' : DurableStore} {added : List DurableRecord}
    (h : Grows store added store') (hstore : store.Unharmed) (hstore' : store'.Unharmed) (n : Nat) :
    Left store.limits (store'.disk.cut (store.disk.written + n))
      (store.records ++ whole encodeRecord n added) := by
  obtain ⟨journal, hjournal, hdisk⟩ := h.disk
  obtain ⟨_, covered, hc⟩ := hstore.consistent
  obtain ⟨_, _, hc'⟩ := hstore'.consistent
  have hfront := whole_prefix encodeRecord n added
  have hcut : store'.disk.cut (store.disk.written + n) = { store.disk with
      journal := some (journal ++ (stream encodeRecord (whole encodeRecord n added)
        ++ remnant encodeRecord n added)) } := by
    simp [Disk.cut, Disk.written, hdisk, hjournal, List.take_append, take_stream]
  have hrecorded' : Recorded (store.records ++ added) := h.records ▸ hc'.recorded
  have hrecorded : Recorded (store.records ++ whole encodeRecord n added) :=
    hrecorded'.of_prefix ((List.prefix_append_right_inj _).mpr hfront)
  have htail : TornTail store.limits (remnant encodeRecord n added) := by
    rcases remnant_cases encodeRecord n added with hnil | ⟨record, hrecord, k, hk, hremnant⟩
    · rw [hnil]
      exact tornTail_nil _
    · exact ⟨record, hrecorded'.representable record (List.mem_append_right _ hrecord),
        h.fits record hrecord, k, hk, hremnant⟩
  rw [hcut]
  refine ⟨⟨covered, _, ⟨?_, ?_, ?_⟩, htail⟩, hrecorded, ?_⟩
  · have hle : covered ≤ store.records.length := hc.holds.covered_le
    rw [List.length_append]
    exact Nat.le_add_right_of_le hle
  · rw [List.take_append_of_le_length hc.holds.covered_le]
    exact hc.holds.snapshot
  · rcases hc.holds.journal with ⟨hnone | hempty, -, -⟩ | ⟨start, hstart, hsome⟩
    · exact absurd (hjournal.symm.trans hnone) (by simp)
    · exact absurd hempty hc.solid
    · refine .inr ⟨start, hstart, ?_⟩
      have hle : start ≤ store.records.length := hstart.trans hc.holds.covered_le
      obtain rfl := Option.some.inj (hjournal.symm.trans hsome)
      simp [List.drop_append_of_le_length hle]
  · intro hempty
    have hnil : journal = [] := by simpa using (List.append_eq_nil_iff.mp (Option.some.inj hempty)).1
    exact hc.solid (by rw [← hnil]; exact hjournal)

/-- Nothing is cut off a store that has nothing to write. -/
theorem Unharmed.left {store : DurableStore} (h : store.Unharmed) :
    Left store.limits store.disk store.records := by
  obtain ⟨_, covered, hc⟩ := h.consistent
  exact ⟨⟨covered, [], hc.holds, tornTail_nil _⟩, hc.recorded, hc.solid⟩

/-- **What was left is loaded**, if the disk is loaded at all, and the journal goes on from there. -/
theorem Left.load {limits : Limits} {disk : Disk} {records : List DurableRecord}
    (h : Left limits disk records) (hnarrow : limits.maxRecordBytes < 2 ^ 32)
    (hok : ({ limits := limits, disk := disk } : DurableStore).load.1.ok = true) :
    ({ limits := limits, disk := disk } : DurableStore).load.2.records = records ∧
      ({ limits := limits, disk := disk } : DurableStore).load.2.openForAppend.Unharmed ∧
      ({ limits := limits, disk := disk } : DurableStore).load.2.openForAppend.limits = limits ∧
      ∃ journal, ({ limits := limits, disk := disk } : DurableStore).load.2.openForAppend.disk.journal
        = some journal := by
  obtain ⟨covered, tail, hholds, htail⟩ := h.holds
  let object : DurableStore := { limits := limits, disk := disk }
  have hscan : (scanDisk object.limits object.disk).refusal = none := object.load_ok_iff.mp hok
  obtain ⟨hfits, hwithin⟩ := within_of_scanDisk hholds h.recorded hscan
  have hrecovers : object.Recovers records tail :=
    recovers hholds h.recorded hfits hwithin htail h.solid rfl rfl
  obtain ⟨⟨covered', hc⟩, -, hfaults⟩ := hrecovers.sound
  have hlimits : object.load.2.openForAppend.limits = limits := hrecovers.limits
  exact ⟨hrecovers.loaded, ⟨⟨_, covered', hc⟩, hfaults, by rwa [hlimits]⟩, hlimits,
    Option.ne_none_iff_exists'.mp (hc.opened hrecovers.isOpen)⟩

end DurableStore

namespace PartitionRuntime

open DurableStore

/-! ## Journals that grow -/

/-- The journal of a store that is open under some limits, and has met no fault. -/
def Journal.Afloat (limits : Limits) (j : Journal) : Prop :=
  ∃ store bytes, j.1 = some store ∧ store.Unharmed ∧ store.limits = limits ∧
    store.disk.journal = some bytes

/-- Some records were appended to a journal. -/
def Journal.Grows (j : Journal) (added : List DurableRecord) (k : Journal) : Prop :=
  ∃ store store', j.1 = some store ∧ k.1 = some store' ∧ store.Grows added store'

namespace Journal

variable {limits : Limits} {j k l : Journal} {added more : List DurableRecord}

theorem Afloat.unharmed (h : Journal.Afloat limits j) : Journal.Unharmed j := by
  obtain ⟨store, _, hstore, hunharmed, -⟩ := h
  exact ⟨store, hstore, hunharmed⟩

theorem Afloat.grows_nil (h : Journal.Afloat limits j) : Journal.Grows j [] j := by
  obtain ⟨store, _, hstore, -, -, hbytes⟩ := h
  exact ⟨store, store, hstore, hstore, .refl hbytes⟩

theorem Grows.trans (h : Journal.Grows j added k) (h' : Journal.Grows k more l) :
    Journal.Grows j (added ++ more) l := by
  obtain ⟨store, s, hstore, hs, hgrows⟩ := h
  obtain ⟨s', t, hs', ht, hgrows'⟩ := h'
  obtain rfl := Option.some.inj (hs.symm.trans hs')
  exact ⟨store, t, hstore, ht, hgrows.trans hgrows'⟩

theorem Grows.records (h : Journal.Grows j added k) :
    Journal.records k = Journal.records j ++ added := by
  obtain ⟨store, store', hstore, hstore', hgrows⟩ := h
  simp [Journal.records, hstore, hstore', hgrows.records]

theorem Grows.afloat (h : Journal.Grows j added k) (hj : Journal.Afloat limits j)
    (hk : Journal.Unharmed k) : Journal.Afloat limits k := by
  obtain ⟨store, store', hstore, hstore', hgrows⟩ := h
  obtain ⟨s, -, hs, -, hlimits, -⟩ := hj
  obtain rfl := Option.some.inj (hstore.symm.trans hs)
  obtain ⟨s', hs', hunharmed⟩ := hk
  obtain rfl := Option.some.inj (hstore'.symm.trans hs')
  obtain ⟨bytes, hbytes⟩ := hgrows.journal
  exact ⟨store', bytes, hstore', hunharmed, hgrows.limits.trans hlimits, hbytes⟩

end Journal

/-- **One commit** appends its record, or is refused and appends nothing. -/
theorem commitJournal_grows {limits : Limits} {j : Journal} (h : Journal.Afloat limits j)
    (type : DurableRecordType) (payload : Bytes) :
    (∃ sequence k, commitJournal type payload j = (true, k) ∧
        Journal.Grows j [⟨type, sequence, payload⟩] k) ∨
      ∃ k, commitJournal type payload j = (false, k) ∧ Journal.Grows j [] k := by
  have hnil := h.grows_nil
  obtain ⟨store, bytes, hstore, hunharmed, -, hbytes⟩ := h
  obtain ⟨_, sequence⟩ := j
  cases hstore
  rw [commitJournal]
  -- the sum is opaque from here on: unfolded, its 64-bit bound is counted down
  generalize checkedAdd sequence 1 = sum
  rcases sum with _ | next
  · exact .inr ⟨_, rfl, hnil⟩
  · rcases append_grows hunharmed.faultless hbytes ⟨type, next, payload⟩ with
      ⟨store', happend, hgrows⟩ | happend
    · dsimp only at happend ⊢
      rw [happend]
      exact .inl ⟨next, _, rfl, store, store', rfl, rfl, hgrows⟩
    · dsimp only at happend ⊢
      rw [happend]
      exact .inr ⟨_, rfl, hnil⟩

theorem commitAll_grows {limits : Limits} (log : List Entry) {j : Journal}
    (h : Journal.Afloat limits j) :
    ∃ added, Journal.Grows j added (commitAll log j) ∧
      ∀ record ∈ added, ∃ entry ∈ log, record.type = entry.1 := by
  induction log generalizing j with
  | nil => exact ⟨[], h.grows_nil, by simp⟩
  | cons entry log ih =>
    rw [commitAll_cons]
    have hkept := commitJournal_unharmed h.unharmed entry.1 entry.2
    rcases commitJournal_grows h entry.1 entry.2 with ⟨_, _, hout, hfirst⟩ | ⟨_, hout, hfirst⟩ <;>
      rw [hout] at hkept ⊢
    · obtain ⟨rest, hrest, htypes⟩ := ih (hfirst.afloat h hkept)
      refine ⟨_, hfirst.trans hrest, fun record hrecord => ?_⟩
      rcases List.mem_append.mp hrecord with hrecord | hrecord
      · obtain rfl := List.mem_singleton.mp hrecord
        exact ⟨entry, List.mem_cons_self, rfl⟩
      · obtain ⟨later, hlater, heq⟩ := htypes record hrecord
        exact ⟨later, List.mem_cons_of_mem _ hlater, heq⟩
    · obtain ⟨rest, hrest, htypes⟩ := ih (hfirst.afloat h hkept)
      refine ⟨_, hfirst.trans hrest, fun record hrecord => ?_⟩
      obtain ⟨later, hlater, heq⟩ := htypes record hrecord
      exact ⟨later, List.mem_cons_of_mem _ hlater, heq⟩

/-- What a method writes to its journal, it appends. -/
theorem Along.grows {limits : Limits} {p : Option DecisionSequence} {r r' : PartitionRuntime}
    (h : Along p r r') (hr : Journal.Afloat limits r.journal) :
    Journal.Afloat limits r'.journal ∧ ∃ added, Journal.Grows r.journal added r'.journal := by
  have hall : ∀ y : Point, Writes (r, p) y → Journal.Afloat limits y.1.journal ∧
      ∃ added, Journal.Grows r.journal added y.1.journal := by
    intro y hy
    induction hy with
    | refl => exact ⟨hr, [], hr.grows_nil⟩
    | tail _ hstep ih =>
      obtain ⟨hfloat, added, hgrows⟩ := ih
      rcases hstep.commits with hsame | ⟨type, payload, hcommit⟩
      · rw [hsame]
        exact ⟨hfloat, added, hgrows⟩
      · have hkept := commitJournal_unharmed hfloat.unharmed type payload
        rcases commitJournal_grows hfloat type payload with ⟨_, _, hout, hmore⟩ | ⟨_, hout, hmore⟩ <;>
          (rw [hout] at hkept hcommit
           rw [hcommit]
           exact ⟨hmore.afloat hfloat hkept, _, hgrows.trans hmore⟩)
  exact hall _ h

/-- **A call without faults** appends to the journal, but for `close`. -/
theorem call_grows {limits : Limits} {r : PartitionRuntime} {c : Call}
    (hr : Journal.Afloat limits r.journal) (hc : c.faults = []) (hopen : c.operation ≠ .close) :
    Journal.Afloat limits (r.call c).2.journal ∧
      ∃ added, Journal.Grows r.journal added (r.call c).2.journal := by
  have hsame : ((r.withFaults []).started c.operation).journal = r.journal := by
    rcases started_journal (r.withFaults []) c.operation with hsame | ⟨hclose, -⟩
    · exact hsame.trans (withFaults_journal hr.unharmed)
    · exact absurd hclose hopen
  rw [call, hc]
  have hwrites := (perform_writes (r.withFaults []) c.operation).grows (by rwa [hsame])
  rwa [hsame] at hwrites

/-- `compact` writes a journal of its own. -/
theorem compact_afloat {store : DurableStore} {bytes : Bytes}
    (h : store.disk.journal = some bytes) :
    store.compact.2.limits = store.limits ∧
      ∃ bytes', store.compact.2.disk.journal = some bytes' := by
  rw [DurableStore.compact]
  dsimp only
  split
  · exact ⟨rfl, bytes, h⟩
  · split
    · exact ⟨rfl, bytes, h⟩
    · exact ⟨rfl, _, rfl⟩

/-- A journal that is closed is still there. -/
theorem close_afloat {limits : Limits} {r : PartitionRuntime}
    (hr : Journal.Afloat limits r.journal) : Journal.Afloat limits r.close.journal := by
  have hunharmed := close_unharmed hr.unharmed
  obtain ⟨store, bytes, hstore, hkept, hlimits, hbytes⟩ := hr
  have hsame : r.store = some store := hstore
  rw [close] at hunharmed ⊢
  split
  · exact ⟨store, bytes, hstore, hkept, hlimits, hbytes⟩
  · rename_i hopen
    rw [if_neg hopen] at hunharmed
    obtain ⟨store', hstore', hkept'⟩ := hunharmed
    have hnow : store' = (if r.options.compactOnClose then store.compact.2 else store).close := by
      simpa [PartitionRuntime.journal, hsame] using hstore'.symm
    obtain ⟨hcompact, bytes', hbytes'⟩ := compact_afloat hbytes
    refine ⟨store', if r.options.compactOnClose then bytes' else bytes, hstore', hkept', ?_, ?_⟩
    · rw [hnow]
      split
      · exact hcompact.trans hlimits
      · exact hlimits
    · rw [hnow]
      split
      · exact hbytes'
      · exact hbytes

/-- **A call without faults** loses no record. -/
theorem call_afloat {limits : Limits} {r : PartitionRuntime} {c : Call}
    (hr : Journal.Afloat limits r.journal) (hc : c.faults = []) :
    Journal.Afloat limits (r.call c).2.journal ∧
      ∃ added, Journal.records (r.call c).2.journal = Journal.records r.journal ++ added := by
  by_cases hclose : c.operation = .close
  · have hsame := withFaults_journal hr.unharmed
    rw [call, hc, hclose]
    refine ⟨close_afloat (by rwa [hsame]), [], ?_⟩
    rw [List.append_nil, ← hsame]
    exact close_records _
  · obtain ⟨hafloat, added, hgrows⟩ := call_grows hr hc hclose
    exact ⟨hafloat, added, hgrows.records⟩

/-! ## Dates -/

/-- Once an epoch was entered, the last epoch state among some records is not below it. -/
def EpochKept (records : List DurableRecord) (epoch : Nat) : Prop :=
  0 < epoch → ∃ state, LastState records state ∧ epoch ≤ state.epoch.value.toNat

theorem EpochKept.mono {records : List DurableRecord} {epoch epoch' : Nat} (h : EpochKept records epoch)
    (hle : epoch' ≤ epoch) : EpochKept records epoch' := by
  intro hpos
  obtain ⟨state, hlast, hepoch⟩ := h (hpos.trans_le hle)
  exact ⟨state, hlast, hle.trans hepoch⟩

theorem lastState_of_epochStates {records front : List DurableRecord} {sequence : UInt64}
    {state : EpochState}
    (h : epochStates records = front ++ [⟨.epochState, sequence, encodeEpochState state⟩]) :
    LastState records state := by
  obtain ⟨xs, ys, rfl, -, hys⟩ := List.filter_eq_append_iff.mp h
  obtain ⟨zs, back, rfl, -, -, hback⟩ := List.filter_eq_cons_iff.mp hys
  refine ⟨xs ++ zs, sequence, back, by simp, fun record hrecord => ?_⟩
  simpa using List.filter_eq_nil_iff.mp hback record hrecord

/-- Some records hold no epoch state, or one that is not below an epoch. -/
def Adds (added : List DurableRecord) (epoch : Nat) : Prop :=
  epochStates added = [] ∨ ∃ sequence state,
    epochStates added = [⟨.epochState, sequence, encodeEpochState state⟩] ∧
      epoch ≤ state.epoch.value.toNat

/-- **A front part of what is added keeps the date.** -/
theorem EpochKept.append {records added front : List DurableRecord} {epoch : Nat}
    (h : EpochKept records epoch) (hfront : front <+: added) (hadded : Adds added epoch) :
    EpochKept (records ++ front) epoch := by
  have hprefix : epochStates front <+: epochStates added := hfront.filter _
  have hnone : epochStates front = [] → EpochKept (records ++ front) epoch := by
    intro hnil hpos
    obtain ⟨state, hlast, hepoch⟩ := h hpos
    refine ⟨state, hlast.append fun record hrecord htype => ?_, hepoch⟩
    have hmem := mem_epochStates.mpr ⟨hrecord, htype⟩
    rw [hnil] at hmem
    cases hmem
  rcases hadded with hnil | ⟨sequence, state, hone, hepoch⟩
  · rw [hnil, List.prefix_nil] at hprefix
    exact hnone hprefix
  · rw [hone, List.prefix_cons_iff] at hprefix
    rcases hprefix with hnil | ⟨rest, hsame, hrest⟩
    · exact hnone hnil
    · have hgrown : epochStates (records ++ front) =
          epochStates records ++ [⟨.epochState, sequence, encodeEpochState state⟩] := by
        rw [epochStates_append, hsame, List.prefix_nil.mp hrest]
      exact fun _ => ⟨state, lastState_of_epochStates hgrown, hepoch⟩

/-- What a call adds to the epoch states is of the epoch of its incarnation. -/
theorem call_adds {r : PartitionRuntime} {c : Call} {added : List DurableRecord}
    (hadded : Journal.records (r.call c).2.journal = Journal.records r.journal ++ added) :
    Adds added r.state.epoch.value.toNat := by
  rcases call_epochStates r c with hsame | ⟨allowRestore, a, outcome, t, sequence, hcommits, hgrown⟩
  · rw [hadded, epochStates_append] at hsame
    exact .inl (List.append_right_eq_self.mp hsame)
  · rw [hadded, epochStates_append] at hgrown
    refine .inr ⟨sequence, t.state, List.append_cancel_left hgrown, ?_⟩
    obtain ⟨_, _, hopening⟩ := hcommits.opening
    have hassess := assessLocked_consulted hcommits.commits.assesses
    rw [hassess.epoch, hopening.epoch]
    exact le_rfl

/-- What was restored put the last epoch state in force. -/
theorem Restored.lastEpochState_of_last {records : List DurableRecord} {r r' : PartitionRuntime}
    (h : Restored records r r') {state : EpochState} (hlast : LastState records state) :
    PartitionRuntime.lastEpochState r.limits records = some state := by
  obtain ⟨front, sequence, back, rfl, hback⟩ := hlast
  have hnone : back.reverse.find? (fun record => record.type = .epochState) = none := by
    simpa using hback
  obtain ⟨state', hpayload, hdecodes, -⟩ :=
    h.epochStates_read (mem_epochStates.mpr ⟨List.mem_append_right _ List.mem_cons_self, rfl⟩)
  obtain rfl := encodeEpochState_injective hpayload
  simp [PartitionRuntime.lastEpochState, List.find?_append, hnone, hdecodes]

/-! ## Starts -/

/-- **A start on what was left** finds it, enters an epoch above every one that was entered before,
and appends what it writes. -/
theorem Revived.grows {options : RuntimeOptions} {disk : Disk} {ids : BootIdentities}
    {r restored : PartitionRuntime} {records : List DurableRecord} {epoch : Nat}
    (h : Revived options disk ids [] r restored) (hnarrow : options.limits.maxRecordBytes < 2 ^ 32)
    (hleft : Left options.limits disk records) (hdated : EpochKept records epoch) :
    loadedRecords options disk = records ∧ epoch < r.state.epoch.value.toNat ∧
      Journal.Afloat options.limits r.journal ∧ EpochKept (Journal.records r.journal)
        r.state.epoch.value.toNat ∧ ∃ added, Adds added r.state.epoch.value.toNat ∧
          Journal.Grows (openedJournal { limits := options.limits, disk := disk }) added r.journal ∧
          Journal.records r.journal = records ++ added := by
  obtain ⟨hrecords, hunharmed, hlimits, bytes, hbytes⟩ := hleft.load hnarrow h.loaded
  have hopen : Journal.Afloat options.limits
      (openedJournal { limits := options.limits, disk := disk }) :=
    ⟨_, bytes, rfl, hunharmed, hlimits, hbytes⟩
  obtain ⟨log, hlog⟩ := h.commits
  obtain ⟨added, hgrows, -⟩ := commitAll_grows log hopen
  rw [← hlog] at hgrows
  have hkept : Journal.Unharmed r.journal := by
    rw [hlog]
    exact commitAll_unharmed log hopen.unharmed
  have hloaded : Journal.records (openedJournal { limits := options.limits, disk := disk })
      = records := (openForAppend_records _).trans hrecords
  have hall : Journal.records r.journal = records ++ added := by rw [hgrows.records, hloaded]
  obtain ⟨-, sequence, hstates⟩ := h.epochStates
  rw [show loadedRecords options disk = records from hrecords, hall, epochStates_append] at hstates
  have hadds : PartitionRuntime.epochStates added
      = [⟨.epochState, sequence, encodeEpochState r.state⟩] :=
    List.append_cancel_left hstates
  have habove : epoch < r.state.epoch.value.toNat := by
    obtain ⟨_, _, next, _, _, -, -, -, hnext, hstate, -⟩ := h.entered
    have hsucc : r.state.epoch.value.toNat
        = (durableState options disk ids).epoch.value.toNat + 1 := by
      rw [hstate]
      exact Counter.next_toNat hnext
    rcases Nat.eq_zero_or_pos epoch with rfl | hpos
    · omega
    · obtain ⟨state, hlast, hle⟩ := hdated hpos
      obtain ⟨fresh, hrestored, hoptions, -⟩ := h.restores
      rw [show loadedRecords options disk = records from hrecords] at hrestored
      have hfound := hrestored.lastEpochState_of_last hlast
      rw [show fresh.limits = options.limits from congrArg RuntimeOptions.limits hoptions] at hfound
      rw [durableState, show loadedRecords options disk = records from hrecords, hfound] at hsucc
      have : r.state.epoch.value.toNat = state.epoch.value.toNat + 1 := hsucc
      omega
  have hgrown : PartitionRuntime.epochStates (Journal.records r.journal)
      = PartitionRuntime.epochStates records
        ++ [⟨.epochState, sequence, encodeEpochState r.state⟩] := by
    rw [hall, epochStates_append, hadds]
  exact ⟨hrecords, habove, hgrows.afloat hopen hkept,
    fun _ => ⟨r.state, lastState_of_epochStates hgrown, le_rfl⟩, added,
    .inr ⟨sequence, r.state, hadds, le_rfl⟩, hgrows, hall⟩

/-- **A start that gives up** loses nothing. -/
theorem Aborted.left {limits : Limits} {disk : Disk} {records : List DurableRecord} {epoch : Nat}
    {j : Journal} (h : Aborted { limits := limits, disk := disk } j)
    (hnarrow : limits.maxRecordBytes < 2 ^ 32) (hleft : Left limits disk records)
    (hdated : EpochKept records epoch) :
    ∃ store added, j.1 = some store ∧ Left limits store.disk (records ++ added) ∧
      EpochKept (records ++ added) epoch := by
  have hfenced : ∀ fences : List FenceRecord,
      DurableStore.load { limits := limits, disk := disk } |>.1.ok = true →
      Journal.Afloat limits (commitAll (fences.map fenceEntry)
        (openedJournal { limits := limits, disk := disk })) ∧
      ∃ added, Journal.records (commitAll (fences.map fenceEntry)
        (openedJournal { limits := limits, disk := disk })) = records ++ added ∧
        EpochKept (records ++ added) epoch := by
    intro fences hloaded
    obtain ⟨hrecords, hunharmed, hlimits, bytes, hbytes⟩ := hleft.load hnarrow hloaded
    have hopen : Journal.Afloat limits (openedJournal { limits := limits, disk := disk }) :=
      ⟨_, bytes, rfl, hunharmed, hlimits, hbytes⟩
    obtain ⟨added, hgrows, htypes⟩ := commitAll_grows (fences.map fenceEntry) hopen
    have hloadedRecords : Journal.records (openedJournal { limits := limits, disk := disk })
        = records := (openForAppend_records _).trans hrecords
    refine ⟨hgrows.afloat hopen (commitAll_unharmed _ hopen.unharmed), added, ?_, ?_⟩
    · rw [hgrows.records, hloadedRecords]
    · refine hdated.append (List.prefix_refl added) (.inl ?_)
      refine List.filter_eq_nil_iff.mpr fun record hrecord => ?_
      obtain ⟨entry, hentry, htype⟩ := htypes record hrecord
      obtain ⟨fence, -, rfl⟩ := List.mem_map.mp hentry
      rw [htype]
      exact of_decide_eq_true rfl
  have hafloat : ∀ {k : Journal}, Journal.Afloat limits k →
      (∃ added, Journal.records k = records ++ added ∧ EpochKept (records ++ added) epoch) →
      ∃ store added, k.1 = some store ∧ Left limits store.disk (records ++ added) ∧
        EpochKept (records ++ added) epoch := by
    rintro k ⟨store, bytes, hstore, hunharmed, rfl, -⟩ ⟨added, hrecords, hdate⟩
    refine ⟨store, added, hstore, ?_, hdate⟩
    rw [← hrecords, Journal.records, hstore]
    exact hunharmed.left
  cases h with
  | @unopened object sequence hobject =>
    refine ⟨object, [], rfl, ?_, by simpa using hdated⟩
    rw [List.append_nil]
    rcases hobject with rfl | rfl
    · exact hleft
    · rw [DurableStore.load_snd]
      exact hleft
  | fenced hloaded fences =>
    obtain ⟨hopen, hrecords⟩ := hfenced fences hloaded
    exact hafloat hopen hrecords
  | @refused payload _ hloaded fences hrefused =>
    obtain ⟨hopen, hrecords⟩ := hfenced fences hloaded
    rcases commitJournal_grows hopen .epochState payload with ⟨_, _, hout, -⟩ | ⟨k, hout, hgrows⟩
    · cases hout.symm.trans hrefused
    · cases hout.symm.trans hrefused
      have hkept := commitJournal_unharmed hopen.unharmed .epochState payload
      rw [hout] at hkept
      refine hafloat (hgrows.afloat hopen hkept) ?_
      rwa [hgrows.records, List.append_nil]

end PartitionRuntime

/-! ## Worlds -/

/-- A process that runs on a disk, or a disk that a dead process has left. -/
inductive World where
  | running (r : PartitionRuntime)
  | down (disk : Disk)

open PartitionRuntime

/-- **The steps in the life of a store** under some options, no write of which is refused by the system
below.  A call completes, or the process is killed before it, or at any byte of what the call writes; a
start completes, or gives up, or is killed at any byte of what it writes. -/
inductive Passage (options : RuntimeOptions) : World → World → Prop
  | called {r : PartitionRuntime} {c : Call} (hfaults : c.faults = []) :
      Passage options (.running r) (.running (r.call c).2)
  | killed {r : PartitionRuntime} : Passage options (.running r) (.down r.remains)
  | cut {r : PartitionRuntime} {c : Call} (hfaults : c.faults = []) (hopen : c.operation ≠ .close)
      (n : Nat) :
      Passage options (.running r) (.down ((r.call c).2.remains.cut (r.remains.written + n)))
  | started {disk : Disk} {ids : BootIdentities} {r : PartitionRuntime}
      (h : construct options disk ids = (.ok (), r)) : Passage options (.down disk) (.running r)
  | refused {disk : Disk} {ids : BootIdentities} {e : PartitionError} {r : PartitionRuntime}
      (h : construct options disk ids = (.error e, r)) : Passage options (.down disk) (.down r.remains)
  | cutStart {disk : Disk} {ids : BootIdentities} {r : PartitionRuntime}
      (h : construct options disk ids = (.ok (), r)) (n : Nat) :
      Passage options (.down disk) (.down (r.remains.cut
        (({ limits := options.limits, disk := disk } : DurableStore).load.2.openForAppend.disk.written
          + n)))

/-- What a world keeps: some records, and behind the last of them no epoch below one that was
entered. -/
inductive World.Keeps (options : RuntimeOptions) (records : List DurableRecord) (epoch : Nat) :
    World → Prop
  | running {r : PartitionRuntime} (hjournal : Journal.Afloat options.limits r.journal)
      (hrecords : Journal.records r.journal = records)
      (hkept : EpochKept records r.state.epoch.value.toNat)
      (hepoch : epoch ≤ r.state.epoch.value.toNat) : World.Keeps options records epoch (.running r)
  | down {disk : Disk} (hleft : DurableStore.Left options.limits disk records)
      (hkept : EpochKept records epoch) : World.Keeps options records epoch (.down disk)

namespace PartitionRuntime

theorem Journal.Afloat.left {limits : Limits} {r : PartitionRuntime}
    (h : Journal.Afloat limits r.journal) :
    DurableStore.Left limits r.remains (Journal.records r.journal) := by
  obtain ⟨store, _, hstore, hunharmed, rfl, -⟩ := h
  have hsame : r.store = some store := hstore
  rw [remains, Journal.records, hstore, hsame]
  exact hunharmed.left

theorem Journal.Afloat.written {limits : Limits} {r : PartitionRuntime}
    (h : Journal.Afloat limits r.journal) :
    (r.journal.1.map (·.disk.written)).getD 0 = r.remains.written := by
  obtain ⟨store, _, hstore, -, -, -⟩ := h
  have hsame : r.store = some store := hstore
  rw [remains, hstore, hsame]
  rfl

/-- What a cut leaves of a journal that grew. -/
theorem Journal.Grows.cut_left {limits : Limits} {j : Journal} {r : PartitionRuntime}
    {added : List DurableRecord} (h : Journal.Grows j added r.journal)
    (hj : Journal.Afloat limits j) (hr : Journal.Unharmed r.journal) (n : Nat) :
    DurableStore.Left limits
      (r.remains.cut ((j.1.map (·.disk.written)).getD 0 + n))
      (Journal.records j ++ whole encodeRecord n added) := by
  obtain ⟨store, store', hstore, hstore', hgrows⟩ := h
  obtain ⟨s, -, hs, hunharmed, rfl, -⟩ := hj
  obtain rfl := Option.some.inj (hstore.symm.trans hs)
  obtain ⟨s', hs', hunharmed'⟩ := hr
  obtain rfl := Option.some.inj (hstore'.symm.trans hs')
  have hsame : r.store = some store' := hstore'
  rw [remains, Journal.records, hstore, hsame]
  exact hgrows.cut_left hunharmed hunharmed' n

/-- A start on what was left, as a step of the store. -/
theorem construct_grows {options : RuntimeOptions} {disk : Disk} {ids : BootIdentities}
    {r : PartitionRuntime} {records : List DurableRecord} {epoch : Nat}
    (hdurable : options.durable = true) (hnarrow : options.limits.maxRecordBytes < 2 ^ 32)
    (hleft : DurableStore.Left options.limits disk records) (hkept : EpochKept records epoch)
    (h : construct options disk ids = (.ok (), r)) :
    epoch < r.state.epoch.value.toNat ∧ Journal.Afloat options.limits r.journal ∧
      EpochKept (Journal.records r.journal) r.state.epoch.value.toNat ∧
      ∃ added, Journal.records r.journal = records ++ added ∧
        ∀ n, ∃ front, front <+: added ∧
          DurableStore.Left options.limits (r.remains.cut
            (({ limits := options.limits, disk := disk } :
              DurableStore).load.2.openForAppend.disk.written
              + n)) (records ++ front) ∧ EpochKept (records ++ front) epoch := by
  obtain ⟨restored, hrevived⟩ := construct_revived hdurable h
  obtain ⟨hloaded, habove, hafloat, hdated, added, hadds, hgrows, hall⟩ :=
    hrevived.grows hnarrow hleft hkept
  refine ⟨habove, hafloat, hdated, added, hall, fun n => ?_⟩
  obtain ⟨hrecords, hunharmed, hlimits, bytes, hbytes⟩ := hleft.load hnarrow hrevived.loaded
  have hopen : Journal.Afloat options.limits
      (openedJournal { limits := options.limits, disk := disk }) :=
    ⟨_, bytes, rfl, hunharmed, hlimits, hbytes⟩
  have hfront := whole_prefix encodeRecord n added
  have hcut := hgrows.cut_left hopen hafloat.unharmed n
  have hfirst : Journal.records (openedJournal { limits := options.limits, disk := disk })
      = records := (openForAppend_records _).trans hrecords
  rw [hfirst] at hcut
  refine ⟨_, hfront, hcut, hkept.append hfront ?_⟩
  rcases hadds with hnil | ⟨sequence, state, hone, hle⟩
  · exact .inl hnil
  · exact .inr ⟨sequence, state, hone, habove.le.trans hle⟩

end PartitionRuntime

open PartitionRuntime

/-- **One step in the life of a store** keeps its records and its epochs. -/
theorem Passage.keeps {options : RuntimeOptions} {w w' : World} {records : List DurableRecord}
    {epoch : Nat} (h : Passage options w w') (hdurable : options.durable = true)
    (hnarrow : options.limits.maxRecordBytes < 2 ^ 32) (hkeeps : w.Keeps options records epoch) :
    ∃ added, w'.Keeps options (records ++ added) epoch := by
  cases h with
  | @called r c hfaults =>
    obtain ⟨hjournal, hrecords, hkept, hepoch⟩ | _ := hkeeps
    obtain ⟨hafloat, added, hall⟩ := call_afloat hjournal hfaults
    subst hrecords
    refine ⟨added, .running hafloat hall ?_ (by rwa [call_epoch])⟩
    rw [call_epoch]
    exact hkept.append (List.prefix_refl added) (call_adds hall)
  | killed =>
    obtain ⟨hjournal, rfl, hkept, hepoch⟩ | _ := hkeeps
    exact ⟨[], .down (by simpa using hjournal.left) (by simpa using hkept.mono hepoch)⟩
  | @cut r c hfaults hopen n =>
    obtain ⟨hjournal, rfl, hkept, hepoch⟩ | _ := hkeeps
    obtain ⟨hafloat, added, hgrows⟩ := call_grows hjournal hfaults hopen
    have hcut := hgrows.cut_left hjournal hafloat.unharmed n
    rw [hjournal.written] at hcut
    exact ⟨_, .down hcut ((hkept.append ( whole_prefix encodeRecord n added)
      (call_adds hgrows.records)).mono hepoch)⟩
  | started hstart =>
    obtain _ | ⟨hleft, hkept⟩ := hkeeps
    obtain ⟨habove, hafloat, hdated, added, hall, -⟩ :=
      construct_grows hdurable hnarrow hleft hkept hstart
    exact ⟨added, .running hafloat hall (hall ▸ hdated) habove.le⟩
  | @refused disk ids e r hstart =>
    obtain _ | ⟨hleft, hkept⟩ := hkeeps
    rcases start_cases (unstarted_store hdurable _ _ _) hstart with ⟨hok, -⟩ | ⟨-, haborted⟩
    · cases hok
    · obtain ⟨store, added, hstore, hnow, hdated⟩ := haborted.left hnarrow hleft hkept
      refine ⟨added, .down ?_ hdated⟩
      rwa [show r.remains = store.disk by rw [remains, show r.store = some store from hstore]; rfl]
  | cutStart hstart n =>
    obtain _ | ⟨hleft, hkept⟩ := hkeeps
    obtain ⟨-, -, -, added, -, hcuts⟩ := construct_grows hdurable hnarrow hleft hkept hstart
    obtain ⟨front, -, hcut, hdated⟩ := hcuts n
    exact ⟨front, .down hcut hdated⟩

/-- **The life of a store** keeps its records and its epochs. -/
theorem passages_keep {options : RuntimeOptions} {w w' : World} {records : List DurableRecord}
    {epoch : Nat} (hdurable : options.durable = true)
    (hnarrow : options.limits.maxRecordBytes < 2 ^ 32) (hkeeps : w.Keeps options records epoch)
    (h : Relation.ReflTransGen (Passage options) w w') :
    ∃ added, w'.Keeps options (records ++ added) epoch := by
  induction h with
  | refl => exact ⟨[], by rwa [List.append_nil]⟩
  | tail _ hstep ih =>
    obtain ⟨added, hmid⟩ := ih
    obtain ⟨more, hend⟩ := hstep.keeps hdurable hnarrow hmid
    exact ⟨added ++ more, by rwa [← List.append_assoc]⟩

/-- An empty disk keeps nothing. -/
theorem keeps_empty (options : RuntimeOptions) : (World.down {}).Keeps options [] 0 :=
  .down ⟨⟨0, [], (DurableStore.Consistent.empty options.limits).holds, tornTail_nil _⟩,
    (DurableStore.Consistent.empty options.limits).recorded, by simp⟩
    fun hpos => absurd hpos (Nat.lt_irrefl 0)

/-- A running process keeps what it has acknowledged, and its own epoch. -/
theorem keeps_running {options : RuntimeOptions} {r : PartitionRuntime}
    (hdurable : options.durable = true) (hnarrow : options.limits.maxRecordBytes < 2 ^ 32)
    (h : Relation.ReflTransGen (Passage options) (.down {}) (.running r)) :
    (World.running r).Keeps options (Journal.records r.journal) r.state.epoch.value.toNat := by
  obtain ⟨added, hkeeps⟩ := passages_keep hdurable hnarrow (keeps_empty options) h
  obtain ⟨hjournal, rfl, hkept, -⟩ := hkeeps
  exact .running hjournal rfl hkept le_rfl

/-- A process is one that ran before, some calls later, or entered an epoch above its epoch. -/
def SameOrLater (r : PartitionRuntime) : World → Prop
  | .running r' => (∃ calls : List Call, (∀ c ∈ calls, c.faults = []) ∧ r' = r.after calls) ∨
      r.state.epoch.value.toNat < r'.state.epoch.value.toNat
  | .down _ => True

theorem Passage.sameOrLater {options : RuntimeOptions} {r : PartitionRuntime} {w w' : World}
    {records : List DurableRecord} (h : Passage options w w') (hdurable : options.durable = true)
    (hnarrow : options.limits.maxRecordBytes < 2 ^ 32)
    (hkeeps : w.Keeps options records r.state.epoch.value.toNat) (hw : SameOrLater r w) :
    SameOrLater r w' := by
  cases h with
  | @called s c hfaults =>
    rcases hw with ⟨calls, hcalls, rfl⟩ | hlater
    · refine .inl ⟨calls ++ [c], fun d hd => ?_, (after_append r calls [c]).symm⟩
      rcases List.mem_append.mp hd with hd | hd
      · exact hcalls d hd
      · rwa [List.mem_singleton.mp hd]
    · refine .inr ?_
      rwa [call_epoch]
  | started hstart =>
    obtain _ | ⟨hleft, hkept⟩ := hkeeps
    exact .inr (construct_grows hdurable hnarrow hleft hkept hstart).1
  | killed | cut _ _ _ | refused _ | cutStart _ _ => exact trivial

/-- What the first process leaves, killed 20 bytes into the record of an adoption. -/
def tornDisk : Disk :=
  (durableRuntime.call ⟨.adoptTopology (smallTopology 1 ["a"]), []⟩).2.remains.cut
    (durableRuntime.remains.written + 20)

/-- The process that is started on it. -/
def secondRuntime : PartitionRuntime := (construct {} tornDisk default).2

theorem secondRuntime_started : construct {} tornDisk default = (.ok (), secondRuntime) := by
  have hcompletes : (construct {} tornDisk default).1.toBool = true := by decide +kernel
  rw [secondRuntime]
  generalize construct {} tornDisk default = out at hcompletes ⊢
  obtain ⟨_ | _, _⟩ := out
  · cases hcompletes
  · rfl

end FabricPartition
