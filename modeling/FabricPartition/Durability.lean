import FabricPartition.Recovery

/-!
# What a store keeps

A store that was only ever driven through its operations, none of which failed, keeps in memory what
its disk holds (`DurableStore.Consistent`), so that loading it again changes nothing.  Two slips
break this: `encode_record` cuts the length of a payload of 2³² bytes or more down to 32 bits, and
`write_snapshot` writes snapshots of more records than `load` accepts.  `Safe` excludes the two, and
`load_returns_acknowledged` is the law for every run of safe operations.

`torn_tail_recovery` is the law of the torn tail: a journal cut anywhere behind its header loads to
the records in front of the cut, and goes on from there.
-/

set_option autoImplicit false

namespace FabricPartition

open Frames

/-- The operations of a store.  `reopen` is a new `DurableStore` on the same directory, which its
contract has loaded before it is opened. -/
inductive StoreOp
  | append (record : DurableRecord)
  | compact
  | close
  | load
  | openForAppend
  | reopen

namespace DurableStore

/-- One operation. -/
def apply (store : DurableStore) : StoreOp → DurableStore
  | .append record => (store.append record.type record.sequence record.payload).2
  | .compact => store.compact.2
  | .close => store.close
  | .load => store.load.2
  | .openForAppend => store.openForAppend
  | .reopen => (DurableStore.load { limits := store.limits, disk := store.disk }).2

/-- The record an operation acknowledges. -/
def acks (store : DurableStore) : StoreOp → List DurableRecord
  | .append record =>
    if (store.append record.type record.sequence record.payload).1 then [record] else []
  | .compact | .close | .load | .openForAppend | .reopen => []

/-- The store after some operations. -/
def after : DurableStore → List StoreOp → DurableStore
  | store, [] => store
  | store, op :: ops => after (store.apply op) ops

/-- The records some operations acknowledge. -/
def acknowledged : DurableStore → List StoreOp → List DurableRecord
  | _, [] => []
  | store, op :: ops => store.acks op ++ acknowledged (store.apply op) ops

/-! ## Loading -/

theorem load_snd (store : DurableStore) :
    store.load.2 = { store with
      records := (scanDisk store.limits store.disk).records
      highestSequence := (scanDisk store.limits store.disk).highestSequence
      journalGoodBytes := if (scanDisk store.limits store.disk).refusal.isSome then 0
        else (scanDisk store.limits store.disk).offset } := by
  rw [load]
  generalize scanDisk store.limits store.disk = scan
  cases scan.refusal <;> rfl

theorem load_ok_iff (store : DurableStore) :
    store.load.1.ok = true ↔ (scanDisk store.limits store.disk).refusal = none := by
  rw [load]
  generalize scanDisk store.limits store.disk = scan
  cases scan.refusal <;> simp

theorem load_torn (store : DurableStore) (h : (scanDisk store.limits store.disk).refusal = none) :
    store.load.1.tornTailRecovered = (scanDisk store.limits store.disk).torn := by
  rw [load]
  generalize scanDisk store.limits store.disk = scan at h ⊢
  rw [h]

/-- Whatever the disk holds, a record that is loaded has an exact length field. -/
theorem load_representable (store : DurableStore) :
    ∀ record ∈ store.load.2.records, record.Representable := by
  intro record hr
  have hsnapshot : ∀ r ∈ (scanSnapshotFile store.limits store.disk.snapshot).records,
      r.Representable := by
    intro r hr
    cases hfile : store.disk.snapshot with
    | none =>
      rw [hfile] at hr
      cases hr
    | some image =>
      rw [hfile] at hr
      exact scanSnapshot_representable hr
  rw [load_snd, scanDisk] at hr
  dsimp only at hr
  split at hr
  · exact hsnapshot record hr
  · cases hjournal : store.disk.journal with
    | none =>
      rw [hjournal] at hr
      exact hsnapshot record hr
    | some journal =>
      rw [hjournal] at hr
      dsimp only at hr
      rw [scanJournal] at hr
      split at hr
      · exact hsnapshot record hr
      · cases hheader : validateHeader (journal.take storeHeaderBytes) journalMagic with
        | some code =>
          rw [hheader] at hr
          exact hsnapshot record hr
        | none =>
          rw [hheader] at hr
          rcases scanJournalRecords_representable _ _ _ hr with h | h
          · exact hsnapshot record h
          · exact h

/-! ## Consistency -/

/-- The store keeps in memory what its disk holds. -/
structure Consistent (store : DurableStore) (covered : Nat) : Prop where
  holds : store.disk.Holds store.records covered []
  recorded : Recorded store.records
  fits : ∀ record ∈ store.records, record.payload.length ≤ store.limits.maxRecordBytes
  highest : store.highestSequence = lastSequence 0 store.records
  within : store.disk.SnapshotWithin store.limits covered
  good : ∀ journal, store.disk.journal = some journal → store.journalGoodBytes = journal.length
  solid : store.disk.journal ≠ some []
  opened : store.isOpen = true → store.disk.journal ≠ none

/-- The append gets past its checks. -/
def Accepts (store : DurableStore) (record : DurableRecord) : Prop :=
  store.isOpen = true ∧ record.payload.length ≤ store.limits.maxRecordBytes ∧
    store.highestSequence < record.sequence

/-- The store after an append wrote some bytes. -/
def wrote (store : DurableStore) (bytes : Bytes) : DurableStore :=
  { store with
    disk := { store.disk with journal := some (store.disk.journal.getD [] ++ bytes) }
    faults := store.faults.tail }

/-- The store after a successful append. -/
def appended (store : DurableStore) (record : DurableRecord) : DurableStore :=
  { store.wrote (encodeRecord record) with
    records := store.records ++ [record]
    highestSequence := record.sequence
    journalGoodBytes := store.journalGoodBytes + (encodeRecord record).length }

/-- The bytes a failing append leaves behind: the front part of the record, or all of it. -/
def leftBehind (record : DurableRecord) : AppendFault → Bytes
  | .short written => (encodeRecord record).take (min written ((encodeRecord record).length - 1))
  | .unsynced => encodeRecord record

/-- **What an append does**: it refuses, fails or succeeds. -/
theorem append_cases (store : DurableStore) (record : DurableRecord) :
    ¬ store.Accepts record ∧
        store.append record.type record.sequence record.payload = (false, store) ∨
      store.Accepts record ∧
        ((∃ fault, store.faults.head?.join = some fault ∧
            store.append record.type record.sequence record.payload
              = (false, store.wrote (leftBehind record fault))) ∨
          store.faults.head?.join = none ∧
            store.append record.type record.sequence record.payload
              = (true, store.appended record)) := by
  by_cases hopen : store.isOpen = true
  · by_cases hbound : record.payload.length > store.limits.maxRecordBytes
    · refine .inl ⟨fun h => absurd h.2.1 (by omega), ?_⟩
      rw [append, if_neg (by simp [hopen]), if_pos hbound]
    · by_cases hseq : record.sequence ≤ store.highestSequence
      · refine .inl ⟨fun h => absurd hseq (UInt64.not_le.mpr h.2.2), ?_⟩
        rw [append, if_neg (by simp [hopen]), if_neg hbound, if_pos hseq]
      · refine .inr ⟨⟨hopen, by omega, UInt64.not_le.mp hseq⟩, ?_⟩
        rw [append, if_neg (by simp [hopen]), if_neg hbound, if_neg hseq]
        cases hfault : store.faults.head?.join with
        | none => exact .inr ⟨rfl, rfl⟩
        | some fault => cases fault <;> exact .inl ⟨_, rfl, rfl⟩
  · refine .inl ⟨fun h => hopen h.1, ?_⟩
    rw [append, if_pos (by simpa using hopen)]

namespace Consistent

variable {store : DurableStore} {covered : Nat}

/-- A store on an empty directory is consistent. -/
theorem empty (limits : Limits) : Consistent { limits := limits, disk := {} } 0 where
  holds := ⟨Nat.le_refl _, .inl ⟨rfl, rfl⟩, .inl ⟨.inl rfl, rfl, rfl⟩⟩
  recorded := ⟨trivial, fun _ h => nomatch h⟩
  fits := fun _ h => nomatch h
  highest := rfl
  within := fun _ h => nomatch h
  good := fun _ h => nomatch h
  solid := fun h => nomatch h
  opened := fun h => nomatch h

/-- Consistency is about the disk and what memory keeps of it. -/
theorem of_eq {store' : DurableStore} (h : Consistent store covered)
    (hlimits : store'.limits = store.limits) (hdisk : store'.disk = store.disk)
    (hrecords : store'.records = store.records)
    (hhighest : store'.highestSequence = store.highestSequence)
    (hgood : store'.journalGoodBytes = store.journalGoodBytes)
    (hopen : store'.isOpen = true → store.isOpen = true) : Consistent store' covered where
  holds := by
    rw [hdisk, hrecords]
    exact h.holds
  recorded := by
    rw [hrecords]
    exact h.recorded
  fits := by
    rw [hrecords, hlimits]
    exact h.fits
  highest := by
    rw [hhighest, hrecords]
    exact h.highest
  within := by
    rw [hdisk, hlimits]
    exact h.within
  good := by
    rw [hdisk, hgood]
    exact h.good
  solid := by
    rw [hdisk]
    exact h.solid
  opened := by
    rw [hdisk]
    exact fun ho => h.opened (hopen ho)

/-- A successful append keeps a store consistent. -/
theorem appended (h : Consistent store covered) {record : DurableRecord}
    (haccepts : store.Accepts record) (hrep : record.Representable) :
    Consistent (store.appended record) covered := by
  obtain ⟨hopen, hbound, hseq⟩ := haccepts
  obtain ⟨journal, hjournal⟩ := Option.ne_none_iff_exists'.mp (h.opened hopen)
  have hne : journal ≠ [] := by
    rintro rfl
    exact h.solid hjournal
  have hrecords : (store.appended record).records = store.records ++ [record] := rfl
  have hdisk : (store.appended record).disk.journal = some (journal ++ encodeRecord record) := by
    show some (store.disk.journal.getD [] ++ encodeRecord record) = _
    rw [hjournal]
    rfl
  have hle := h.holds.covered_le
  refine ⟨⟨?_, ?_, ?_⟩, ⟨?_, ?_⟩, ?_, ?_, h.within, ?_, ?_, ?_⟩
  · rw [hrecords, List.length_append]
    omega
  · rw [hrecords, List.take_append_of_le_length hle]
    exact h.holds.snapshot
  · rw [hrecords, hdisk]
    rcases h.holds.journal with ⟨hnone | hempty, -, -⟩ | ⟨start, hstart, hsome⟩
    · exact absurd hnone (h.opened hopen)
    · exact absurd hempty h.solid
    · refine .inr ⟨start, hstart, ?_⟩
      rw [hsome, List.append_nil] at hjournal
      rw [← Option.some.inj hjournal, List.drop_append_of_le_length (by omega), stream_append,
        stream_cons, stream_nil]
      simp only [List.append_assoc, List.append_nil]
  · rw [hrecords]
    refine ascends_append.mpr ⟨h.recorded.ascends, ?_, trivial⟩
    rw [← h.highest]
    exact hseq
  · intro r hr
    rw [hrecords] at hr
    rcases List.mem_append.mp hr with hr | hr
    · exact h.recorded.representable r hr
    · rw [List.mem_singleton.mp hr]
      exact hrep
  · intro r hr
    rw [hrecords] at hr
    rcases List.mem_append.mp hr with hr | hr
    · exact h.fits r hr
    · rw [List.mem_singleton.mp hr]
      exact hbound
  · rw [hrecords, lastSequence_append]
    rfl
  · intro journal' hjournal'
    rw [hdisk] at hjournal'
    rw [← Option.some.inj hjournal', List.length_append, ← h.good journal hjournal]
    rfl
  · rw [hdisk]
    simp [hne]
  · rw [hdisk]
    simp

/-- Loading a consistent store finds what it keeps. -/
theorem scan (h : Consistent store covered) :
    scanDisk store.limits store.disk = loadedScan store.disk store.records [] :=
  scanDisk_of_holds h.holds h.recorded h.fits h.within (tornTail_nil _)

theorem load_ok (h : Consistent store covered) :
    store.load.1.ok = true ∧ store.load.1.tornTailRecovered = false := by
  have hok : (scanDisk store.limits store.disk).refusal = none := by
    rw [h.scan]
    rfl
  refine ⟨store.load_ok_iff.mpr hok, ?_⟩
  rw [load_torn store hok, h.scan]
  rfl

theorem load_snd (h : Consistent store covered) :
    store.load.2 = { store with
      journalGoodBytes := (store.disk.journal.getD []).length } := by
  rw [DurableStore.load_snd, h.scan, loadedScan, ← h.highest]
  rfl

theorem load (h : Consistent store covered) : Consistent store.load.2 covered := by
  rw [h.load_snd]
  refine ⟨h.holds, h.recorded, h.fits, h.highest, h.within, ?_, h.solid, h.opened⟩
  intro journal hjournal
  rw [show store.disk.journal = some journal from hjournal]
  rfl

theorem close (h : Consistent store covered) : Consistent store.close covered :=
  h.of_eq rfl rfl rfl rfl rfl (fun hopen => nomatch hopen)

/-- Opening a journal creates it, or finds nothing to cut off. -/
theorem openForAppend (h : Consistent store covered) :
    Consistent store.openForAppend covered := by
  rw [DurableStore.openForAppend]
  split
  · exact h
  · cases hjournal : store.disk.journal with
    | none =>
      have hcovered : covered = store.records.length := by
        rcases h.holds.journal with ⟨-, hcovered, -⟩ | ⟨start, -, hsome⟩
        · exact hcovered
        · rw [hjournal] at hsome
          cases hsome
      refine ⟨⟨h.holds.covered_le, h.holds.snapshot, .inr ⟨covered, Nat.le_refl _, ?_⟩⟩,
        h.recorded, h.fits, h.highest, h.within, ?_, ?_, fun _ => nofun⟩
      · rw [hcovered, List.drop_length, stream_nil]
        simp
      · intro journal hsome
        rw [← Option.some.inj hsome, journalHeader_length]
        rfl
      · intro hempty
        exact absurd (congrArg List.length (Option.some.inj hempty)) (by
          rw [journalHeader_length]
          simp)
    | some journal =>
      have hcut : ¬ (store.journalGoodBytes > 0 ∧ journal.length > store.journalGoodBytes) := by
        rw [h.good journal hjournal]
        omega
      simp only [if_neg hcut]
      have hdisk : { store.disk with journal := some journal } = store.disk := by
        rw [← hjournal]
      rw [hdisk]
      refine ⟨h.holds, h.recorded, h.fits, h.highest, h.within, h.good, h.solid, fun _ => ?_⟩
      rw [hjournal]
      simp

/-- Compacting a store of no more records than a snapshot may have keeps it consistent. -/
theorem compact (h : Consistent store covered)
    (hcount : (snapshotOf store.records).length ≤ store.limits.maxSnapshotBytes →
      store.records.length ≤ store.limits.maxJournalRecords) :
    ∃ covered', Consistent store.compact.2 covered' ∧ store.compact.2.records = store.records ∧
      store.compact.2.limits = store.limits ∧ store.compact.2.faults = store.faults := by
  have himage : snapshotImage store.highestSequence store.records = snapshotOf store.records := by
    rw [h.highest]
    rfl
  rw [DurableStore.compact, himage]
  dsimp only
  split
  · exact ⟨covered, h, rfl, rfl, rfl⟩
  · rename_i hbytes
    have hwithin : ({ store.disk with snapshot := some (snapshotOf store.records) } : Disk).SnapshotWithin
        store.limits store.records.length := by
      intro image hsome
      rw [← Option.some.inj hsome]
      exact ⟨by omega, hcount (by omega)⟩
    have hsnapshot : some (snapshotOf store.records)
        = some (snapshotOf (store.records.take store.records.length)) := by
      rw [List.take_length]
    split
    · refine ⟨store.records.length, ⟨⟨Nat.le_refl _, .inr hsnapshot, ?_⟩, h.recorded, h.fits,
        h.highest, hwithin, h.good, h.solid, h.opened⟩, rfl, rfl, rfl⟩
      rcases h.holds.journal with ⟨hnone, -, -⟩ | ⟨start, hstart, hsome⟩
      · exact .inl ⟨hnone, rfl, rfl⟩
      · exact .inr ⟨start, hstart.trans h.holds.covered_le, hsome⟩
    · refine ⟨store.records.length, ⟨⟨Nat.le_refl _, .inr hsnapshot,
        .inr ⟨store.records.length, Nat.le_refl _, ?_⟩⟩, h.recorded, h.fits, h.highest, hwithin,
        ?_, ?_, fun _ => nofun⟩, rfl, rfl, rfl⟩
      · rw [List.drop_length, stream_nil]
        simp
      · intro journal hsome
        rw [← Option.some.inj hsome, journalHeader_length]
        rfl
      · intro hempty
        exact absurd (congrArg List.length (Option.some.inj hempty)) (by
          rw [journalHeader_length]
          simp)

end Consistent

/-! ## Runs -/

/-- The operation appends no payload whose length its length field cannot hold, and writes no
snapshot of more records than loading accepts. -/
def Safe (store : DurableStore) : StoreOp → Prop
  | .append record => store.Accepts record → record.Representable
  | .compact =>
    (snapshotImage store.highestSequence store.records).length ≤ store.limits.maxSnapshotBytes →
      store.records.length ≤ store.limits.maxJournalRecords
  | .close | .load | .openForAppend | .reopen => True

/-- Every operation of the run is safe where it is made. -/
def SafeRun : DurableStore → List StoreOp → Prop
  | _, [] => True
  | store, op :: ops => store.Safe op ∧ SafeRun (store.apply op) ops

instance (store : DurableStore) (record : DurableRecord) : Decidable (store.Accepts record) :=
  inferInstanceAs (Decidable (_ ∧ _))

instance (record : DurableRecord) : Decidable record.Representable :=
  inferInstanceAs (Decidable (_ < _))

instance (store : DurableStore) : (op : StoreOp) → Decidable (store.Safe op)
  | .append _ => inferInstanceAs (Decidable (_ → _))
  | .compact => inferInstanceAs (Decidable (_ → _))
  | .close | .load | .openForAppend | .reopen => .isTrue trivial

instance SafeRun.decidable : (store : DurableStore) → (ops : List StoreOp) →
    Decidable (SafeRun store ops)
  | _, [] => .isTrue trivial
  | store, op :: ops =>
    @instDecidableAnd _ _ inferInstance (SafeRun.decidable (store.apply op) ops)

/-- A store that meets no faults. -/
structure Sound (store : DurableStore) (records : List DurableRecord) : Prop where
  consistent : ∃ covered, Consistent store covered
  records : store.records = records
  faultless : store.faults = []

/-- **One safe operation** keeps a store sound, and adds what it acknowledges. -/
theorem Sound.apply {store : DurableStore} {records : List DurableRecord} {op : StoreOp}
    (h : store.Sound records) (hsafe : store.Safe op) :
    (store.apply op).Sound (records ++ store.acks op) ∧ (store.apply op).limits = store.limits := by
  obtain ⟨⟨covered, hc⟩, rfl, hfaults⟩ := h
  cases op with
  | append record =>
    rcases store.append_cases record with ⟨-, hrefused⟩ | ⟨haccepts, ⟨fault, hfault, -⟩ | ⟨-, hok⟩⟩
    · rw [DurableStore.apply, acks, hrefused]
      exact ⟨⟨⟨covered, hc⟩, by simp, hfaults⟩, rfl⟩
    · rw [hfaults] at hfault
      cases hfault
    · rw [DurableStore.apply, acks, hok]
      refine ⟨⟨⟨covered, hc.appended haccepts (hsafe haccepts)⟩, rfl, ?_⟩, rfl⟩
      show store.faults.tail = []
      rw [hfaults]
      rfl
  | compact =>
    have hcount : (snapshotOf store.records).length ≤ store.limits.maxSnapshotBytes →
        store.records.length ≤ store.limits.maxJournalRecords := by
      rw [snapshotOf, ← hc.highest]
      exact hsafe
    obtain ⟨covered', hc', hrecords, hlimits, hfaults'⟩ := hc.compact hcount
    refine ⟨⟨⟨covered', hc'⟩, ?_, hfaults'.trans hfaults⟩, hlimits⟩
    rw [acks, List.append_nil]
    exact hrecords
  | close => exact ⟨⟨⟨covered, hc.close⟩, by rw [acks, List.append_nil]; rfl, hfaults⟩, rfl⟩
  | load =>
    refine ⟨⟨⟨covered, hc.load⟩, ?_, ?_⟩, ?_⟩
    · rw [DurableStore.apply, acks, List.append_nil, hc.load_snd]
    · rw [DurableStore.apply, hc.load_snd]
      exact hfaults
    · rw [DurableStore.apply, hc.load_snd]
  | openForAppend =>
    refine ⟨⟨⟨covered, hc.openForAppend⟩, ?_, ?_⟩, ?_⟩ <;>
      rw [DurableStore.apply, DurableStore.openForAppend]
    · rw [acks, List.append_nil]
      split
      · rfl
      · split <;> rfl
    · split
      · exact hfaults
      · split <;> exact hfaults
    · split
      · rfl
      · split <;> rfl
  | reopen =>
    have hscan := hc.scan
    have hsnd : (DurableStore.load { limits := store.limits, disk := store.disk }).2
        = { limits := store.limits
            disk := store.disk
            records := store.records
            highestSequence := store.highestSequence
            journalGoodBytes := (store.disk.journal.getD []).length } := by
      rw [DurableStore.load_snd, hscan, loadedScan, ← hc.highest]
      rfl
    refine ⟨⟨⟨covered, ?_⟩, ?_, ?_⟩, ?_⟩
    · rw [DurableStore.apply, hsnd]
      refine ⟨hc.holds, hc.recorded, hc.fits, hc.highest, hc.within, ?_, hc.solid,
        fun hopen => by cases hopen⟩
      intro journal hjournal
      rw [show store.disk.journal = some journal from hjournal]
      rfl
    · rw [DurableStore.apply, acks, List.append_nil, hsnd]
    · rw [DurableStore.apply, hsnd]
    · rw [DurableStore.apply, hsnd]

/-- **A run of safe operations** keeps a store sound. -/
theorem Sound.after {store : DurableStore} {records : List DurableRecord} {ops : List StoreOp}
    (h : store.Sound records) (hsafe : store.SafeRun ops) :
    (store.after ops).Sound (records ++ store.acknowledged ops) ∧
      (store.after ops).limits = store.limits := by
  induction ops generalizing store records with
  | nil => exact ⟨by rwa [acknowledged, List.append_nil], rfl⟩
  | cons op ops ih =>
    obtain ⟨hstep, hlimits⟩ := h.apply hsafe.1
    obtain ⟨hrun, hlimits'⟩ := ih hstep hsafe.2
    rw [acknowledged, ← List.append_assoc]
    exact ⟨hrun, hlimits'.trans hlimits⟩

theorem Sound.empty (limits : Limits) : Sound { limits := limits, disk := {} } [] :=
  ⟨⟨0, Consistent.empty limits⟩, rfl, rfl⟩

/-- **Compaction loses nothing.**  After any run of safe operations on a directory, loading it under
the same limits succeeds and returns the acknowledged records, in order, and their highest
sequence. -/
theorem load_returns_acknowledged (limits : Limits) (ops : List StoreOp)
    (hsafe : SafeRun { limits := limits, disk := {} } ops) (object : DurableStore)
    (hlimits : object.limits = limits)
    (hdisk : object.disk = (after { limits := limits, disk := {} } ops).disk) :
    object.load.1.ok = true ∧
      object.load.2.records = acknowledged { limits := limits, disk := {} } ops ∧
      object.load.2.highestSequence
        = lastSequence 0 (acknowledged { limits := limits, disk := {} } ops) := by
  subst hlimits
  obtain ⟨⟨⟨covered, hc⟩, hrecords, -⟩, hsame⟩ := (Sound.empty object.limits).after hsafe
  rw [List.nil_append] at hrecords
  have hscan := hc.scan
  rw [hsame, hrecords, ← hdisk] at hscan
  rw [load_ok_iff, load_snd, hscan]
  exact ⟨rfl, rfl, rfl⟩

/-- A record without a payload. -/
def blank (sequence : UInt64) : DurableRecord := { sequence := sequence }

theorem load_returns_compacted :
    let ops := [.openForAppend, .append (blank 1), .append (blank 2), .compact, .append (blank 3),
      .close, .reopen]
    let store := after { limits := {}, disk := {} } ops
    store.load.1.ok = true ∧ store.load.2.records = acknowledged { limits := {}, disk := {} } ops ∧
      store.load.2.highestSequence
        = lastSequence 0 (acknowledged { limits := {}, disk := {} } ops) :=
  load_returns_acknowledged {} _ (by decide +kernel) _ (by decide +kernel) rfl

/-- A compaction that reports success, and leaves a snapshot that is refused. -/
theorem load_refuses_compacted :
    let ops := [StoreOp.openForAppend, .append (blank 1), .append (blank 2)]
    let store := after { limits := { maxJournalRecords := 1 }, disk := {} } ops
    store.compact.1 = true ∧ store.compact.2.load.1.ok = false := by
  decide +kernel

/-! ## Torn tails -/

/-- Append some records, one after the other. -/
def appends (records : List DurableRecord) : List StoreOp := records.map .append

/-- The records an open store accepts of those it is given, above a sequence. -/
def accepted (limits : Limits) : UInt64 → List DurableRecord → List DurableRecord
  | _, [] => []
  | low, record :: records =>
    if record.payload.length ≤ limits.maxRecordBytes ∧ low < record.sequence then
      record :: accepted limits record.sequence records
    else accepted limits low records

theorem accepted_of_ascends {limits : Limits} {low : UInt64} {records : List DurableRecord}
    (hasc : Ascends low records)
    (hbound : ∀ record ∈ records, record.payload.length ≤ limits.maxRecordBytes) :
    accepted limits low records = records := by
  induction records generalizing low with
  | nil => rfl
  | cons record records ih =>
    rw [accepted, if_pos ⟨hbound record List.mem_cons_self, hasc.1⟩,
      ih hasc.2 fun r hr => hbound r (List.mem_cons_of_mem _ hr)]

theorem ascends_accepted (limits : Limits) (low : UInt64) (records : List DurableRecord) :
    Ascends low (accepted limits low records) := by
  induction records generalizing low with
  | nil => trivial
  | cons record records ih =>
    rw [accepted]
    split
    · rename_i haccepted
      exact ⟨haccepted.2, ih record.sequence⟩
    · exact ih low

theorem mem_of_mem_accepted {limits : Limits} {low : UInt64} {records : List DurableRecord}
    {record : DurableRecord} (h : record ∈ accepted limits low records) : record ∈ records := by
  induction records generalizing low with
  | nil => cases h
  | cons first records ih =>
    rw [accepted] at h
    split at h
    · rcases List.mem_cons.mp h with rfl | h
      · exact List.mem_cons_self
      · exact List.mem_cons_of_mem _ (ih h)
    · exact List.mem_cons_of_mem _ (ih h)

/-- Appending to an open store: what is acknowledged is what is accepted, and the journal grows by
its encoding. -/
theorem after_appends {store : DurableStore} (hopen : store.isOpen = true)
    (hfaults : store.faults = []) {journal : Bytes} (hjournal : store.disk.journal = some journal)
    (records : List DurableRecord) :
    (store.after (appends records)).disk = { store.disk with journal := some (journal
        ++ stream encodeRecord (accepted store.limits store.highestSequence records)) } ∧
      store.acknowledged (appends records)
        = accepted store.limits store.highestSequence records ∧
      (store.after (appends records)).limits = store.limits ∧
      (store.SafeRun (appends records) ↔
        ∀ record ∈ accepted store.limits store.highestSequence records, record.Representable) := by
  induction records generalizing store journal with
  | nil =>
    refine ⟨?_, rfl, rfl, ?_⟩
    · rw [accepted, stream_nil, List.append_nil, ← hjournal]
      rfl
    · exact ⟨fun _ _ h => (nomatch h), fun _ => trivial⟩
  | cons record records ih =>
    rw [show appends (record :: records) = .append record :: appends records from rfl, after,
      acknowledged, SafeRun, accepted, Safe, acks, DurableStore.apply]
    rcases store.append_cases record with ⟨hrefuses, heq⟩ | ⟨haccepts, ⟨fault, hfault, -⟩ | ⟨-, heq⟩⟩
    · have hnot : ¬ (record.payload.length ≤ store.limits.maxRecordBytes ∧
          store.highestSequence < record.sequence) := fun h => hrefuses ⟨hopen, h⟩
      obtain ⟨hdisk, hacks, hlimits, hsafe⟩ := ih hopen hfaults hjournal
      rw [heq, if_neg hnot, if_neg (by simp), List.nil_append]
      refine ⟨hdisk, hacks, hlimits, fun h => hsafe.mp h.2, fun h => ⟨?_, hsafe.mpr h⟩⟩
      exact fun haccepts => absurd haccepts hrefuses
    · rw [hfaults] at hfault
      cases hfault
    · have hjournal' : (store.appended record).disk.journal
          = some (journal ++ encodeRecord record) := by
        show some (store.disk.journal.getD [] ++ encodeRecord record) = _
        rw [hjournal]
        rfl
      have hfaults' : (store.appended record).faults = [] := by
        show store.faults.tail = []
        rw [hfaults]
        rfl
      obtain ⟨hdisk, hacks, hlimits, hsafe⟩ :=
        @ih (store.appended record) hopen hfaults' _ hjournal'
      rw [heq, if_pos haccepts.2, if_pos rfl]
      refine ⟨?_, congrArg (record :: ·) hacks, hlimits, ?_⟩
      · rw [hdisk, stream_cons, List.append_assoc]
        rfl
      · refine ⟨fun h r hr => ?_, fun h => ⟨fun _ => h record List.mem_cons_self, ?_⟩⟩
        · rcases List.mem_cons.mp hr with rfl | hr
          · exact h.1 haccepts
          · exact hsafe.mp h.2 r hr
        · exact hsafe.mpr fun r hr => h r (List.mem_cons_of_mem _ hr)

/-- Appending to a sound store that is open. -/
theorem Sound.appends {store : DurableStore} {records : List DurableRecord}
    (h : store.Sound records) (hopen : store.isOpen = true) (later : List DurableRecord) :
    store.acknowledged (appends later)
        = accepted store.limits (lastSequence 0 records) later ∧
      (store.SafeRun (appends later) ↔
        ∀ record ∈ accepted store.limits (lastSequence 0 records) later, record.Representable) := by
  obtain ⟨⟨covered, hc⟩, rfl, hfaults⟩ := h
  obtain ⟨journal, hjournal⟩ := Option.ne_none_iff_exists'.mp (hc.opened hopen)
  obtain ⟨-, hacks, -, hsafe⟩ := after_appends hopen hfaults hjournal later
  rw [← hc.highest]
  exact ⟨hacks, hsafe⟩

section Recovery

variable {object : DurableStore} {records : List DurableRecord} {covered : Nat} {tail : Bytes}

/-- What loading makes of a disk that holds some records. -/
theorem load_of_holds (hdisk : object.disk.Holds records covered tail) (hrec : Recorded records)
    (hfits : ∀ record ∈ records, record.payload.length ≤ object.limits.maxRecordBytes)
    (hwithin : object.disk.SnapshotWithin object.limits covered)
    (htail : TornTail object.limits tail) :
    object.load.1.ok = true ∧ object.load.1.tornTailRecovered = !tail.isEmpty ∧
      object.load.2 = { object with
        records := records
        highestSequence := lastSequence 0 records
        journalGoodBytes := (object.disk.journal.getD []).length - tail.length } := by
  have hscan := scanDisk_of_holds hdisk hrec hfits hwithin htail
  have hok : (scanDisk object.limits object.disk).refusal = none := by
    rw [hscan]
    rfl
  refine ⟨object.load_ok_iff.mpr hok, ?_, ?_⟩
  · rw [load_torn object hok, hscan]
    rfl
  · rw [load_snd, hscan]
    rfl

/-- Opening the journal of a loaded store cuts its tail off. -/
theorem openForAppend_cuts {bytes : Bytes} (hclosed : object.isOpen = false)
    (hjournal : object.disk.journal = some (bytes ++ tail))
    (hgood : object.journalGoodBytes = bytes.length) (hne : bytes ≠ []) :
    object.openForAppend = { object with
      disk := { object.disk with journal := some bytes }
      isOpen := true } := by
  have hpos : 0 < bytes.length := List.length_pos_iff.mpr hne
  rw [openForAppend, if_neg (by simp [hclosed]), hjournal, hgood]
  dsimp only
  congr 3
  split
  · exact List.take_left
  · rename_i hnot
    have hnil : tail = [] := by
      rw [List.length_append] at hnot
      exact List.length_eq_zero_iff.mp (by omega)
    rw [hnil, List.append_nil]

/-- What a new object recovers from a disk. -/
structure Recovers (object : DurableStore) (records : List DurableRecord) (tail : Bytes) : Prop where
  ok : object.load.1.ok = true
  loaded : object.load.2.records = records
  torn : object.load.1.tornTailRecovered = !tail.isEmpty
  sound : object.load.2.openForAppend.Sound records
  isOpen : object.load.2.openForAppend.isOpen = true
  limits : object.load.2.openForAppend.limits = object.limits

/-- **Recovery**: a new object on a disk that holds some records, and no empty journal, loads them;
once it is open, it is sound and the tail is gone. -/
theorem recovers (hdisk : object.disk.Holds records covered tail) (hrec : Recorded records)
    (hfits : ∀ record ∈ records, record.payload.length ≤ object.limits.maxRecordBytes)
    (hwithin : object.disk.SnapshotWithin object.limits covered)
    (htail : TornTail object.limits tail) (hsolid : object.disk.journal ≠ some [])
    (hclosed : object.isOpen = false) (hfaults : object.faults = []) :
    object.Recovers records tail := by
  obtain ⟨hok, htorn, hloaded⟩ := load_of_holds hdisk hrec hfits hwithin htail
  rcases hdisk.journal with ⟨hnone | hempty, hcovered, rfl⟩ | ⟨start, hstart, hjournal⟩
  · -- nothing to cut off: the store that was loaded is consistent, and its journal is created
    have hconsistent : Consistent object.load.2 covered := by
      rw [hloaded]
      refine ⟨hdisk, hrec, hfits, rfl, hwithin, ?_, hsolid, ?_⟩
      · intro journal hjournal
        rw [show object.disk.journal = some journal from hjournal]
        rfl
      · intro hopen
        exact absurd (hclosed.symm.trans hopen) (by simp)
    have hopened : object.load.2.openForAppend = { object.load.2 with
        disk := { object.disk with journal := some (makeHeader journalMagic) }
        journalGoodBytes := storeHeaderBytes
        isOpen := true } := by
      rw [hloaded, openForAppend, if_neg (by simp [hclosed]), hnone]
    refine ⟨hok, by rw [hloaded], htorn, ⟨⟨covered, hconsistent.openForAppend⟩, ?_, ?_⟩, ?_, ?_⟩
    all_goals rw [hopened, hloaded]
    exact hfaults
  · exact absurd hempty hsolid
  · have hne : makeHeader journalMagic ++ stream encodeRecord (records.drop start) ≠ [] := by
      rw [← List.length_pos_iff, List.length_append, journalHeader_length]
      omega
    have hopened : object.load.2.openForAppend = { object.load.2 with
        disk := { object.disk with journal := some (makeHeader journalMagic
          ++ stream encodeRecord (records.drop start)) }
        isOpen := true } := by
      rw [← List.append_assoc] at hjournal
      rw [hloaded]
      refine openForAppend_cuts hclosed hjournal ?_ hne
      show (object.disk.journal.getD []).length - tail.length = _
      rw [hjournal, Option.getD_some]
      simp only [List.length_append]
      omega
    refine ⟨hok, by rw [hloaded], htorn, ⟨⟨covered, ?_⟩, ?_, ?_⟩, ?_, ?_⟩
    all_goals rw [hopened, hloaded]
    · refine ⟨⟨hdisk.covered_le, hdisk.snapshot, .inr ⟨start, hstart, ?_⟩⟩, hrec, hfits, rfl, hwithin,
        ?_, ?_, fun _ => nofun⟩
      · rw [List.append_nil]
      · intro journal hsome
        rw [← Option.some.inj hsome, hjournal, Option.getD_some]
        simp only [List.length_append]
        omega
      · exact fun hempty => hne (Option.some.inj hempty)
    · exact hfaults

end Recovery

/-- A new object on the journal of some appended records, cut after `k` bytes. -/
def cut (limits : Limits) (records : List DurableRecord) (k : Nat) : DurableStore where
  limits := limits
  disk :=
    { journal := (after { limits := limits, disk := {} }
        (.openForAppend :: appends records)).disk.journal.map (·.take k) }

/-- Torn-tail recovery is exact at a cut, also for some appends that follow it. -/
structure RecoversCut (limits : Limits) (records later : List DurableRecord) (k : Nat) : Prop where
  ok : (cut limits records k).load.1.ok = true
  loaded : (cut limits records k).load.2.records
    = whole encodeRecord (k - storeHeaderBytes) records
  torn : (cut limits records k).load.1.tornTailRecovered = true ↔
    CutsInside encodeRecord (k - storeHeaderBytes) records
  again : ((cut limits records k).load.2.openForAppend.after (appends later)).load.1.ok = true ∧
    ((cut limits records k).load.2.openForAppend.after
      (appends later)).load.1.tornTailRecovered = false ∧
    ((cut limits records k).load.2.openForAppend.after (appends later)).load.2.records
      = whole encodeRecord (k - storeHeaderBytes) records
        ++ (cut limits records k).load.2.openForAppend.acknowledged (appends later)

section Cut

variable {limits : Limits} {records : List DurableRecord}

theorem cut_disk (hasc : Ascends 0 records)
    (hbound : ∀ record ∈ records, record.payload.length ≤ limits.maxRecordBytes) {k : Nat}
    (hk : storeHeaderBytes ≤ k) :
    (cut limits records k).disk = { journal := some (makeHeader journalMagic
      ++ (stream encodeRecord (whole encodeRecord (k - storeHeaderBytes) records)
        ++ remnant encodeRecord (k - storeHeaderBytes) records)) } := by
  have happends : ((openForAppend { limits := limits, disk := {} }).after (appends records)).disk
      = { journal := some (makeHeader journalMagic ++ stream encodeRecord records) } := by
    refine (after_appends rfl rfl rfl records).1.trans ?_
    show ({ journal := some (makeHeader journalMagic
      ++ stream encodeRecord (accepted limits 0 records)) } : Disk) = _
    rw [accepted_of_ascends hasc hbound]
  rw [cut, after, DurableStore.apply, happends]
  simp only [Option.map_some]
  congr 2
  rw [List.take_append, List.take_of_length_le (by rw [journalHeader_length]; exact hk),
    journalHeader_length, ← take_stream]
  rfl

theorem cut_holds (hasc : Ascends 0 records)
    (hbound : ∀ record ∈ records, record.payload.length ≤ limits.maxRecordBytes) {k : Nat}
    (hk : storeHeaderBytes ≤ k) :
    (cut limits records k).disk.Holds (whole encodeRecord (k - storeHeaderBytes) records) 0
      (remnant encodeRecord (k - storeHeaderBytes) records) := by
  rw [cut_disk hasc hbound hk]
  exact ⟨Nat.zero_le _, .inl ⟨rfl, rfl⟩, .inr ⟨0, Nat.le_refl _, rfl⟩⟩

theorem cut_recovers (hasc : Ascends 0 records)
    (hbound : ∀ record ∈ records, record.payload.length ≤ limits.maxRecordBytes)
    (hrep : ∀ record ∈ records, record.Representable) {k : Nat} (hk : storeHeaderBytes ≤ k) :
    (cut limits records k).Recovers (whole encodeRecord (k - storeHeaderBytes) records)
      (remnant encodeRecord (k - storeHeaderBytes) records) := by
  have hfront := whole_prefix encodeRecord (k - storeHeaderBytes) records
  have hrec : Recorded records := ⟨hasc, hrep⟩
  refine recovers (cut_holds hasc hbound hk) (hrec.of_prefix hfront)
    (fun record hr => hbound record (hfront.subset hr)) ?_ ?_ ?_ rfl rfl
  · intro image himage
    cases himage
  · rcases remnant_cases encodeRecord (k - storeHeaderBytes) records with hnil | ⟨r, hr, n, hn, h⟩
    · rw [hnil]
      exact tornTail_nil _
    · exact ⟨r, hrep r hr, hbound r hr, n, hn, h⟩
  · rw [cut_disk hasc hbound hk]
    intro hempty
    exact absurd (congrArg List.length (Option.some.inj hempty)) (by
      rw [List.length_append, journalHeader_length]
      simp)

/-- **Torn-tail recovery is exact as long as length fields are.**  Recovery is exact at every cut
behind the header, and for every continuation, if and only if none of the records that were appended,
and none that is accepted afterwards, has a payload of 2³² bytes or more. -/
theorem torn_tail_recovery (hasc : Ascends 0 records)
    (hbound : ∀ record ∈ records, record.payload.length ≤ limits.maxRecordBytes)
    (later : List DurableRecord) :
    (∀ k, storeHeaderBytes ≤ k → RecoversCut limits records later k) ↔
      (∀ record ∈ records, record.Representable) ∧
        ∀ k, storeHeaderBytes ≤ k → ∀ record ∈ accepted limits
          (lastSequence 0 (whole encodeRecord (k - storeHeaderBytes) records)) later,
          record.Representable := by
  refine ⟨fun h => ?_, ?_⟩
  · -- what is loaded has exact length fields, and the uncut journal loads to all the records
    have hrep : ∀ record ∈ records, record.Representable := by
      have hfull := (h (storeHeaderBytes + (stream encodeRecord records).length)
        (Nat.le_add_right _ _)).loaded
      rw [Nat.add_sub_cancel_left, whole_of_length_le encodeRecord (Nat.le_refl _)] at hfull
      rw [← hfull]
      exact load_representable _
    refine ⟨hrep, fun k hk record hr => ?_⟩
    have hrecovers := cut_recovers hasc hbound hrep hk
    have hacks := (hrecovers.sound.appends hrecovers.isOpen later).1
    have hloaded := (h k hk).again.2.2
    rw [hrecovers.limits] at hacks
    have hmem : record ∈ whole encodeRecord (k - storeHeaderBytes) records
        ++ (cut limits records k).load.2.openForAppend.acknowledged (appends later) := by
      rw [hacks]
      exact List.mem_append_right _ hr
    rw [← hloaded] at hmem
    exact load_representable _ record hmem
  · rintro ⟨hrep, hlater⟩ k hk
    have hrecovers := cut_recovers hasc hbound hrep hk
    obtain ⟨-, hsafe⟩ := hrecovers.sound.appends hrecovers.isOpen later
    rw [hrecovers.limits] at hsafe
    obtain ⟨⟨⟨covered, hc⟩, hrecords, -⟩, -⟩ := hrecovers.sound.after (hsafe.mpr (hlater k hk))
    refine ⟨hrecovers.ok, hrecovers.loaded, ?_, hc.load_ok.1, hc.load_ok.2, ?_⟩
    · rw [hrecovers.torn, ← remnant_ne_nil_iff]
      simp
    · rw [hc.load_snd]
      exact hrecords

end Cut

theorem torn_tail_recovery_blank :
    RecoversCut {} [blank 1, { sequence := 2, payload := [1, 2, 3] }] [blank 2, blank 5] 60 := by
  refine (torn_tail_recovery (by decide) (by decide) _).mpr ⟨by decide, fun k _ record hr => ?_⟩ 60
    (by decide)
  have hlater : ∀ record ∈ [blank 2, blank 5], record.Representable := by decide
  exact hlater record (mem_of_mem_accepted hr)

/-- A record whose length field is zero. -/
def hugeRecord : DurableRecord :=
  { type := .policyDefinition, sequence := 1, payload := List.replicate (2 ^ 32) 0 }

/-- The journal of the huge record, whole, does not load to it. -/
theorem huge_record_not_recovered :
    Ascends 0 [hugeRecord] ∧
      (∀ record ∈ [hugeRecord], record.payload.length
        ≤ ({ maxRecordBytes := 2 ^ 32 } : Limits).maxRecordBytes) ∧
      ¬ RecoversCut { maxRecordBytes := 2 ^ 32 } [hugeRecord] []
        (storeHeaderBytes + (stream encodeRecord [hugeRecord]).length) := by
  have hsize : hugeRecord.payload.length = 2 ^ 32 := List.length_replicate
  refine ⟨⟨by decide, trivial⟩, ?_, fun h => ?_⟩
  · intro record hr
    rw [List.mem_singleton.mp hr, hsize]
  · have hloaded := h.loaded
    rw [Nat.add_sub_cancel_left, whole_of_length_le encodeRecord (Nat.le_refl _)] at hloaded
    have hmem : hugeRecord ∈ (cut { maxRecordBytes := 2 ^ 32 } [hugeRecord]
        (storeHeaderBytes + (stream encodeRecord [hugeRecord]).length)).load.2.records := by
      rw [hloaded]
      exact List.mem_singleton_self _
    have hrep : hugeRecord.Representable := load_representable _ hugeRecord hmem
    rw [DurableRecord.Representable, hsize] at hrep
    exact absurd hrep (Nat.lt_irrefl _)

end DurableStore

end FabricPartition
