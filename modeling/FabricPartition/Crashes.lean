import FabricPartition.Durability
import FabricPartition.Runtime

/-!
# Crashes and failed appends

The store survives what its format was made for, a record torn at the end of the journal.  Two other
ways of leaving a file half written it does not survive.

* The header of a new journal is written in place.  A crash that leaves some of it behind leaves a
  file that `load` refuses; one that leaves nothing behind leaves a file that `load` accepts and
  `open_for_append` takes for a journal with a header, so that the next record lands where the header
  should be.  `crash_survived_iff` says which crashes are survived.
* A failed append leaves its bytes behind, and the next one is written after them.
  `failed_appends_harmless` is what remains: a store whose appends all find the file as the last
  acknowledged one left it.
-/

set_option autoImplicit false

namespace FabricPartition

open Frames

namespace DurableStore

/-! ## Crashes -/

/-- The points at which the creation of a journal or a compaction can be cut short, told by what they
leave on the disk.  A file that is being written holds the first `written` bytes of what it is to
hold. -/
inductive CrashPoint
  /-- Neither file has been touched; a temporary one may have been. -/
  | untouched
  /-- `open_for_append` is writing the header of a new journal. -/
  | creating (written : Nat)
  /-- The new snapshot has been renamed, and the journal is still the old one. -/
  | renamed
  /-- `truncate_journal` is writing the header of the new journal. -/
  | truncating (written : Nat)

/-- Can the store crash there? -/
def CanCrash (store : DurableStore) : CrashPoint → Prop
  | .untouched => True
  | .creating written =>
    store.isOpen = false ∧ store.disk.journal = none ∧ written ≤ storeHeaderBytes
  | .renamed =>
    (snapshotImage store.highestSequence store.records).length ≤ store.limits.maxSnapshotBytes
  | .truncating written =>
    (snapshotImage store.highestSequence store.records).length ≤ store.limits.maxSnapshotBytes ∧
      store.isOpen = true ∧ written ≤ storeHeaderBytes

/-- What the crash leaves. -/
def crashed (store : DurableStore) : CrashPoint → Disk
  | .untouched => store.disk
  | .creating written =>
    { store.disk with journal := some ((makeHeader journalMagic).take written) }
  | .renamed =>
    { store.disk with snapshot := some (snapshotImage store.highestSequence store.records) }
  | .truncating written =>
    { journal := some ((makeHeader journalMagic).take written)
      snapshot := some (snapshotImage store.highestSequence store.records) }

/-- An object made after the crash. -/
def successor (store : DurableStore) (point : CrashPoint) : DurableStore where
  limits := store.limits
  disk := store.crashed point

/-- The operations of a store other than compaction. -/
def Plain : StoreOp → Prop
  | .compact => False
  | .append _ | .close | .load | .openForAppend | .reopen => True

/-- The crash is survived: the next load succeeds and returns the acknowledged records, and after
opening the journal and any further appends, closings and reloads it still does. -/
structure Survives (store : DurableStore) (records : List DurableRecord) (point : CrashPoint) :
    Prop where
  ok : (store.successor point).load.1.ok = true
  loaded : (store.successor point).load.2.records = records
  later : ∀ ops, (∀ op ∈ ops, Plain op) →
    ((store.successor point).load.2.openForAppend.after ops).load.1.ok = true ∧
      ((store.successor point).load.2.openForAppend.after ops).load.2.records
        = records ++ (store.successor point).load.2.openForAppend.acknowledged ops

/-- The bytes of a header the crash leaves in the journal, if it was being written. -/
def CrashPoint.written : CrashPoint → Option Nat
  | .creating written | .truncating written => some written
  | .untouched | .renamed => none

/-- Did the crash leave a new snapshot? -/
def CrashPoint.leavesSnapshot : CrashPoint → Prop
  | .renamed | .truncating _ => True
  | .untouched | .creating _ => False

/-- No sequence is left for another append. -/
def SpentSequences (store : DurableStore) : Prop := store.highestSequence = 0xFFFFFFFFFFFFFFFF

/-- The crash left a whole header, and a snapshot of no more records than loading accepts, and the
length of every payload that may follow fits its field; where nothing can follow, an empty journal
and any payload bound will do. -/
structure Recoverable (store : DurableStore) (point : CrashPoint) : Prop where
  count : point.leavesSnapshot → store.records.length ≤ store.limits.maxJournalRecords
  header : ∀ written, point.written = some written →
    written = storeHeaderBytes ∨ written = 0 ∧ store.SpentSequences
  payload : store.limits.maxRecordBytes < 2 ^ 32 ∨ store.SpentSequences

section Crash

variable {store : DurableStore} {covered : Nat} {point : CrashPoint}

/-- A crash that leaves no part of a header leaves a disk that holds the records. -/
theorem Consistent.crashed_holds (h : Consistent store covered) (hcan : store.CanCrash point)
    (hheader : ∀ written, point.written = some written →
      written = storeHeaderBytes ∨ written = 0) :
    ∃ covered', (store.crashed point).Holds store.records covered' [] ∧
      ((point.leavesSnapshot → store.records.length ≤ store.limits.maxJournalRecords) →
        (store.crashed point).SnapshotWithin store.limits covered') ∧
      (point.leavesSnapshot → covered' = store.records.length ∧
        ∃ image, (store.crashed point).snapshot = some image) := by
  have himage : snapshotImage store.highestSequence store.records = snapshotOf store.records := by
    rw [h.highest]
    rfl
  have hsnapshot : some (snapshotOf store.records)
      = some (snapshotOf (store.records.take store.records.length)) := by
    rw [List.take_length]
  -- a journal of which a whole header, or nothing, was written
  have hjournal : ∀ written, (written = storeHeaderBytes ∨ written = 0) →
      some ((makeHeader journalMagic).take written) = some [] ∨
        some ((makeHeader journalMagic).take written) = some (makeHeader journalMagic
          ++ (stream encodeRecord (store.records.drop store.records.length) ++ [])) := by
    rintro written (rfl | rfl)
    · refine .inr ?_
      rw [List.drop_length, stream_nil, List.append_nil, List.append_nil,
        List.take_of_length_le (Nat.le_of_eq (makeHeader_length journalMagic_length))]
    · exact .inl rfl
  cases point with
  | untouched => exact ⟨covered, h.holds, fun _ => h.within, fun h => h.elim⟩
  | creating written =>
    obtain ⟨-, hnone, -⟩ := hcan
    have hcovered : covered = store.records.length := by
      rcases h.holds.journal with ⟨-, hcovered, -⟩ | ⟨start, -, hsome⟩
      · exact hcovered
      · rw [hnone] at hsome
        cases hsome
    subst hcovered
    refine ⟨_, ⟨h.holds.covered_le, h.holds.snapshot, ?_⟩, fun _ => h.within, fun h => h.elim⟩
    rcases hjournal written (hheader written rfl) with hempty | hwhole
    · exact .inl ⟨.inr hempty, rfl, rfl⟩
    · exact .inr ⟨_, Nat.le_refl _, hwhole⟩
  | renamed =>
    refine ⟨_, ⟨Nat.le_refl _, .inr ?_, ?_⟩, ?_, fun _ => ⟨rfl, _, rfl⟩⟩
    · rw [← hsnapshot, ← himage]
      rfl
    · rcases h.holds.journal with ⟨hnone, -, -⟩ | ⟨start, hstart, hsome⟩
      · exact .inl ⟨hnone, rfl, rfl⟩
      · exact .inr ⟨start, hstart.trans h.holds.covered_le, hsome⟩
    · intro hcount image hsome
      rw [← Option.some.inj hsome]
      exact ⟨hcan, hcount trivial⟩
  | truncating written =>
    refine ⟨_, ⟨Nat.le_refl _, .inr ?_, ?_⟩, ?_, fun _ => ⟨rfl, _, rfl⟩⟩
    · rw [← hsnapshot, ← himage]
      rfl
    · rcases hjournal written (hheader written rfl) with hempty | hwhole
      · exact .inl ⟨.inr hempty, rfl, rfl⟩
      · exact .inr ⟨_, Nat.le_refl _, hwhole⟩
    · intro hcount image hsome
      rw [← Option.some.inj hsome]
      exact ⟨hcan.1, hcount trivial⟩

/-! ### Crashes that are survived -/

theorem not_accepts_of_spent (hspent : store.SpentSequences) (record : DurableRecord) :
    ¬ store.Accepts record := by
  rintro ⟨-, -, hlt⟩
  rw [hspent] at hlt
  have hlt' : (0xFFFFFFFFFFFFFFFF : UInt64).toNat < record.sequence.toNat := hlt
  have := record.sequence.toNat_lt
  rw [show (0xFFFFFFFFFFFFFFFF : UInt64).toNat = 2 ^ 64 - 1 from rfl] at hlt'
  omega

/-- Where no sequence is left nothing is acknowledged. -/
theorem acks_of_spent (hspent : store.SpentSequences) (op : StoreOp) : store.acks op = [] := by
  cases op with
  | append record =>
    rcases store.append_cases record with ⟨-, heq⟩ | ⟨haccepts, -⟩
    · rw [acks, heq]
      rfl
    · exact absurd haccepts (not_accepts_of_spent hspent record)
  | _ => rfl

/-- A run without compactions is safe when payloads cannot outgrow their length field, or cannot be
appended at all. -/
theorem Sound.safeRun_of_plain {records : List DurableRecord} {ops : List StoreOp}
    (h : store.Sound records) (hplain : ∀ op ∈ ops, Plain op)
    (hpayload : store.limits.maxRecordBytes < 2 ^ 32 ∨ store.SpentSequences) :
    store.SafeRun ops := by
  induction ops generalizing store records with
  | nil => trivial
  | cons op ops ih =>
    have hsafe : store.Safe op := by
      cases op with
      | append record =>
        intro haccepts
        rcases hpayload with hbound | hspent
        · exact Nat.lt_of_le_of_lt haccepts.2.1 hbound
        · exact absurd haccepts (not_accepts_of_spent hspent record)
      | compact => exact (hplain _ List.mem_cons_self).elim
      | _ => trivial
    obtain ⟨hnext, hlimits⟩ := h.apply hsafe
    refine ⟨hsafe, ih hnext (fun op hop => hplain op (List.mem_cons_of_mem _ hop)) ?_⟩
    rw [hlimits]
    refine hpayload.imp_right fun hspent => ?_
    obtain ⟨⟨_, hc⟩, hrecords, -⟩ := h
    obtain ⟨⟨_, hc'⟩, hrecords', -⟩ := hnext
    rw [acks_of_spent hspent, List.append_nil, ← hrecords] at hrecords'
    rw [SpentSequences, hc'.highest, hrecords', ← hc.highest]
    exact hspent

/-- A store on an empty journal, with no sequence left: nothing changes it. -/
structure Idle (limits : Limits) (disk : Disk) (records : List DurableRecord)
    (store : DurableStore) : Prop where
  limits : store.limits = limits
  disk : store.disk = disk
  records : store.records = records
  spent : store.SpentSequences

theorem Idle.apply {limits : Limits} {disk : Disk} {records : List DurableRecord}
    (hempty : disk.journal = some [])
    (hscan : scanDisk limits disk = loadedScan disk records [])
    (hlast : lastSequence 0 records = 0xFFFFFFFFFFFFFFFF) {op : StoreOp} (hplain : Plain op)
    (h : Idle limits disk records store) : Idle limits disk records (store.apply op) := by
  obtain ⟨rfl, rfl, rfl, hspent⟩ := h
  cases op with
  | append record =>
    rcases store.append_cases record with ⟨-, heq⟩ | ⟨haccepts, -⟩
    · rw [DurableStore.apply, heq]
      exact ⟨rfl, rfl, rfl, hspent⟩
    · exact absurd haccepts (not_accepts_of_spent hspent record)
  | compact => exact hplain.elim
  | close => exact ⟨rfl, rfl, rfl, hspent⟩
  | load =>
    rw [DurableStore.apply, load_snd, hscan]
    exact ⟨rfl, rfl, rfl, hlast⟩
  | openForAppend =>
    rw [DurableStore.apply, DurableStore.openForAppend]
    split
    · exact ⟨rfl, rfl, rfl, hspent⟩
    · rw [hempty]
      refine ⟨rfl, ?_, rfl, hspent⟩
      dsimp only
      rw [if_neg (by simp), ← hempty]
  | reopen =>
    rw [DurableStore.apply, load_snd]
    dsimp only
    rw [hscan]
    exact ⟨rfl, rfl, rfl, hlast⟩

theorem Idle.after {limits : Limits} {disk : Disk} {records : List DurableRecord}
    (hempty : disk.journal = some [])
    (hscan : scanDisk limits disk = loadedScan disk records [])
    (hlast : lastSequence 0 records = 0xFFFFFFFFFFFFFFFF) {ops : List StoreOp}
    (hplain : ∀ op ∈ ops, Plain op) (h : Idle limits disk records store) :
    Idle limits disk records (store.after ops) ∧ store.acknowledged ops = [] := by
  induction ops generalizing store with
  | nil => exact ⟨h, rfl⟩
  | cons op ops ih =>
    have hnext := h.apply hempty hscan hlast (hplain op List.mem_cons_self)
    obtain ⟨hafter, hacks⟩ := ih (fun op hop => hplain op (List.mem_cons_of_mem _ hop)) hnext
    refine ⟨hafter, ?_⟩
    rw [acknowledged, hacks, acks_of_spent h.spent]
    rfl

/-- A recoverable crash is survived. -/
theorem Consistent.survives (h : Consistent store covered) (hcan : store.CanCrash point)
    (hrecoverable : store.Recoverable point) : store.Survives store.records point := by
  obtain ⟨covered', hholds, hwithin, -⟩ := h.crashed_holds hcan fun written hw =>
    (hrecoverable.header written hw).imp_right And.left
  have hwithin := hwithin hrecoverable.count
  by_cases hempty : (store.crashed point).journal = some []
  · -- nothing can follow, so that nobody finds out that the header is missing
    have hspent : store.SpentSequences := by
      cases point with
      | untouched => exact absurd hempty h.solid
      | renamed => exact absurd hempty h.solid
      | creating written =>
        rcases hrecoverable.header written rfl with rfl | ⟨-, hspent⟩
        · refine absurd (congrArg List.length (Option.some.inj hempty)) ?_
          rw [List.take_of_length_le (Nat.le_of_eq (makeHeader_length journalMagic_length)),
            journalHeader_length]
          simp
        · exact hspent
      | truncating written =>
        rcases hrecoverable.header written rfl with rfl | ⟨-, hspent⟩
        · refine absurd (congrArg List.length (Option.some.inj hempty)) ?_
          rw [List.take_of_length_le (Nat.le_of_eq (makeHeader_length journalMagic_length)),
            journalHeader_length]
          simp
        · exact hspent
    have hlast : lastSequence 0 store.records = 0xFFFFFFFFFFFFFFFF := by
      rw [← h.highest]
      exact hspent
    have hscan : scanDisk store.limits (store.crashed point)
        = loadedScan (store.crashed point) store.records [] :=
      scanDisk_of_holds hholds h.recorded h.fits hwithin (tornTail_nil _)
    obtain ⟨hok, -, hloaded⟩ :=
      @load_of_holds (store.successor point) _ _ _ hholds h.recorded h.fits hwithin (tornTail_nil _)
    have hidle : Idle store.limits (store.crashed point) store.records
        (store.successor point).load.2.openForAppend := by
      have hloadedIdle : Idle store.limits (store.crashed point) store.records
          (store.successor point).load.2 := by
        rw [hloaded]
        exact ⟨rfl, rfl, rfl, hlast⟩
      exact @Idle.apply _ _ _ _ hempty hscan hlast .openForAppend trivial hloadedIdle
    refine ⟨hok, by rw [hloaded], fun ops hplain => ?_⟩
    obtain ⟨hafter, hacks⟩ := hidle.after hempty hscan hlast hplain
    rw [load_ok_iff, DurableStore.load_snd (DurableStore.after _ ops), hafter.limits, hafter.disk,
      hscan, hacks, List.append_nil]
    exact ⟨rfl, rfl⟩
  · have hrecovers : (store.successor point).Recovers store.records [] :=
      recovers hholds h.recorded h.fits hwithin (tornTail_nil _) hempty rfl rfl
    refine ⟨hrecovers.ok, hrecovers.loaded, fun ops hplain => ?_⟩
    have hpayload : (store.successor point).load.2.openForAppend.limits.maxRecordBytes < 2 ^ 32 ∨
        (store.successor point).load.2.openForAppend.SpentSequences := by
      obtain ⟨⟨_, hc⟩, hrecords, -⟩ := hrecovers.sound
      refine hrecoverable.payload.imp (fun hbound => ?_) fun hspent => ?_
      · rw [hrecovers.limits]
        exact hbound
      · rw [SpentSequences, hc.highest, hrecords, ← h.highest]
        exact hspent
    obtain ⟨⟨⟨_, hc⟩, hrecords, -⟩, -⟩ :=
      hrecovers.sound.after (hrecovers.sound.safeRun_of_plain hplain hpayload)
    refine ⟨hc.load_ok.1, ?_⟩
    rw [hc.load_snd]
    exact hrecords

/-! ### Crashes that are not survived -/

/-- A journal without a valid header is refused. -/
theorem load_refuses_header {object : DurableStore} {journal : Bytes}
    (hjournal : object.disk.journal = some journal) (hne : journal ≠ [])
    (hbad : validateHeader (journal.take storeHeaderBytes) journalMagic ≠ none) :
    object.load.1.ok ≠ true := by
  intro hok
  rw [load_ok_iff, scanDisk, hjournal] at hok
  obtain ⟨code, hcode⟩ := Option.ne_none_iff_exists'.mp hbad
  dsimp only at hok
  split at hok
  · rename_i hrefused
    rw [hok] at hrefused
    cases hrefused
  · rw [scanJournal, if_neg (by simpa using hne), hcode] at hok
    cases hok

/-- A record is no header. -/
theorem validateHeader_encodeRecord (record : DurableRecord) :
    validateHeader ((encodeRecord record).take storeHeaderBytes) journalMagic ≠ none := by
  have hfirst : ((encodeRecord record).take storeHeaderBytes).take journalMagic.length
      ≠ journalMagic := by
    intro heq
    have hhead := congrArg List.head? heq
    rw [encodeRecord_eq, recordHeader] at hhead
    cases htype : record.type <;> rw [htype] at hhead <;>
      exact absurd (Option.some.inj hhead) (by decide)
  rw [validateHeader]
  split
  · simp
  · simp

/-- An empty journal is opened as it is. -/
theorem openForAppend_empty (hclosed : store.isOpen = false)
    (hempty : store.disk.journal = some []) :
    store.openForAppend = { store with isOpen := true } := by
  have hdisk : { store.disk with journal := some [] } = store.disk := by rw [← hempty]
  rw [openForAppend, if_neg (by simp [hclosed]), hempty]
  dsimp only
  rw [if_neg (by simp), hdisk]

/-- A record of a given size, with the sequence the runtime would use next. -/
def nextRecord (store : DurableStore) (size : Nat) : DurableRecord :=
  { sequence := store.highestSequence + 1, payload := List.replicate size 0 }

theorem lt_next_of_not_spent (hspent : ¬ store.SpentSequences) :
    store.highestSequence < store.highestSequence + 1 := by
  have hne : store.highestSequence.toNat ≠ 2 ^ 64 - 1 := fun heq =>
    hspent (UInt64.toNat_inj.mp heq)
  have hlt := store.highestSequence.toNat_lt
  rw [UInt64.lt_iff_toNat_lt, UInt64.toNat_add]
  show _ < (_ + 1) % 2 ^ 64
  omega

/-- An open store that meets no fault acknowledges the next record. -/
theorem append_next (hopen : store.isOpen = true) (hfaults : store.faults = [])
    (hspent : ¬ store.SpentSequences) {size : Nat} (hsize : size ≤ store.limits.maxRecordBytes) :
    store.acknowledged [.append (store.nextRecord size)] = [store.nextRecord size] ∧
      store.after [.append (store.nextRecord size)] = store.appended (store.nextRecord size) := by
  have haccepts : store.Accepts (store.nextRecord size) := by
    refine ⟨hopen, ?_, lt_next_of_not_spent hspent⟩
    rw [nextRecord, List.length_replicate]
    exact hsize
  rcases store.append_cases (store.nextRecord size) with
    ⟨hrefuses, -⟩ | ⟨-, ⟨fault, hfault, -⟩ | ⟨-, heq⟩⟩
  · exact absurd haccepts hrefuses
  · rw [hfaults] at hfault
    cases hfault
  · rw [acknowledged, acknowledged, acks, after, after, DurableStore.apply, heq]
    exact ⟨rfl, rfl⟩

/-- A crash that is survived left a whole header or nothing of one. -/
theorem Survives.header_whole {records : List DurableRecord} (hcan : store.CanCrash point)
    (h : store.Survives records point) :
    ∀ written, point.written = some written → written = storeHeaderBytes ∨ written = 0 := by
  intro written hw
  by_contra hpart
  have hjournal : written ≤ storeHeaderBytes ∧
      (store.crashed point).journal = some ((makeHeader journalMagic).take written) := by
    cases point with
    | untouched => cases hw
    | renamed => cases hw
    | creating n =>
      obtain rfl := Option.some.inj hw
      exact ⟨hcan.2.2, rfl⟩
    | truncating n =>
      obtain rfl := Option.some.inj hw
      exact ⟨hcan.2.2, rfl⟩
  have hlength : ((makeHeader journalMagic).take written).length = written := by
    rw [List.length_take, makeHeader_length journalMagic_length]
    omega
  refine @load_refuses_header (store.successor point) _ hjournal.2 ?_ ?_ h.ok
  · rw [← List.length_pos_iff, hlength]
    omega
  · rw [validateHeader, if_pos (by rw [List.length_take, hlength]; omega)]
    simp

/-- A crash that is survived is recoverable. -/
theorem Consistent.recoverable (h : Consistent store covered) (hcan : store.CanCrash point)
    (hsurvives : store.Survives store.records point) : store.Recoverable point := by
  have hheader := hsurvives.header_whole hcan
  obtain ⟨covered', hholds, -, hsnapshot⟩ := h.crashed_holds hcan hheader
  have hwithin := (within_of_scanDisk hholds h.recorded
    ((store.successor point).load_ok_iff.mp hsurvives.ok)).2
  have hcount : point.leavesSnapshot → store.records.length ≤ store.limits.maxJournalRecords := by
    intro hleaves
    obtain ⟨rfl, image, himage⟩ := hsnapshot hleaves
    exact (hwithin image himage).2
  obtain ⟨-, -, hloaded⟩ :=
    @load_of_holds (store.successor point) _ _ _ hholds h.recorded h.fits hwithin (tornTail_nil _)
  -- on an empty journal the next record would take the place of the header
  have hempty : (store.crashed point).journal = some [] → store.SpentSequences := by
    intro hempty
    by_contra hspent
    have hopened : (store.successor point).load.2.openForAppend
        = { (store.successor point).load.2 with isOpen := true } := by
      refine openForAppend_empty ?_ ?_
      · rw [hloaded]
        rfl
      · rw [hloaded]
        exact hempty
    have hnext : ¬ (store.successor point).load.2.openForAppend.SpentSequences := by
      rw [hopened, hloaded, SpentSequences]
      show lastSequence 0 store.records ≠ _
      rw [← h.highest]
      exact hspent
    obtain ⟨-, hafter⟩ := append_next (by rw [hopened]) (by rw [hopened, hloaded]; rfl) hnext
      (Nat.zero_le _)
    set next := (store.successor point).load.2.openForAppend.nextRecord 0
    have hjournal : ((store.successor point).load.2.openForAppend.after
        [.append next]).disk.journal = some (encodeRecord next) := by
      rw [hafter]
      show some (((store.successor point).load.2.openForAppend.disk.journal).getD [] ++ _) = _
      rw [show (store.successor point).load.2.openForAppend.disk.journal = some [] by
        rw [hopened, hloaded]; exact hempty]
      rfl
    refine load_refuses_header hjournal ?_ (validateHeader_encodeRecord next)
      (hsurvives.later [.append next] ?_).1
    · rw [← List.length_pos_iff, encodeRecord_length]
      omega
    · intro op hop
      rw [List.mem_singleton.mp hop]
      trivial
  refine ⟨hcount, fun written hw => ?_, ?_⟩
  · refine (hheader written hw).imp_right fun hzero => ⟨hzero, hempty ?_⟩
    subst hzero
    cases point with
    | untouched => cases hw
    | renamed => cases hw
    | creating n =>
      obtain rfl := Option.some.inj hw
      rfl
    | truncating n =>
      obtain rfl := Option.some.inj hw
      rfl
  · -- and a payload that outgrows its length field would not be loaded again
    by_contra hno
    rw [not_or, Nat.not_lt] at hno
    have hsolid : (store.crashed point).journal ≠ some [] := fun he => hno.2 (hempty he)
    have hrecovers : (store.successor point).Recovers store.records [] :=
      recovers hholds h.recorded h.fits hwithin (tornTail_nil _) hsolid rfl rfl
    have hnext : ¬ (store.successor point).load.2.openForAppend.SpentSequences := by
      obtain ⟨⟨_, hc⟩, hrecords, -⟩ := hrecovers.sound
      rw [SpentSequences, hc.highest, hrecords, ← h.highest]
      exact hno.2
    have hroom : 2 ^ 32 ≤ (store.successor point).load.2.openForAppend.limits.maxRecordBytes := by
      rw [hrecovers.limits]
      exact hno.1
    obtain ⟨hacks, -⟩ := append_next hrecovers.isOpen hrecovers.sound.faultless hnext hroom
    have hloaded := (hsurvives.later
      [.append ((store.successor point).load.2.openForAppend.nextRecord (2 ^ 32))] ?_).2
    · rw [hacks] at hloaded
      have hmem : (store.successor point).load.2.openForAppend.nextRecord (2 ^ 32)
          ∈ store.records ++ [(store.successor point).load.2.openForAppend.nextRecord (2 ^ 32)] :=
        List.mem_append_right _ (List.mem_singleton_self _)
      rw [← hloaded] at hmem
      have hrep := load_representable _ _ hmem
      rw [DurableRecord.Representable, nextRecord, List.length_replicate] at hrep
      exact absurd hrep (Nat.lt_irrefl _)
    · intro op hop
      rw [List.mem_singleton.mp hop]
      trivial

/-- **Which crashes are survived.**  For every store that safe operations have reached, and every
crash in the creation of its journal or in a compaction, the crash is survived if and only if it is
recoverable. -/
theorem crash_survived_iff (limits : Limits) (ops : List StoreOp)
    (hsafe : SafeRun { limits := limits, disk := {} } ops) (point : CrashPoint)
    (hcan : (after { limits := limits, disk := {} } ops).CanCrash point) :
    (after { limits := limits, disk := {} } ops).Survives
        (acknowledged { limits := limits, disk := {} } ops) point ↔
      (after { limits := limits, disk := {} } ops).Recoverable point := by
  obtain ⟨⟨⟨covered, hc⟩, hrecords, -⟩, -⟩ := (Sound.empty limits).after hsafe
  rw [List.nil_append] at hrecords
  rw [← hrecords]
  exact ⟨hc.recoverable hcan, hc.survives hcan⟩

end Crash

/-- A store with one record is compacted, and the process dies with the new journal's header
written. -/
theorem truncated_crash_survived :
    (after { limits := {}, disk := {} } [.openForAppend, .append (blank 1)]).Survives
      (acknowledged { limits := {}, disk := {} } [.openForAppend, .append (blank 1)])
      (.truncating 24) := by
  have hcan : (after { limits := {}, disk := {} } [.openForAppend, .append (blank 1)]).CanCrash
      (.truncating 24) := by
    refine ⟨by decide +kernel, by decide +kernel, by decide⟩
  refine (crash_survived_iff {} _ (by decide +kernel) _ hcan).mpr ⟨fun _ => ?_, ?_, .inl ?_⟩
  · decide +kernel
  · intro written hw
    exact .inl (Option.some.inj hw).symm
  · decide +kernel

/-- The process dies with the new journal created and nothing written.  The next load succeeds, a
record is appended and acknowledged, and the load after that refuses the journal. -/
theorem empty_crash_not_survived :
    let store : DurableStore := { limits := {}, disk := {} }
    let object := (store.successor (.creating 0)).load.2.openForAppend
    store.CanCrash (.creating 0) ∧ (store.successor (.creating 0)).load.1.ok = true ∧
      object.acknowledged [.append (blank 1)] = [blank 1] ∧
      (object.after [.append (blank 1)]).load.1.ok = false :=
  ⟨⟨rfl, rfl, by decide⟩, by decide +kernel⟩

/-! ## Failed appends -/

/-- A record the runtime asks its store to append. -/
structure Commit where
  type : DurableRecordType
  payload : Bytes
  deriving DecidableEq

/-- What became of the commits: the records that were acknowledged, and those whose append failed. -/
structure Outcome where
  acknowledged : List DurableRecord := []
  failed : List DurableRecord := []
  deriving DecidableEq

/-- The record a commit would append, if there is a sequence for it. -/
def Commit.record (c : Commit) (j : PartitionRuntime.Journal) : Option DurableRecord :=
  (checkedAdd j.2 1).map fun next => ⟨c.type, next, c.payload⟩

/-- One commit, as `commit_record` makes it. -/
def Commit.run (c : Commit) (j : PartitionRuntime.Journal) : Outcome × PartitionRuntime.Journal :=
  let done := PartitionRuntime.commitJournal c.type c.payload j
  ({ acknowledged := if done.1 then (c.record j).toList else []
     failed := if done.1 then [] else (c.record j).toList }, done.2)

/-- Some commits, one after the other. -/
def commits : List Commit → PartitionRuntime.Journal → Outcome × PartitionRuntime.Journal
  | [], j => ({}, j)
  | c :: cs, j =>
    let first := c.run j
    let rest := commits cs first.2
    ({ acknowledged := first.1.acknowledged ++ rest.1.acknowledged
       failed := first.1.failed ++ rest.1.failed }, rest.2)

theorem commits_cons (c : Commit) (cs : List Commit) (j : PartitionRuntime.Journal) :
    commits (c :: cs) j =
      ({ acknowledged := (c.run j).1.acknowledged ++ (commits cs (c.run j).2).1.acknowledged
         failed := (c.run j).1.failed ++ (commits cs (c.run j).2).1.failed },
        (commits cs (c.run j).2).2) := by
  rw [commits]

/-- Nothing lies behind the acknowledged records in the journal. -/
def Tidy (store : DurableStore) : Prop :=
  (store.disk.journal.getD []).length ≤ store.journalGoodBytes

/-- If the commit reaches the file, it finds it as the last acknowledged one left it, and has a
payload whose length its field can hold. -/
structure Commit.FindsTidy (c : Commit) (j : PartitionRuntime.Journal) : Prop where
  tidy : ∀ store record, j.1 = some store → c.record j = some record → store.Accepts record →
    store.Tidy ∧ record.Representable

/-- Every commit finds the file tidy. -/
def TidyCommits : List Commit → PartitionRuntime.Journal → Prop
  | [], _ => True
  | c :: cs, j => c.FindsTidy j ∧ TidyCommits cs (c.run j).2

theorem tidyCommits_cons {c : Commit} {cs : List Commit} {j : PartitionRuntime.Journal} :
    TidyCommits (c :: cs) j ↔ c.FindsTidy j ∧ TidyCommits cs (c.run j).2 := by
  rw [TidyCommits]

instance (store : DurableStore) : Decidable store.Tidy := inferInstanceAs (Decidable (_ ≤ _))

instance (c : Commit) (j : PartitionRuntime.Journal) : Decidable (c.FindsTidy j) :=
  match hstore : j.1, hrecord : c.record j with
  | some store, some record =>
    decidable_of_iff (store.Accepts record → store.Tidy ∧ record.Representable)
      ⟨fun h => ⟨fun _ _ hs hr => by
        obtain rfl := Option.some.inj (hstore.symm.trans hs)
        obtain rfl := Option.some.inj (hrecord.symm.trans hr)
        exact h⟩, fun h => h.tidy _ _ hstore hrecord⟩
  | none, _ => .isTrue ⟨fun _ _ hs => nomatch hstore.symm.trans hs⟩
  | some _, none => .isTrue ⟨fun _ _ _ hr => nomatch hrecord.symm.trans hr⟩

instance TidyCommits.decidable : (cs : List Commit) → (j : PartitionRuntime.Journal) →
    Decidable (TidyCommits cs j)
  | [], _ => .isTrue trivial
  | c :: cs, j => @instDecidableAnd _ _ inferInstance (TidyCommits.decidable cs (c.run j).2)

/-- The store agrees with the acknowledged records, but for the bytes of one failed append that may
lie behind them. -/
def Kept (store : DurableStore) (records failed : List DurableRecord) : Prop :=
  (∃ covered, Consistent store covered) ∧ store.records = records ∨
    ∃ base covered record fault, Consistent base covered ∧ base.records = records ∧
      base.Accepts record ∧ record.Representable ∧ record ∈ failed ∧
      leftBehind record fault ≠ [] ∧ store.limits = base.limits ∧
      store.journalGoodBytes = base.journalGoodBytes ∧
      store.disk = (base.wrote (leftBehind record fault)).disk

section Commit

variable {store : DurableStore} {records failed : List DurableRecord}

theorem Kept.mono (h : store.Kept records failed) {failed' : List DurableRecord}
    (hsub : failed ⊆ failed') : store.Kept records failed' := by
  rcases h with h | ⟨base, covered, record, fault, hc, hrecords, haccepts, hrep, hmem, hrest⟩
  · exact .inl h
  · exact .inr ⟨base, covered, record, fault, hc, hrecords, haccepts, hrep, hsub hmem, hrest⟩

/-- The journal of an open consistent store. -/
theorem Consistent.exists_journal {covered : Nat} (h : Consistent store covered)
    (hopen : store.isOpen = true) :
    ∃ start ≤ covered, store.disk.journal
      = some (makeHeader journalMagic ++ stream encodeRecord (store.records.drop start)) := by
  rcases h.holds.journal with ⟨hnone | hempty, -, -⟩ | ⟨start, hstart, hsome⟩
  · exact absurd hnone (h.opened hopen)
  · exact absurd hempty h.solid
  · rw [List.append_nil] at hsome
    exact ⟨start, hstart, hsome⟩

theorem wrote_journal {journal : Bytes} (h : store.disk.journal = some journal) (bytes : Bytes) :
    (store.wrote bytes).disk.journal = some (journal ++ bytes) := by
  rw [wrote, h]
  rfl

/-- A store with bytes of a failed append behind its records is not tidy. -/
theorem not_tidy_of_left {base : DurableStore} {covered : Nat} (hc : Consistent base covered)
    (hopen : base.isOpen = true) {bytes : Bytes} (hne : bytes ≠ [])
    (hgood : store.journalGoodBytes = base.journalGoodBytes)
    (hdisk : store.disk = (base.wrote bytes).disk) : ¬ store.Tidy := by
  intro htidy
  obtain ⟨start, -, hjournal⟩ := hc.exists_journal hopen
  have hle := htidy
  rw [Tidy, hgood, hc.good _ hjournal, hdisk, wrote_journal hjournal, Option.getD_some] at hle
  have hpos := List.length_pos_iff.mpr hne
  simp only [List.length_append] at hle
  omega

/-- A tidy store is consistent. -/
theorem Kept.consistent (h : store.Kept records failed) (htidy : store.Tidy) :
    (∃ covered, Consistent store covered) ∧ store.records = records := by
  rcases h with h | ⟨base, covered, record, fault, hc, -, haccepts, -, -, hne, -, hgood, hdisk⟩
  · exact h
  · exact absurd htidy (not_tidy_of_left hc haccepts.1 hne hgood hdisk)

/-- **One commit**: where it reaches the file, it finds the file tidy. -/
theorem Kept.run {c : Commit} {sequence : UInt64} (h : store.Kept records failed)
    (htidy : ∀ record, c.record (some store, sequence) = some record → store.Accepts record →
      store.Tidy ∧ record.Representable) :
    ∃ store', (c.run (some store, sequence)).2.1 = some store' ∧ store'.limits = store.limits ∧
      store'.Kept (records ++ (c.run (some store, sequence)).1.acknowledged)
        (failed ++ (c.run (some store, sequence)).1.failed) := by
  rw [Commit.run, PartitionRuntime.commitJournal]
  rw [Commit.record] at htidy ⊢
  generalize checkedAdd sequence 1 = next at htidy ⊢
  cases next with
  | none => exact ⟨store, rfl, rfl, by simpa using h⟩
  | some next =>
    have htidy := htidy ⟨c.type, next, c.payload⟩ rfl
    rcases store.append_cases ⟨c.type, next, c.payload⟩ with
      ⟨-, heq⟩ | ⟨haccepts, ⟨fault, -, heq⟩ | ⟨-, heq⟩⟩
    · dsimp only at heq
      simp only [heq, Option.map_some, Option.toList_some, Bool.false_eq_true, if_false,
        List.append_nil]
      exact ⟨store, rfl, rfl, h.mono (List.subset_append_left _ _)⟩
    · -- the append fails, and leaves some of the record behind
      obtain ⟨htidy, hrep⟩ := htidy haccepts
      obtain ⟨⟨covered, hc⟩, hrecords⟩ := h.consistent htidy
      dsimp only at heq
      simp only [heq, Option.map_some, Option.toList_some, Bool.false_eq_true, if_false,
        List.append_nil]
      refine ⟨_, rfl, rfl, ?_⟩
      by_cases hne : leftBehind ⟨c.type, next, c.payload⟩ fault = []
      · obtain ⟨start, -, hjournal⟩ := hc.exists_journal haccepts.1
        have hdisk : (store.wrote []).disk = store.disk := by
          rw [wrote, hjournal, Option.getD_some, List.append_nil, ← hjournal]
        rw [hne]
        exact .inl ⟨⟨covered, hc.of_eq rfl hdisk rfl rfl rfl id⟩, hrecords⟩
      · exact .inr ⟨store, covered, _, fault, hc, hrecords, haccepts, hrep,
          List.mem_append_right _ (List.mem_singleton_self _), hne, rfl, rfl, rfl⟩
    · obtain ⟨htidy, hrep⟩ := htidy haccepts
      obtain ⟨⟨covered, hc⟩, hrecords⟩ := h.consistent htidy
      dsimp only at heq
      simp only [heq, Option.map_some, Option.toList_some, if_true, List.append_nil]
      refine ⟨_, rfl, rfl, .inl ⟨⟨covered, hc.appended haccepts hrep⟩, ?_⟩⟩
      rw [← hrecords]
      rfl

/-- **Some commits**, each of which finds the file tidy. -/
theorem Kept.commits {cs : List Commit} {sequence : UInt64} (h : store.Kept records failed)
    (htidy : TidyCommits cs (some store, sequence)) :
    ∃ store', (commits cs (some store, sequence)).2.1 = some store' ∧
      store'.limits = store.limits ∧
      store'.Kept (records ++ (commits cs (some store, sequence)).1.acknowledged)
        (failed ++ (commits cs (some store, sequence)).1.failed) := by
  induction cs generalizing store records failed sequence with
  | nil => exact ⟨store, rfl, rfl, by simpa [DurableStore.commits] using h⟩
  | cons c cs ih =>
    obtain ⟨hfinds, htail⟩ := tidyCommits_cons.mp htidy
    obtain ⟨store', hstore, hlimits, hkept⟩ :=
      h.run fun record hrecord haccepts => hfinds.tidy store record rfl hrecord haccepts
    rw [commits_cons]
    generalize c.run (some store, sequence) = done at hstore hkept htail ⊢
    obtain ⟨outcome, last, sequence'⟩ := done
    obtain rfl : last = some store' := hstore
    obtain ⟨last, hlast, hlimits', hkept'⟩ := ih hkept htail
    refine ⟨last, hlast, hlimits'.trans hlimits, ?_⟩
    rw [← List.append_assoc, ← List.append_assoc]
    exact hkept'

/-- What a kept store loads to: the acknowledged records, and perhaps a failed one behind them. -/
theorem Kept.load (h : store.Kept records failed) {object : DurableStore}
    (hlimits : object.limits = store.limits) (hdisk : object.disk = store.disk) :
    object.load.1.ok = true ∧
      (object.load.2.records = records ∨
        ∃ record ∈ failed, object.load.2.records = records ++ [record]) := by
  rcases h with ⟨⟨covered, hc⟩, rfl⟩ |
    ⟨base, covered, record, fault, hc, rfl, haccepts, hrep, hmem, -, hsame, -, hleft⟩
  · have hscan := hc.scan
    rw [← hlimits, ← hdisk] at hscan
    rw [load_ok_iff, load_snd, hscan]
    exact ⟨rfl, .inl rfl⟩
  · rw [hsame] at hlimits
    rw [hleft] at hdisk
    cases fault with
    | short n =>
      -- the front part of the record is a torn tail
      obtain ⟨start, hstart, hjournal⟩ := hc.exists_journal haccepts.1
      have hholds : object.disk.Holds base.records covered (leftBehind record (.short n)) := by
        rw [hdisk]
        refine ⟨hc.holds.covered_le, hc.holds.snapshot, .inr ⟨start, hstart, ?_⟩⟩
        rw [wrote_journal hjournal, List.append_assoc]
      have htail : TornTail object.limits (leftBehind record (.short n)) := by
        refine ⟨record, hrep, hlimits ▸ haccepts.2.1, _, ?_, rfl⟩
        rw [encodeRecord_length]
        omega
      have hwithin : object.disk.SnapshotWithin object.limits covered := by
        rw [hdisk, hlimits]
        exact hc.within
      obtain ⟨hok, -, hloaded⟩ := load_of_holds hholds hc.recorded (hlimits ▸ hc.fits) hwithin htail
      exact ⟨hok, .inl (by rw [hloaded])⟩
    | unsynced =>
      -- the whole record is there, as if it had been acknowledged
      have hscan := (hc.appended haccepts hrep).scan
      have hsame' : (base.appended record).limits = object.limits := hlimits.symm
      have hdisk' : (base.appended record).disk = object.disk := hdisk.symm
      rw [hsame', hdisk'] at hscan
      rw [load_ok_iff, load_snd, hscan]
      exact ⟨rfl, .inr ⟨record, hmem, rfl⟩⟩

end Commit

/-- **Failed appends are harmless as long as nothing is appended behind them.**  After any commits
that each find the file as the last acknowledged one left it, whatever faults they meet, loading
succeeds and returns every acknowledged record in order, and besides them only records whose append
failed. -/
theorem failed_appends_harmless (limits : Limits) (ops : List StoreOp)
    (hsafe : SafeRun { limits := limits, disk := {} } ops) (faults : List (Option AppendFault))
    (cs : List Commit) (store : DurableStore)
    (hstore : store = { after { limits := limits, disk := {} } ops with faults := faults })
    (htidy : TidyCommits cs (some store, store.highestSequence)) (object : DurableStore)
    (hlimits : object.limits = limits)
    (hdisk : (commits cs (some store, store.highestSequence)).2.1.map (·.disk) = some object.disk) :
    object.load.1.ok = true ∧
      (acknowledged { limits := limits, disk := {} } ops
          ++ (commits cs (some store, store.highestSequence)).1.acknowledged).Sublist
        object.load.2.records ∧
      ∀ record ∈ object.load.2.records,
        record ∈ acknowledged { limits := limits, disk := {} } ops
            ++ (commits cs (some store, store.highestSequence)).1.acknowledged ∨
          record ∈ (commits cs (some store, store.highestSequence)).1.failed := by
  obtain ⟨⟨⟨covered, hc⟩, hrecords, -⟩, hsame⟩ := (Sound.empty limits).after hsafe
  rw [List.nil_append] at hrecords
  have hkept : store.Kept (acknowledged { limits := limits, disk := {} } ops) [] := by
    subst hstore
    exact .inl ⟨⟨covered, hc.of_eq rfl rfl rfl rfl rfl id⟩, hrecords⟩
  have hstoreLimits : store.limits = limits := by
    subst hstore
    exact hsame
  obtain ⟨last, hlast, hlastLimits, hkept⟩ := hkept.commits htidy
  rw [hlast] at hdisk
  obtain ⟨hok, hloaded⟩ := hkept.load (hlimits.trans (hstoreLimits.symm.trans hlastLimits.symm))
    (Option.some.inj hdisk).symm
  refine ⟨hok, ?_⟩
  rcases hloaded with hloaded | ⟨record, hmem, hloaded⟩
  · rw [hloaded]
    exact ⟨List.Sublist.refl _, fun record hr => .inl hr⟩
  · rw [hloaded]
    refine ⟨List.sublist_append_left _ _, fun r hr => ?_⟩
    rcases List.mem_append.mp hr with hr | hr
    · exact .inl hr
    · rw [List.mem_singleton.mp hr]
      exact .inr hmem

/-- A commit of nothing. -/
def blankCommit : Commit := ⟨.policyDefinition, []⟩

/-- A store on an empty directory, opened, whose appends meet some faults. -/
def faulty (faults : List (Option AppendFault)) : DurableStore :=
  { after { limits := {}, disk := {} } [.openForAppend] with faults := faults }

/-- Two commits of nothing to it. -/
def twoCommits (faults : List (Option AppendFault)) : Outcome × PartitionRuntime.Journal :=
  commits [blankCommit, blankCommit] (some (faulty faults), (faulty faults).highestSequence)

/-- A new object on what they leave. -/
def twoCommitted (faults : List (Option AppendFault)) : DurableStore where
  limits := {}
  disk := ((twoCommits faults).2.1.map (·.disk)).getD {}

theorem short_append_harmless :
    (twoCommits [none, some (.short 5)]).1.failed.length = 1 ∧
      (twoCommitted [none, some (.short 5)]).load.1.ok = true ∧
      (acknowledged { limits := {}, disk := {} } [.openForAppend]
          ++ (twoCommits [none, some (.short 5)]).1.acknowledged).Sublist
        (twoCommitted [none, some (.short 5)]).load.2.records ∧
      ∀ record ∈ (twoCommitted [none, some (.short 5)]).load.2.records,
        record ∈ acknowledged { limits := {}, disk := {} } [.openForAppend]
            ++ (twoCommits [none, some (.short 5)]).1.acknowledged ∨
          record ∈ (twoCommits [none, some (.short 5)]).1.failed :=
  ⟨by decide +kernel, failed_appends_harmless {} [.openForAppend] (by decide +kernel)
    [none, some (.short 5)] [blankCommit, blankCommit] (faulty [none, some (.short 5)]) rfl
    (by decide +kernel) (twoCommitted [none, some (.short 5)]) rfl (by decide +kernel)⟩

/-- The first append fails to be synced, the second is acknowledged under the same sequence, and the
journal is refused. -/
theorem unsynced_append_poisons :
    (twoCommits [some .unsynced, none]).1.acknowledged.length = 1 ∧
      (twoCommitted [some .unsynced, none]).load.1.ok = false := by
  decide +kernel

end DurableStore

end FabricPartition
