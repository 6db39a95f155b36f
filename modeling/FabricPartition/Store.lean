import FabricPartition.Digest
import FabricPartition.Reason

/-!
# The durable store

`DurableStore` of `persistence.hpp`, over the bytes of its two files: the journal, an append-only
stream of checksummed records behind a 24-byte header, and the snapshot, a whole image that replaces
the journal's past when it is compacted.

The operating system enters in two places.  The files are the `Disk`, which is all that survives the
process.  And an append may fail: the state carries the faults the coming appends will meet
(`faults`; none is left means every append succeeds), a short write that leaves a prefix of the
record in the file, or a flush that fails after all of it was written.

Paths are dropped, and with them the subject of the reasons `load` reports: it is the name of the
file, `"journal"` or `"snapshot"`.
-/

set_option autoImplicit false

namespace FabricPartition

/-- The types of durable records. -/
inductive DurableRecordType
  | epochState | policyDefinition | topologyDefinition | lineageRecord | decisionRecord
  | fenceRecord
  deriving DecidableEq

namespace DurableRecordType

/-- The value of the enumerator. -/
def code : DurableRecordType → UInt16
  | .epochState => 1
  | .policyDefinition => 2
  | .topologyDefinition => 3
  | .lineageRecord => 4
  | .decisionRecord => 5
  | .fenceRecord => 6

/-- The enumerator with a value, if there is one. -/
def ofCode (v : UInt16) : Option DurableRecordType :=
  [epochState, policyDefinition, topologyDefinition, lineageRecord, decisionRecord,
    fenceRecord].find? fun t => t.code == v

@[simp]
theorem ofCode_code (t : DurableRecordType) : ofCode t.code = some t := by
  cases t <;> rfl

end DurableRecordType

/-- A durable record. -/
structure DurableRecord where
  type : DurableRecordType := .epochState
  sequence : UInt64 := 0
  payload : Bytes := []
  deriving DecidableEq

/-- What survives the process. -/
structure Disk where
  journal : Option Bytes := none
  snapshot : Option Bytes := none
  deriving DecidableEq, Inhabited

/-- How an append can fail. -/
inductive AppendFault
  /-- `fwrite` stopped after a prefix of the record. -/
  | short (written : Nat)
  /-- The record was written, and the flush or the sync failed. -/
  | unsynced
  deriving DecidableEq

/-! ## Images -/

/-- `journal_magic`. -/
def journalMagic : Bytes := ascii "FPMJRNL1"

/-- `snapshot_magic`. -/
def snapshotMagic : Bytes := ascii "FPMSNAP1"

/-- `store_header_bytes`. -/
def storeHeaderBytes : Nat := 24

/-- `record_header_bytes`. -/
def recordHeaderBytes : Nat := 16

/-- `record_trailer_bytes`. -/
def recordTrailerBytes : Nat := 8

/-- `durable_format_version`. -/
def durableFormatVersion : UInt32 := 1

/-- `read_u32` at the front of a byte string. -/
def readU32 (data : Bytes) : UInt32 :=
  UInt32.ofNat ((data.getD 0 0).toNat * 16777216 + (data.getD 1 0).toNat * 65536
    + (data.getD 2 0).toNat * 256 + (data.getD 3 0).toNat)

/-- `read_u64` at the front of a byte string. -/
def readU64 (data : Bytes) : UInt64 :=
  UInt64.ofNat ((readU32 data).toNat * 4294967296 + (readU32 (data.drop 4)).toNat)

/-- The 16-bit type at the front of a record header. -/
def readType (data : Bytes) : UInt16 :=
  UInt16.ofNat ((data.getD 0 0).toNat * 256 + (data.getD 1 0).toNat)

/-- The first sixteen bytes of a file header. -/
def headerPrefix (magic : Bytes) : Bytes := magic ++ be32 durableFormatVersion ++ be32 0

/-- `make_header`. -/
def makeHeader (magic : Bytes) : Bytes :=
  headerPrefix magic ++ be64 (crc64Bytes (headerPrefix magic))

/-- `validate_header`: the reason code of a refusal. -/
def validateHeader (data magic : Bytes) : Option ReasonCode :=
  if data.length < storeHeaderBytes then some .storeIntegrityFailure
  else if data.take magic.length ≠ magic then some .storeIntegrityFailure
  else if readU32 (data.drop 8) ≠ durableFormatVersion then some .storeVersionUnsupported
  else if readU64 (data.drop 16) ≠ crc64Bytes (data.take 16) then some .storeIntegrityFailure
  else none

/-- The header and the payload of a record. -/
def recordBody (record : DurableRecord) : Bytes :=
  be16 record.type.code ++ [0, 0] ++ be32 (UInt32.ofNat record.payload.length)
    ++ be64 record.sequence ++ record.payload

/-- `encode_record`. -/
def encodeRecord (record : DurableRecord) : Bytes :=
  recordBody record ++ be64 (crc64Bytes (recordBody record))

/-- `RecordParseStatus`. -/
inductive RecordParseStatus
  | ok (record : DurableRecord) (consumed : Nat)
  | short
  | invalid
  | integrity
  deriving DecidableEq

/-- `parse_record`. -/
def parseRecord (data : Bytes) (maxRecordBytes : Nat) : RecordParseStatus :=
  if data.length < recordHeaderBytes then .short
  else
    match DurableRecordType.ofCode (readType data) with
    | none => .invalid
    | some type =>
      let payloadSize := (readU32 (data.drop 4)).toNat
      if payloadSize > maxRecordBytes then .invalid
      else
        let body := recordHeaderBytes + payloadSize
        if data.length < body + recordTrailerBytes then .short
        else if readU64 (data.drop body) ≠ crc64Bytes (data.take body) then .integrity
        else .ok ⟨type, readU64 (data.drop 8), (data.drop recordHeaderBytes).take payloadSize⟩
          (body + recordTrailerBytes)

/-! ## Loading -/

/-- The arguments of a load refusal. -/
structure StoreRefusal where
  code : ReasonCode
  file : String
  detail : String
  deriving DecidableEq

/-- What the loading loops accumulate: the records so far, their highest sequence, the journal
bytes accounted for, whether the journal ended inside a record, and why loading stopped, if it
did. -/
structure StoreScan where
  records : List DurableRecord := []
  highestSequence : UInt64 := 0
  offset : Nat := 0
  torn : Bool := false
  refusal : Option StoreRefusal := none
  deriving DecidableEq

/-- Stop loading. -/
def StoreScan.refuse (scan : StoreScan) (code : ReasonCode) (file detail : String) : StoreScan :=
  { scan with refusal := some ⟨code, file, detail⟩ }

/-- Keep a record. -/
def StoreScan.keep (scan : StoreScan) (record : DurableRecord) : StoreScan :=
  { scan with records := scan.records ++ [record], highestSequence := record.sequence }

/-- The loop over the snapshot's records; what is left of the payload comes with the scan. -/
def scanSnapshotRecords (limits : Limits) : Nat → Bytes → StoreScan → StoreScan × Bytes
  | 0, rest, scan => (scan, rest)
  | n + 1, rest, scan =>
    match parseRecord rest limits.maxRecordBytes with
    | .ok record consumed =>
      if record.sequence ≤ scan.highestSequence then
        (scan.refuse .storeSequenceRegression "snapshot"
          "the snapshot contains a regressed record sequence", rest)
      else scanSnapshotRecords limits n (rest.drop consumed) (scan.keep record)
    | _ =>
      (scan.refuse .storeIntegrityFailure "snapshot"
        "a snapshot record is truncated, typed outside its domain, or fails its checksum", rest)

/-- The checks that follow the loop over the snapshot's records. -/
def finishSnapshot (lastSequence : UInt64) : StoreScan × Bytes → StoreScan
  | (scan, rest) =>
    if scan.refusal.isSome then scan
    else if rest ≠ [] then
      scan.refuse .storeTrailingGarbage "snapshot"
        "the snapshot carries bytes after its declared record stream"
    else if scan.highestSequence ≠ lastSequence then
      scan.refuse .storeSequenceRegression "snapshot"
        "the snapshot sequence watermark does not match its records"
    else scan

/-- The snapshot part of `load`. -/
def scanSnapshot (limits : Limits) (image : Bytes) : StoreScan :=
  let scan : StoreScan := {}
  if image.length > limits.maxSnapshotBytes then
    scan.refuse .limitExceededReason "snapshot" "the snapshot exceeds the configured bound"
  else
    match validateHeader image snapshotMagic with
    | some code =>
      scan.refuse code "snapshot" "the snapshot header is corrupt or of an unsupported version"
    | none =>
      if image.length < storeHeaderBytes + recordTrailerBytes then
        scan.refuse .storeIntegrityFailure "snapshot"
          "the snapshot is shorter than its header and trailer"
      else if readU64 (image.drop (image.length - recordTrailerBytes))
          ≠ crc64Bytes (image.take (image.length - recordTrailerBytes)) then
        scan.refuse .storeIntegrityFailure "snapshot"
          "the snapshot checksum does not match its contents"
      else
        let payload := (image.take (image.length - recordTrailerBytes)).drop storeHeaderBytes
        if payload.length < 16 then
          scan.refuse .storeIntegrityFailure "snapshot"
            "the snapshot payload is shorter than its own header"
        else
          let lastSequence := readU64 payload
          let recordCount := (readU64 (payload.drop 8)).toNat
          if recordCount > limits.maxJournalRecords then
            scan.refuse .limitExceededReason "snapshot"
              "the snapshot declares more records than the configured bound"
          else
            finishSnapshot lastSequence
              (scanSnapshotRecords limits recordCount (payload.drop 16) scan)

/-- The loop over the journal's records.  Every turn but the last consumes at least a header and a
trailer, so the length of what is left bounds the turns. -/
def scanJournalRecords (limits : Limits) (snapshotSequence : UInt64) :
    Nat → Bytes → StoreScan → StoreScan
  | 0, _, scan => scan
  | turns + 1, rest, scan =>
    if rest.isEmpty then scan
    else if rest.length < recordHeaderBytes then { scan with torn := true }
    else
      match DurableRecordType.ofCode (readType rest) with
      | none =>
        scan.refuse .storeIntegrityFailure "journal"
          "a journal record declares a type outside its domain"
      | some type =>
        let payloadSize := (readU32 (rest.drop 4)).toNat
        if payloadSize > limits.maxRecordBytes then
          scan.refuse .storeIntegrityFailure "journal"
            "a journal record declares a payload longer than the configured bound"
        else
          let body := recordHeaderBytes + payloadSize
          if rest.length < body + recordTrailerBytes then { scan with torn := true }
          else if readU64 (rest.drop body) ≠ crc64Bytes (rest.take body) then
            scan.refuse .storeIntegrityFailure "journal"
              ("a complete journal record fails its integrity check; the store is treated as "
                ++ "corrupt rather than silently truncated")
          else
            let record : DurableRecord :=
              ⟨type, readU64 (rest.drop 8), (rest.drop recordHeaderBytes).take payloadSize⟩
            let consumed := body + recordTrailerBytes
            if record.sequence ≤ snapshotSequence then
              scanJournalRecords limits snapshotSequence turns (rest.drop consumed)
                { scan with offset := scan.offset + consumed }
            else if record.sequence ≤ scan.highestSequence then
              scan.refuse .storeSequenceRegression "journal"
                "a journal record regresses the durable sequence"
            else
              scanJournalRecords limits snapshotSequence turns (rest.drop consumed)
                { scan.keep record with offset := scan.offset + consumed }

/-- The journal part of `load`: an empty file is an empty journal. -/
def scanJournal (limits : Limits) (journal : Bytes) (scan : StoreScan) : StoreScan :=
  if journal.isEmpty then scan
  else
    match validateHeader (journal.take storeHeaderBytes) journalMagic with
    | some code =>
      scan.refuse code "journal" "the journal header is corrupt or of an unsupported version"
    | none =>
      scanJournalRecords limits scan.highestSequence journal.length (journal.drop storeHeaderBytes)
        { scan with offset := storeHeaderBytes }

/-- The result of `load`. -/
structure StoreLoadResult where
  ok : Bool := false
  tornTailRecovered : Bool := false
  recordsLoaded : Nat := 0
  reasons : List Reason := []
  deriving DecidableEq

/-- The store. -/
structure DurableStore where
  limits : Limits
  disk : Disk
  records : List DurableRecord := []
  highestSequence : UInt64 := 0
  journalGoodBytes : Nat := 0
  /-- Is the journal open for append? -/
  isOpen : Bool := false
  /-- What the coming appends will meet. -/
  faults : List (Option AppendFault) := []
  deriving DecidableEq

namespace DurableStore

/-- The snapshot, if there is one. -/
def scanSnapshotFile (limits : Limits) : Option Bytes → StoreScan
  | none => {}
  | some image => scanSnapshot limits image

/-- Both files of a disk, in the order of `load`. -/
def scanDisk (limits : Limits) (disk : Disk) : StoreScan :=
  let scan := scanSnapshotFile limits disk.snapshot
  if scan.refusal.isSome then scan
  else
    match disk.journal with
    | none => scan
    | some journal => scanJournal limits journal scan

/-- `DurableStore::load`. -/
def load (store : DurableStore) : StoreLoadResult × DurableStore :=
  let scan := scanDisk store.limits store.disk
  let loaded := { store with
    records := scan.records
    highestSequence := scan.highestSequence
    -- the bytes accounted for are noted at the very end, past every refusal
    journalGoodBytes := if scan.refusal.isSome then 0 else scan.offset }
  match scan.refusal with
  | some refusal =>
    -- the records of the snapshot are counted once it has been read to its end
    ({ recordsLoaded := if refusal.file = "snapshot" then 0 else scan.records.length
       reasons := appendReason [] refusal.code (ascii refusal.file) (ascii refusal.detail)
         store.limits }, loaded)
  | none =>
    let reasons := if scan.torn then
        appendReason [] .storeTornTailRecovered (ascii "journal")
          (ascii "the final journal record was never fully committed and was discarded")
          store.limits
      else []
    ({ ok := true
       tornTailRecovered := scan.torn
       recordsLoaded := scan.records.length
       reasons := appendReason reasons .durableCommitAdvanced (ascii "journal")
         (ascii "durable state loaded and validated") store.limits }, loaded)

/-- `DurableStore::open_for_append`: a missing journal is created with its header, and a torn tail is
cut off. -/
def openForAppend (store : DurableStore) : DurableStore :=
  if store.isOpen then store
  else
    match store.disk.journal with
    | none =>
      { store with
        disk := { store.disk with journal := some (makeHeader journalMagic) }
        journalGoodBytes := storeHeaderBytes
        isOpen := true }
    | some journal =>
      let journal := if store.journalGoodBytes > 0 ∧ journal.length > store.journalGoodBytes then
          journal.take store.journalGoodBytes
        else journal
      { store with disk := { store.disk with journal := some journal }, isOpen := true }

/-- Write bytes at the end of the journal. -/
def writeJournal (store : DurableStore) (bytes : Bytes) : DurableStore :=
  { store with disk := { store.disk with journal := some (store.disk.journal.getD [] ++ bytes) } }

/-- `DurableStore::append`: did it succeed, and the store after it. -/
def append (store : DurableStore) (type : DurableRecordType) (sequence : UInt64)
    (payload : Bytes) : Bool × DurableStore :=
  if !store.isOpen then (false, store)
  else if payload.length > store.limits.maxRecordBytes then (false, store)
  else if sequence ≤ store.highestSequence then (false, store)
  else
    let record : DurableRecord := ⟨type, sequence, payload⟩
    let bytes := encodeRecord record
    let rest := { store with faults := store.faults.tail }
    match store.faults.head?.join with
    | some (.short written) => (false, rest.writeJournal (bytes.take (min written (bytes.length - 1))))
    | some .unsynced => (false, rest.writeJournal bytes)
    | none =>
      (true, { rest.writeJournal bytes with
        records := store.records ++ [record]
        highestSequence := sequence
        journalGoodBytes := store.journalGoodBytes + bytes.length })

/-- The image of a snapshot. -/
def snapshotImage (highestSequence : UInt64) (records : List DurableRecord) : Bytes :=
  let payload := be64 highestSequence ++ be64 (UInt64.ofNat records.length)
    ++ records.flatMap encodeRecord
  let image := makeHeader snapshotMagic ++ payload
  image ++ be64 (crc64Bytes image)

/-- `DurableStore::compact`: write a snapshot of every record, then start the journal anew.  A
snapshot that would exceed its bound is refused before anything is written. -/
def compact (store : DurableStore) : Bool × DurableStore :=
  let image := snapshotImage store.highestSequence store.records
  if image.length > store.limits.maxSnapshotBytes then (false, store)
  else
    let store := { store with disk := { store.disk with snapshot := some image } }
    if !store.isOpen then (false, store)
    else
      (true, { store with
        disk := { store.disk with journal := some (makeHeader journalMagic) }
        journalGoodBytes := storeHeaderBytes })

/-- `DurableStore::close`. -/
def close (store : DurableStore) : DurableStore := { store with isOpen := false }

end DurableStore

end FabricPartition
