import FabricPartition.Lib.Frames
import FabricPartition.Store

/-!
# What loading recovers

The disk is a function of the records that were appended, and `load` is its inverse: this file says
in which cases.

* A record is read back from the front of its encoding (`parseRecord_encode`), whatever follows, as
  long as its length fits the 32 bits of its length field, which `encode_record` does not check.
* `scanJournalRecords_stream` takes the journal loop through a stream of encoded records, and
  `scanJournalRecords_torn` says what it does with the front part of one: it reports a torn tail.
* `Disk.Holds` describes the disks on which some records are stored, between them a snapshot of the
  first few and a journal of the rest with a possible overlap; `scanDisk_of_holds` loads them.
-/

set_option autoImplicit false

namespace FabricPartition

open Frames

/-! ## Integers at the front of a byte string -/

@[simp]
theorem be16_length (v : UInt16) : (be16 v).length = 2 := rfl

@[simp]
theorem be32_length (v : UInt32) : (be32 v).length = 4 := rfl

@[simp]
theorem be64_length (v : UInt64) : (be64 v).length = 8 := rfl

theorem readType_be16 (v : UInt16) (rest : Bytes) : readType (be16 v ++ rest) = v := by
  apply UInt16.toNat_inj.mp
  have := v.toNat_lt
  simp only [readType, be16, List.cons_append, List.getD_cons_zero, List.getD_cons_succ,
    UInt8.toNat_ofNat', UInt16.toNat_ofNat']
  omega

theorem readU32_be32 (v : UInt32) (rest : Bytes) : readU32 (be32 v ++ rest) = v := by
  apply UInt32.toNat_inj.mp
  have := v.toNat_lt
  simp only [readU32, be32, List.cons_append, List.getD_cons_zero, List.getD_cons_succ,
    UInt8.toNat_ofNat', UInt32.toNat_ofNat']
  omega

theorem readU64_be64 (v : UInt64) (rest : Bytes) : readU64 (be64 v ++ rest) = v := by
  have hlow : readU32 ((be64 v ++ rest).drop 4) = UInt32.ofNat v.toNat :=
    readU32_be32 _ rest
  have hhigh : readU32 (be64 v ++ rest) = UInt32.ofNat (v.toNat / 4294967296) := by
    rw [be64, List.append_assoc]
    exact readU32_be32 _ _
  apply UInt64.toNat_inj.mp
  have := v.toNat_lt
  rw [readU64, hlow, hhigh]
  simp only [UInt32.toNat_ofNat', UInt64.toNat_ofNat']
  omega

/-! ## Records -/

/-- The sixteen bytes in front of a record's payload. -/
def recordHeader (record : DurableRecord) : Bytes :=
  be16 record.type.code ++ [0, 0] ++ be32 (UInt32.ofNat record.payload.length)
    ++ be64 record.sequence

/-- The record's length field is exact. -/
def DurableRecord.Representable (record : DurableRecord) : Prop := record.payload.length < 2 ^ 32

@[simp]
theorem recordHeader_length (record : DurableRecord) : (recordHeader record).length = 16 := rfl

theorem encodeRecord_eq (record : DurableRecord) :
    encodeRecord record
      = recordHeader record ++ (record.payload ++ be64 (crc64Bytes (recordBody record))) := by
  rw [encodeRecord, recordBody, recordHeader]
  simp only [List.append_assoc]

@[simp]
theorem recordBody_length (record : DurableRecord) :
    (recordBody record).length = recordHeaderBytes + record.payload.length := by
  rw [show recordBody record = recordHeader record ++ record.payload from rfl, List.length_append]
  rfl

@[simp]
theorem encodeRecord_length (record : DurableRecord) :
    (encodeRecord record).length = record.payload.length + 24 := by
  rw [encodeRecord_eq]
  simp only [List.length_append, recordHeader_length, be64_length]
  omega

section Header

variable (record : DurableRecord) (rest : Bytes)

theorem readType_header : readType (recordHeader record ++ rest) = record.type.code := by
  rw [recordHeader]
  simp only [List.append_assoc]
  exact readType_be16 _ _

theorem readU32_header :
    readU32 ((recordHeader record ++ rest).drop 4) = UInt32.ofNat record.payload.length := by
  have hdrop : (recordHeader record ++ rest).drop 4
      = be32 (UInt32.ofNat record.payload.length) ++ (be64 record.sequence ++ rest) := by
    rw [recordHeader, List.append_assoc, List.append_assoc]
    exact List.drop_left' rfl
  rw [hdrop]
  exact readU32_be32 _ _

theorem readU64_header : readU64 ((recordHeader record ++ rest).drop 8) = record.sequence := by
  have hdrop : (recordHeader record ++ rest).drop 8 = be64 record.sequence ++ rest := by
    rw [recordHeader, List.append_assoc]
    exact List.drop_left' rfl
  rw [hdrop]
  exact readU64_be64 _ _

end Header

theorem payloadSize_eq {record : DurableRecord} (h : record.Representable) :
    (UInt32.ofNat record.payload.length).toNat = record.payload.length := by
  rw [UInt32.toNat_ofNat']
  exact Nat.mod_eq_of_lt h

section Encoded

variable {record : DurableRecord} (h : record.Representable) (rest : Bytes)

theorem take_body :
    (encodeRecord record ++ rest).take (recordHeaderBytes + record.payload.length)
      = recordBody record := by
  rw [encodeRecord, List.append_assoc]
  exact List.take_left' (recordBody_length record)

theorem drop_body :
    (encodeRecord record ++ rest).drop (recordHeaderBytes + record.payload.length)
      = be64 (crc64Bytes (recordBody record)) ++ rest := by
  rw [encodeRecord, List.append_assoc]
  exact List.drop_left' (recordBody_length record)

theorem take_payload :
    ((encodeRecord record ++ rest).drop recordHeaderBytes).take record.payload.length
      = record.payload := by
  rw [encodeRecord_eq, List.append_assoc, List.append_assoc,
    List.drop_left' (show (recordHeader record).length = recordHeaderBytes from rfl),
    List.take_left]

theorem drop_encodeRecord :
    (encodeRecord record ++ rest).drop
      (recordHeaderBytes + record.payload.length + recordTrailerBytes) = rest := by
  refine List.drop_left' ?_
  rw [encodeRecord_length, recordHeaderBytes, recordTrailerBytes]
  omega

include h

/-- **A record is read back from its encoding.** -/
theorem parseRecord_encode (maxRecordBytes : Nat) :
    parseRecord (encodeRecord record ++ rest) maxRecordBytes
      = if record.payload.length > maxRecordBytes then .invalid
        else .ok record (recordHeaderBytes + record.payload.length + recordTrailerBytes) := by
  have hlong : recordHeaderBytes + record.payload.length + recordTrailerBytes
      ≤ (encodeRecord record ++ rest).length := by
    rw [List.length_append, encodeRecord_length, recordHeaderBytes, recordTrailerBytes]
    omega
  have htype : readType (encodeRecord record ++ rest) = record.type.code := by
    rw [encodeRecord_eq, List.append_assoc]
    exact readType_header record _
  have hsize : (readU32 ((encodeRecord record ++ rest).drop 4)).toNat = record.payload.length := by
    rw [encodeRecord_eq, List.append_assoc, readU32_header, payloadSize_eq h]
  have hsequence : readU64 ((encodeRecord record ++ rest).drop 8) = record.sequence := by
    rw [encodeRecord_eq, List.append_assoc, readU64_header]
  rw [parseRecord, if_neg (by omega), htype, DurableRecordType.ofCode_code]
  simp only [hsize, hsequence, take_body, drop_body, take_payload, readU64_be64, ne_eq,
    not_true_eq_false, if_false]
  rw [if_neg (show ¬ (encodeRecord record ++ rest).length
    < recordHeaderBytes + record.payload.length + recordTrailerBytes by omega)]

end Encoded

/-! ## Ascending records -/

/-- The sequences increase, from above a given one. -/
def Ascends : UInt64 → List DurableRecord → Prop
  | _, [] => True
  | low, record :: records => low < record.sequence ∧ Ascends record.sequence records

/-- The sequence of the last record, or a given one if there is none. -/
def lastSequence : UInt64 → List DurableRecord → UInt64
  | low, [] => low
  | _, record :: records => lastSequence record.sequence records

instance Ascends.decidable : (low : UInt64) → (records : List DurableRecord) →
    Decidable (Ascends low records)
  | _, [] => .isTrue trivial
  | low, record :: records =>
    @instDecidableAnd _ _ (inferInstanceAs (Decidable (low < record.sequence)))
      (Ascends.decidable record.sequence records)

theorem lastSequence_append (low : UInt64) (xs ys : List DurableRecord) :
    lastSequence low (xs ++ ys) = lastSequence (lastSequence low xs) ys := by
  induction xs generalizing low with
  | nil => rfl
  | cons x xs ih => exact ih _

theorem ascends_append {low : UInt64} {xs ys : List DurableRecord} :
    Ascends low (xs ++ ys) ↔ Ascends low xs ∧ Ascends (lastSequence low xs) ys := by
  induction xs generalizing low with
  | nil => exact ⟨fun h => ⟨trivial, h⟩, fun h => h.2⟩
  | cons x xs ih =>
    refine ⟨fun h => ⟨⟨h.1, (ih.mp h.2).1⟩, (ih.mp h.2).2⟩, fun h => ⟨h.1.1, ?_⟩⟩
    exact ih.mpr ⟨h.1.2, h.2⟩

theorem Ascends.le_last {low : UInt64} {records : List DurableRecord} (h : Ascends low records) :
    low ≤ lastSequence low records := by
  induction records generalizing low with
  | nil => exact UInt64.le_refl _
  | cons record records ih => exact UInt64.le_trans (UInt64.le_of_lt h.1) (ih h.2)

theorem Ascends.mem {low : UInt64} {records : List DurableRecord} (h : Ascends low records)
    {record : DurableRecord} (hmem : record ∈ records) :
    low < record.sequence ∧ record.sequence ≤ lastSequence low records := by
  induction records generalizing low with
  | nil => cases hmem
  | cons first records ih =>
    rcases List.mem_cons.mp hmem with rfl | hmem
    · exact ⟨h.1, h.2.le_last⟩
    · obtain ⟨hlow, hlast⟩ := ih h.2 hmem
      exact ⟨UInt64.lt_trans h.1 hlow, hlast⟩

/-- There are no more records than sequences. -/
theorem Ascends.length_le {low : UInt64} {records : List DurableRecord} (h : Ascends low records) :
    low.toNat + records.length ≤ (lastSequence low records).toNat := by
  induction records generalizing low with
  | nil => exact Nat.le_refl _
  | cons record records ih =>
    have hfirst : low.toNat < record.sequence.toNat := h.1
    have hrest := ih h.2
    rw [List.length_cons, lastSequence]
    omega

/-! ## The journal loop -/

section Journal

variable {limits : Limits} {snapshotSequence : UInt64}

/-- A scan that has gone past some records it did not keep. -/
def StoreScan.pass (scan : StoreScan) (records : List DurableRecord) : StoreScan :=
  { scan with offset := scan.offset + (stream encodeRecord records).length }

/-- A scan that has kept some records. -/
def StoreScan.keepAll (scan : StoreScan) (records : List DurableRecord) : StoreScan :=
  { scan with
    records := scan.records ++ records
    highestSequence := lastSequence scan.highestSequence records
    offset := scan.offset + (stream encodeRecord records).length }

/-- One turn of the journal loop at the front of a record's encoding. -/
theorem scanJournalRecords_encode {record : DurableRecord} (h : record.Representable)
    (turns : Nat) (rest : Bytes) (scan : StoreScan) :
    scanJournalRecords limits snapshotSequence (turns + 1) (encodeRecord record ++ rest) scan
      = if record.payload.length > limits.maxRecordBytes then
          scan.refuse .storeIntegrityFailure "journal"
            "a journal record declares a payload longer than the configured bound"
        else if record.sequence ≤ snapshotSequence then
          scanJournalRecords limits snapshotSequence turns rest (scan.pass [record])
        else if record.sequence ≤ scan.highestSequence then
          scan.refuse .storeSequenceRegression "journal"
            "a journal record regresses the durable sequence"
        else scanJournalRecords limits snapshotSequence turns rest (scan.keepAll [record]) := by
  have hlong : recordHeaderBytes + record.payload.length + recordTrailerBytes
      ≤ (encodeRecord record ++ rest).length := by
    rw [List.length_append, encodeRecord_length, recordHeaderBytes, recordTrailerBytes]
    omega
  have htype : readType (encodeRecord record ++ rest) = record.type.code := by
    rw [encodeRecord_eq, List.append_assoc]
    exact readType_header record _
  have hsize : (readU32 ((encodeRecord record ++ rest).drop 4)).toNat = record.payload.length := by
    rw [encodeRecord_eq, List.append_assoc, readU32_header, payloadSize_eq h]
  have hsequence : readU64 ((encodeRecord record ++ rest).drop 8) = record.sequence := by
    rw [encodeRecord_eq, List.append_assoc, readU64_header]
  have hlength : (stream encodeRecord [record]).length
      = recordHeaderBytes + record.payload.length + recordTrailerBytes := by
    rw [stream_cons, stream_nil, List.append_nil, encodeRecord_length, recordHeaderBytes,
      recordTrailerBytes]
    omega
  have hne : (encodeRecord record ++ rest).isEmpty = false := by
    rw [List.isEmpty_eq_false_iff, ← List.length_pos_iff]
    rw [recordHeaderBytes] at hlong
    omega
  rw [scanJournalRecords, hne, if_neg (by simp), if_neg (by omega), htype,
    DurableRecordType.ofCode_code]
  simp only [hsize, hsequence, take_body, drop_body, take_payload, drop_encodeRecord, readU64_be64,
    ne_eq, not_true_eq_false, if_false, StoreScan.pass, StoreScan.keepAll, StoreScan.keep, hlength,
    lastSequence]
  rw [if_neg (show ¬ (encodeRecord record ++ rest).length
    < recordHeaderBytes + record.payload.length + recordTrailerBytes by omega)]

/-- The journal loop goes past the records the snapshot has. -/
theorem scanJournalRecords_pass {records : List DurableRecord}
    (hfits : ∀ record ∈ records, record.Representable ∧
      record.payload.length ≤ limits.maxRecordBytes)
    (hold : ∀ record ∈ records, record.sequence ≤ snapshotSequence) (turns : Nat) (rest : Bytes)
    (scan : StoreScan) :
    scanJournalRecords limits snapshotSequence (records.length + turns)
        (stream encodeRecord records ++ rest) scan
      = scanJournalRecords limits snapshotSequence turns rest (scan.pass records) := by
  induction records generalizing scan with
  | nil => simp [StoreScan.pass]
  | cons record records ih =>
    obtain ⟨hrep, hbound⟩ := hfits record List.mem_cons_self
    rw [List.length_cons, show records.length + 1 + turns = (records.length + turns) + 1 by omega,
      stream_cons, List.append_assoc, scanJournalRecords_encode hrep, if_neg (by omega),
      if_pos (hold record List.mem_cons_self),
      ih (fun r hr => hfits r (List.mem_cons_of_mem _ hr))
        (fun r hr => hold r (List.mem_cons_of_mem _ hr))]
    congr 1
    simp only [StoreScan.pass, stream_cons, stream_nil, List.append_nil, List.length_append]
    rw [Nat.add_assoc]

/-- The journal loop keeps records that ascend. -/
theorem scanJournalRecords_keep {records : List DurableRecord} {scan : StoreScan}
    (hfits : ∀ record ∈ records, record.Representable ∧
      record.payload.length ≤ limits.maxRecordBytes)
    (hnew : snapshotSequence ≤ scan.highestSequence) (hasc : Ascends scan.highestSequence records)
    (turns : Nat) (rest : Bytes) :
    scanJournalRecords limits snapshotSequence (records.length + turns)
        (stream encodeRecord records ++ rest) scan
      = scanJournalRecords limits snapshotSequence turns rest (scan.keepAll records) := by
  induction records generalizing scan with
  | nil => simp [StoreScan.keepAll, lastSequence]
  | cons record records ih =>
    obtain ⟨hrep, hbound⟩ := hfits record List.mem_cons_self
    have hlow : scan.highestSequence < record.sequence := hasc.1
    have hnew' : snapshotSequence ≤ record.sequence :=
      UInt64.le_trans hnew (UInt64.le_of_lt hlow)
    rw [List.length_cons, show records.length + 1 + turns = (records.length + turns) + 1 by omega,
      stream_cons, List.append_assoc, scanJournalRecords_encode hrep, if_neg (by omega),
      if_neg (UInt64.not_le.mpr (UInt64.lt_of_le_of_lt hnew hlow)), if_neg (UInt64.not_le.mpr hlow),
      ih (fun r hr => hfits r (List.mem_cons_of_mem _ hr)) hnew' hasc.2]
    congr 1
    simp only [StoreScan.keepAll, stream_cons, stream_nil, List.append_nil, List.length_append,
      lastSequence, List.append_assoc, List.cons_append, List.nil_append]
    rw [Nat.add_assoc]

/-- The front part of a record, and not all of it, is a torn tail. -/
theorem scanJournalRecords_torn {record : DurableRecord} (hrep : record.Representable)
    (hbound : record.payload.length ≤ limits.maxRecordBytes) {n : Nat}
    (hn : n < (encodeRecord record).length) (turns : Nat) (scan : StoreScan) :
    scanJournalRecords limits snapshotSequence (turns + 1) ((encodeRecord record).take n) scan
      = { scan with torn := scan.torn || !((encodeRecord record).take n).isEmpty } := by
  by_cases hempty : ((encodeRecord record).take n).isEmpty = true
  · rw [scanJournalRecords, if_pos hempty, hempty]
    simp
  have hnil : ((encodeRecord record).take n).isEmpty = false := by simpa using hempty
  have hlength : ((encodeRecord record).take n).length = n := by
    rw [List.length_take]
    omega
  rw [scanJournalRecords, if_neg hempty, hnil]
  by_cases hshort : n < recordHeaderBytes
  · rw [if_pos (by omega)]
    simp
  · -- the header is there, and it says that more should follow
    have hsplit : (encodeRecord record).take n = recordHeader record
        ++ (record.payload ++ be64 (crc64Bytes (recordBody record))).take (n - 16) := by
      rw [encodeRecord_eq, List.take_append,
        List.take_of_length_le (by rw [recordHeader_length]; rw [recordHeaderBytes] at hshort; omega),
        recordHeader_length]
    rw [if_neg (by omega)]
    have htype : readType ((encodeRecord record).take n) = record.type.code := by
      rw [hsplit, readType_header]
    have hsize : (readU32 (((encodeRecord record).take n).drop 4)).toNat
        = record.payload.length := by
      rw [hsplit, readU32_header, payloadSize_eq hrep]
    rw [htype, DurableRecordType.ofCode_code]
    simp only [hsize]
    rw [encodeRecord_length] at hn
    rw [if_neg (by omega), if_pos (by rw [hlength, recordHeaderBytes, recordTrailerBytes]; omega)]
    simp

/-- A record past the bound stops the journal loop. -/
theorem scanJournalRecords_unfit {records : List DurableRecord}
    (hrep : ∀ record ∈ records, record.Representable)
    (hunfit : ∃ record ∈ records, limits.maxRecordBytes < record.payload.length) (turns : Nat)
    (rest : Bytes) (scan : StoreScan) :
    (scanJournalRecords limits snapshotSequence (records.length + turns)
      (stream encodeRecord records ++ rest) scan).refusal.isSome = true := by
  induction records generalizing scan with
  | nil => simp at hunfit
  | cons record records ih =>
    rw [List.length_cons, show records.length + 1 + turns = (records.length + turns) + 1 by omega,
      stream_cons, List.append_assoc, scanJournalRecords_encode (hrep record List.mem_cons_self)]
    split
    · rfl
    · rename_i hbound
      have hrest : ∃ r ∈ records, limits.maxRecordBytes < r.payload.length := by
        obtain ⟨r, hr, hlt⟩ := hunfit
        rcases List.mem_cons.mp hr with rfl | hr
        · exact absurd hlt hbound
        · exact ⟨r, hr, hlt⟩
      have hih := ih (fun r hr => hrep r (List.mem_cons_of_mem _ hr)) hrest
      split
      · exact hih _
      · split
        · rfl
        · exact hih _

/-- Whatever the bytes, a record the journal loop keeps has an exact length field. -/
theorem scanJournalRecords_representable (turns : Nat) (rest : Bytes) (scan : StoreScan)
    {record : DurableRecord}
    (h : record ∈ (scanJournalRecords limits snapshotSequence turns rest scan).records) :
    record ∈ scan.records ∨ record.Representable := by
  induction turns generalizing rest scan with
  | zero => exact .inl h
  | succ turns ih =>
    rw [scanJournalRecords] at h
    split at h
    · exact .inl h
    split at h
    · exact .inl h
    cases hcode : DurableRecordType.ofCode (readType rest) with
    | none =>
      rw [hcode] at h
      exact .inl h
    | some type =>
      rw [hcode] at h
      dsimp only at h
      split at h
      · exact .inl h
      split at h
      · exact .inl h
      split at h
      · exact .inl h
      split at h
      · have hkept := ih _ _ h
        exact hkept
      split at h
      · exact .inl h
      rcases ih _ _ h with h | h
      · rcases List.mem_append.mp h with h | h
        · exact .inl h
        · refine .inr ?_
          rw [List.mem_singleton.mp h, DurableRecord.Representable]
          exact Nat.lt_of_le_of_lt (List.length_take_le _ _) (UInt32.toNat_lt _)
      · exact .inr h

end Journal

/-! ## Headers and snapshots -/

/-- A header passes its own validation. -/
theorem validateHeader_makeHeader {magic : Bytes} (h : magic.length = 8) (rest : Bytes) :
    validateHeader (makeHeader magic ++ rest) magic = none := by
  have hheader : makeHeader magic ++ rest = magic ++ (be32 durableFormatVersion
      ++ (be32 0 ++ (be64 (crc64Bytes (headerPrefix magic)) ++ rest))) := by
    rw [makeHeader, headerPrefix]
    simp only [List.append_assoc]
  have hfront : (makeHeader magic ++ rest).take 16 = headerPrefix magic := by
    rw [makeHeader, List.append_assoc]
    refine List.take_left' ?_
    rw [headerPrefix, List.length_append, List.length_append, h]
    rfl
  have hcrc : (makeHeader magic ++ rest).drop 16
      = be64 (crc64Bytes (headerPrefix magic)) ++ rest := by
    rw [makeHeader, List.append_assoc]
    refine List.drop_left' ?_
    rw [headerPrefix, List.length_append, List.length_append, h]
    rfl
  have hlength : storeHeaderBytes ≤ (makeHeader magic ++ rest).length := by
    rw [hheader]
    simp only [List.length_append, be32_length, be64_length, h, storeHeaderBytes]
    omega
  have hversion : readU32 ((makeHeader magic ++ rest).drop 8) = durableFormatVersion := by
    rw [hheader, List.drop_left' h]
    exact readU32_be32 _ _
  have hmagic : (makeHeader magic ++ rest).take magic.length = magic := by
    rw [hheader]
    exact List.take_left
  rw [validateHeader, if_neg (by omega), if_neg (not_not.mpr hmagic), if_neg (not_not.mpr hversion),
    hcrc, hfront, if_neg (not_not.mpr (readU64_be64 _ _))]

@[simp]
theorem makeHeader_length {magic : Bytes} (h : magic.length = 8) :
    (makeHeader magic).length = storeHeaderBytes := by
  rw [makeHeader, headerPrefix]
  simp only [List.length_append, be32_length, be64_length, h, storeHeaderBytes]

theorem journalMagic_length : journalMagic.length = 8 := rfl

theorem snapshotMagic_length : snapshotMagic.length = 8 := rfl

theorem journalHeader_length : (makeHeader journalMagic).length = 24 :=
  makeHeader_length journalMagic_length

/-- Behind its header, a journal is what its record loop makes of it. -/
theorem scanJournal_header (limits : Limits) (rest : Bytes) (scan : StoreScan) :
    scanJournal limits (makeHeader journalMagic ++ rest) scan
      = scanJournalRecords limits scan.highestSequence (makeHeader journalMagic ++ rest).length rest
          { scan with offset := storeHeaderBytes } := by
  have hne : (makeHeader journalMagic ++ rest).isEmpty = false := by
    rw [List.isEmpty_eq_false_iff, ← List.length_pos_iff, List.length_append, journalHeader_length]
    omega
  have hheader : validateHeader ((makeHeader journalMagic ++ rest).take storeHeaderBytes)
      journalMagic = none := by
    have h := validateHeader_makeHeader journalMagic_length []
    rw [List.append_nil] at h
    rwa [List.take_left' (makeHeader_length journalMagic_length)]
  have hdrop : (makeHeader journalMagic ++ rest).drop storeHeaderBytes = rest :=
    List.drop_left' (makeHeader_length journalMagic_length)
  generalize makeHeader journalMagic ++ rest = journal at *
  rw [scanJournal, if_neg (by simp [hne]), hheader, hdrop]

section Snapshot

variable {limits : Limits}

/-- A scan that has kept the records of a snapshot. -/
def StoreScan.adopt (scan : StoreScan) (records : List DurableRecord) : StoreScan :=
  { scan with
    records := scan.records ++ records
    highestSequence := lastSequence scan.highestSequence records }

/-- The snapshot loop reads back a stream of records. -/
theorem scanSnapshotRecords_stream {records : List DurableRecord} {scan : StoreScan}
    (hfits : ∀ record ∈ records, record.Representable ∧
      record.payload.length ≤ limits.maxRecordBytes)
    (hasc : Ascends scan.highestSequence records) (rest : Bytes) :
    scanSnapshotRecords limits records.length (stream encodeRecord records ++ rest) scan
      = (scan.adopt records, rest) := by
  induction records generalizing scan with
  | nil => simp [scanSnapshotRecords, StoreScan.adopt, lastSequence]
  | cons record records ih =>
    obtain ⟨hrep, hbound⟩ := hfits record List.mem_cons_self
    have hlow : scan.highestSequence < record.sequence := hasc.1
    rw [List.length_cons, scanSnapshotRecords, stream_cons, List.append_assoc,
      parseRecord_encode hrep, if_neg (by omega)]
    dsimp only
    rw [if_neg (UInt64.not_le.mpr hlow), drop_encodeRecord,
      ih (fun r hr => hfits r (List.mem_cons_of_mem _ hr)) hasc.2]
    simp only [StoreScan.adopt, StoreScan.keep, lastSequence, List.append_assoc, List.cons_append,
      List.nil_append]

/-- A record past the bound stops the snapshot loop. -/
theorem scanSnapshotRecords_unfit {records : List DurableRecord}
    (hrep : ∀ record ∈ records, record.Representable)
    (hunfit : ∃ record ∈ records, limits.maxRecordBytes < record.payload.length)
    (rest : Bytes) (scan : StoreScan) :
    (scanSnapshotRecords limits records.length (stream encodeRecord records ++ rest)
      scan).1.refusal.isSome = true := by
  induction records generalizing scan with
  | nil => simp at hunfit
  | cons record records ih =>
    rw [List.length_cons, scanSnapshotRecords, stream_cons, List.append_assoc,
      parseRecord_encode (hrep record List.mem_cons_self)]
    by_cases hbound : record.payload.length > limits.maxRecordBytes
    · rw [if_pos hbound]
      rfl
    · have hrest : ∃ r ∈ records, limits.maxRecordBytes < r.payload.length := by
        obtain ⟨r, hr, hlt⟩ := hunfit
        rcases List.mem_cons.mp hr with rfl | hr
        · exact absurd hlt hbound
        · exact ⟨r, hr, hlt⟩
      rw [if_neg hbound]
      dsimp only
      split
      · rfl
      · rw [drop_encodeRecord]
        exact ih (fun r hr => hrep r (List.mem_cons_of_mem _ hr)) hrest _

/-- Whatever the bytes, a record that is parsed has an exact length field. -/
theorem parseRecord_representable {data : Bytes} {maxRecordBytes : Nat} {record : DurableRecord}
    {consumed : Nat} (h : parseRecord data maxRecordBytes = .ok record consumed) :
    record.Representable := by
  rw [parseRecord] at h
  split at h
  · cases h
  cases hcode : DurableRecordType.ofCode (readType data) with
  | none =>
    rw [hcode] at h
    cases h
  | some type =>
    rw [hcode] at h
    dsimp only at h
    split at h
    · cases h
    split at h
    · cases h
    split at h
    · cases h
    · obtain ⟨rfl, -⟩ := RecordParseStatus.ok.inj h
      exact Nat.lt_of_le_of_lt (List.length_take_le _ _) (UInt32.toNat_lt _)

theorem scanSnapshotRecords_representable (n : Nat) (rest : Bytes) (scan : StoreScan)
    {record : DurableRecord} (h : record ∈ (scanSnapshotRecords limits n rest scan).1.records) :
    record ∈ scan.records ∨ record.Representable := by
  induction n generalizing rest scan with
  | zero => exact .inl h
  | succ n ih =>
    rw [scanSnapshotRecords] at h
    cases hparse : parseRecord rest limits.maxRecordBytes with
    | ok first consumed =>
      rw [hparse] at h
      dsimp only at h
      split at h
      · exact .inl h
      · rcases ih _ _ h with h | h
        · rcases List.mem_append.mp h with h | h
          · exact .inl h
          · rw [List.mem_singleton.mp h]
            exact .inr (parseRecord_representable hparse)
        · exact .inr h
    | short =>
      rw [hparse] at h
      exact .inl h
    | invalid =>
      rw [hparse] at h
      exact .inl h
    | integrity =>
      rw [hparse] at h
      exact .inl h

theorem finishSnapshot_records (sequence : UInt64) (outcome : StoreScan × Bytes) :
    (finishSnapshot sequence outcome).records = outcome.1.records := by
  obtain ⟨scan, rest⟩ := outcome
  rw [finishSnapshot]
  split
  · rfl
  · split
    · rfl
    · split <;> rfl

theorem scanSnapshot_representable {image : Bytes} {record : DurableRecord}
    (h : record ∈ (scanSnapshot limits image).records) : record.Representable := by
  rw [scanSnapshot] at h
  split at h
  · cases h
  cases hheader : validateHeader image snapshotMagic with
  | some code =>
    rw [hheader] at h
    cases h
  | none =>
    rw [hheader] at h
    dsimp only at h
    split at h
    · cases h
    split at h
    · cases h
    split at h
    · cases h
    split at h
    · cases h
    · rw [finishSnapshot_records] at h
      rcases scanSnapshotRecords_representable _ _ _ h with h | h
      · cases h
      · exact h

/-- The payload of a snapshot of some records. -/
def snapshotPayload (records : List DurableRecord) : Bytes :=
  be64 (lastSequence 0 records) ++ (be64 (UInt64.ofNat records.length)
    ++ stream encodeRecord records)

/-- The snapshot of some records. -/
def snapshotOf (records : List DurableRecord) : Bytes :=
  DurableStore.snapshotImage (lastSequence 0 records) records

theorem snapshotOf_eq (records : List DurableRecord) :
    snapshotOf records = (makeHeader snapshotMagic ++ snapshotPayload records)
      ++ be64 (crc64Bytes (makeHeader snapshotMagic ++ snapshotPayload records)) := by
  rw [snapshotOf, DurableStore.snapshotImage, snapshotPayload, stream]
  simp only [List.append_assoc]

/-- **A snapshot is read back within the bounds, and refused past them.** -/
theorem scanSnapshot_snapshotOf {records : List DurableRecord}
    (hrep : ∀ record ∈ records, record.Representable) (hasc : Ascends 0 records) :
    ((snapshotOf records).length ≤ limits.maxSnapshotBytes ∧
        records.length ≤ limits.maxJournalRecords ∧
        (∀ record ∈ records, record.payload.length ≤ limits.maxRecordBytes)) ∧
      scanSnapshot limits (snapshotOf records) = StoreScan.adopt {} records ∨
    ¬ ((snapshotOf records).length ≤ limits.maxSnapshotBytes ∧
        records.length ≤ limits.maxJournalRecords ∧
        (∀ record ∈ records, record.payload.length ≤ limits.maxRecordBytes)) ∧
      (scanSnapshot limits (snapshotOf records)).refusal.isSome = true := by
  have hbody : (makeHeader snapshotMagic ++ snapshotPayload records).length
      = (snapshotOf records).length - recordTrailerBytes := by
    rw [snapshotOf_eq, recordTrailerBytes]
    simp only [List.length_append, be64_length]
    omega
  have hpayload : (snapshotPayload records).length
      = 16 + (stream encodeRecord records).length := by
    simp only [snapshotPayload, List.length_append, be64_length]
    omega
  have hlength : (snapshotOf records).length
      = storeHeaderBytes + (snapshotPayload records).length + recordTrailerBytes := by
    rw [snapshotOf_eq, List.length_append, List.length_append,
      makeHeader_length snapshotMagic_length, be64_length, recordTrailerBytes]
  have htake : (snapshotOf records).take ((snapshotOf records).length - recordTrailerBytes)
      = makeHeader snapshotMagic ++ snapshotPayload records := by
    nth_rewrite 2 [snapshotOf_eq]
    exact List.take_left' hbody
  have hdrop : (snapshotOf records).drop ((snapshotOf records).length - recordTrailerBytes)
      = be64 (crc64Bytes (makeHeader snapshotMagic ++ snapshotPayload records)) := by
    nth_rewrite 2 [snapshotOf_eq]
    exact List.drop_left' hbody
  have hheader : validateHeader (snapshotOf records) snapshotMagic = none := by
    rw [snapshotOf_eq, List.append_assoc]
    exact validateHeader_makeHeader snapshotMagic_length _
  have hcount : (UInt64.ofNat records.length).toNat = records.length := by
    have hle := hasc.length_le
    have hlt := (lastSequence 0 records).toNat_lt
    rw [UInt64.toNat_ofNat']
    omega
  have hsum : readU64 (be64 (crc64Bytes (makeHeader snapshotMagic ++ snapshotPayload records)))
      = crc64Bytes (makeHeader snapshotMagic ++ snapshotPayload records) := by
    have h := readU64_be64 (crc64Bytes (makeHeader snapshotMagic ++ snapshotPayload records)) []
    rwa [List.append_nil] at h
  have hinner : (makeHeader snapshotMagic ++ snapshotPayload records).drop storeHeaderBytes
      = snapshotPayload records :=
    List.drop_left' (makeHeader_length snapshotMagic_length)
  have hlast : readU64 (snapshotPayload records) = lastSequence 0 records := by
    rw [snapshotPayload]
    exact readU64_be64 _ _
  have hdeclared : readU64 ((snapshotPayload records).drop 8) = UInt64.ofNat records.length := by
    rw [snapshotPayload, List.drop_left' (be64_length _)]
    exact readU64_be64 _ _
  have hrecords : (snapshotPayload records).drop 16 = stream encodeRecord records := by
    rw [snapshotPayload, ← List.append_assoc]
    exact List.drop_left' rfl
  simp only [scanSnapshot, hheader, hdrop, htake, hsum, hinner, hdeclared, hcount, hrecords, hlast]
  by_cases hbytes : (snapshotOf records).length > limits.maxSnapshotBytes
  · rw [if_pos hbytes]
    exact .inr ⟨fun h => absurd h.1 (by omega), rfl⟩
  rw [if_neg hbytes, if_neg (by rw [hlength]; omega), if_neg (not_not.mpr rfl),
    if_neg (by rw [hpayload]; omega)]
  by_cases hmany : records.length > limits.maxJournalRecords
  · rw [if_pos hmany]
    exact .inr ⟨fun h => absurd h.2.1 (by omega), rfl⟩
  rw [if_neg hmany]
  by_cases hfits : ∀ record ∈ records, record.payload.length ≤ limits.maxRecordBytes
  · have hscan : scanSnapshotRecords limits records.length (stream encodeRecord records ++ []) {}
        = (StoreScan.adopt {} records, []) :=
      scanSnapshotRecords_stream (fun record hr => ⟨hrep record hr, hfits record hr⟩) hasc []
    rw [List.append_nil] at hscan
    rw [hscan]
    refine .inl ⟨⟨by omega, by omega, hfits⟩, ?_⟩
    simp [finishSnapshot, StoreScan.adopt]
  · have hunfit : ∃ record ∈ records, limits.maxRecordBytes < record.payload.length := by
      simpa using hfits
    have hscan := scanSnapshotRecords_unfit hrep hunfit [] {}
    rw [List.append_nil] at hscan
    refine .inr ⟨fun h => hfits h.2.2, ?_⟩
    rw [finishSnapshot, if_pos hscan]
    exact hscan

end Snapshot

/-! ## Disks that hold some records -/

/-- The front part of a record that could be written under the limits, and not all of it. -/
def TornTail (limits : Limits) (tail : Bytes) : Prop :=
  ∃ record : DurableRecord, record.Representable ∧
    record.payload.length ≤ limits.maxRecordBytes ∧
    ∃ n < (encodeRecord record).length, tail = (encodeRecord record).take n

theorem tornTail_nil (limits : Limits) : TornTail limits [] :=
  ⟨{}, Nat.two_pow_pos 32, Nat.zero_le _, 0, by rw [encodeRecord_length]; omega, rfl⟩

/-- A disk that holds some records: a snapshot of the first `covered` of them, and a journal of all
the others and possibly some of those, with a tail behind them.  Where the snapshot covers all of
them there may be no journal, or an empty file. -/
structure Disk.Holds (disk : Disk) (records : List DurableRecord) (covered : Nat) (tail : Bytes) :
    Prop where
  covered_le : covered ≤ records.length
  snapshot : disk.snapshot = none ∧ covered = 0 ∨
    disk.snapshot = some (snapshotOf (records.take covered))
  journal : (disk.journal = none ∨ disk.journal = some []) ∧ covered = records.length ∧ tail = [] ∨
    ∃ start ≤ covered, disk.journal = some (makeHeader journalMagic
      ++ (stream encodeRecord (records.drop start) ++ tail))

/-- The snapshot of a disk, if it has one, is within the bounds of the limits. -/
def Disk.SnapshotWithin (disk : Disk) (limits : Limits) (covered : Nat) : Prop :=
  ∀ image, disk.snapshot = some image →
    image.length ≤ limits.maxSnapshotBytes ∧ covered ≤ limits.maxJournalRecords

/-- Records that were appended: their sequences ascend from one, and their length fields are exact. -/
structure Recorded (records : List DurableRecord) : Prop where
  ascends : Ascends 0 records
  representable : ∀ record ∈ records, record.Representable

theorem Recorded.of_prefix {records front : List DurableRecord} (h : Recorded records)
    (hfront : front <+: records) : Recorded front := by
  obtain ⟨rest, rfl⟩ := hfront
  exact ⟨(ascends_append.mp h.ascends).1, fun r hr => h.representable r (List.mem_append_left _ hr)⟩

/-- What loading makes of a disk that holds some records. -/
def loadedScan (disk : Disk) (records : List DurableRecord) (tail : Bytes) : StoreScan where
  records := records
  highestSequence := lastSequence 0 records
  offset := (disk.journal.getD []).length - tail.length
  torn := !tail.isEmpty

section Load

variable {limits : Limits} {disk : Disk} {records : List DurableRecord} {covered : Nat}
  {tail : Bytes}

/-- The scan after the snapshot. -/
def coveredScan (records : List DurableRecord) (covered : Nat) : StoreScan :=
  StoreScan.adopt {} (records.take covered)

theorem length_le_stream (rs : List DurableRecord) :
    rs.length ≤ (stream encodeRecord rs).length := by
  induction rs with
  | nil => exact Nat.le_refl _
  | cons r rs ih =>
    rw [stream_cons, List.length_append, List.length_cons, encodeRecord_length]
    omega

theorem coveredScan_highestSequence :
    (coveredScan records covered).highestSequence = lastSequence 0 (records.take covered) := rfl

/-- The journal loop over a journal that follows the snapshot. -/
theorem scanJournal_after (hrec : Recorded records)
    (hfits : ∀ record ∈ records, record.payload.length ≤ limits.maxRecordBytes) {start : Nat}
    (hstart : start ≤ covered) (hcovered : covered ≤ records.length)
    (htail : TornTail limits tail) :
    scanJournal limits (makeHeader journalMagic
        ++ (stream encodeRecord (records.drop start) ++ tail)) (coveredScan records covered)
      = { records := records
          highestSequence := lastSequence 0 records
          offset := storeHeaderBytes + (stream encodeRecord (records.drop start)).length
          torn := !tail.isEmpty } := by
  -- the journal repeats the records from `start` to `covered`, then goes on
  have hsplit : records.drop start = (records.take covered).drop start ++ records.drop covered := by
    conv_lhs => rw [← List.take_append_drop covered records]
    rw [List.drop_append_of_le_length (by rw [List.length_take]; omega)]
  have hall : records.take covered ++ records.drop covered = records :=
    List.take_append_drop covered records
  have hasc := ascends_append.mp (hall.symm ▸ hrec.ascends)
  have hfit : ∀ record ∈ records, record.Representable ∧
      record.payload.length ≤ limits.maxRecordBytes :=
    fun record hr => ⟨hrec.representable record hr, hfits record hr⟩
  have hold : ∀ record ∈ (records.take covered).drop start,
      record.sequence ≤ lastSequence 0 (records.take covered) :=
    fun record hr => (hasc.1.mem (List.mem_of_mem_drop hr)).2
  have hfuel : ∃ turns, (makeHeader journalMagic ++ (stream encodeRecord (records.drop start)
      ++ tail)).length = ((records.take covered).drop start).length
      + ((records.drop covered).length + (turns + 1)) := by
    have hlong := length_le_stream (records.drop start)
    rw [hsplit, List.length_append] at hlong
    rw [← hsplit] at hlong
    refine ⟨24 + ((stream encodeRecord (records.drop start)).length + tail.length)
      - (((records.take covered).drop start).length + (records.drop covered).length) - 1, ?_⟩
    rw [List.length_append, List.length_append, journalHeader_length]
    omega
  obtain ⟨turns, hturns⟩ := hfuel
  obtain ⟨torn, hrep, hbound, n, hn, rfl⟩ := htail
  rw [scanJournal_header, hturns, hsplit, stream_append, List.append_assoc, coveredScan_highestSequence,
    scanJournalRecords_pass
      (fun r hr => hfit r (List.mem_of_mem_take (List.mem_of_mem_drop hr))) hold,
    scanJournalRecords_keep (fun r hr => hfit r (List.mem_of_mem_drop hr))
      (UInt64.le_refl (lastSequence 0 (records.take covered))) hasc.2,
    scanJournalRecords_torn hrep hbound hn]
  simp only [StoreScan.keepAll, StoreScan.pass, coveredScan, StoreScan.adopt, List.nil_append, hall,
    ← lastSequence_append, List.length_append, Bool.false_or, Nat.add_assoc]

/-- The scan after the snapshot of a disk that holds some records. -/
theorem scanSnapshot_of_holds (hdisk : disk.Holds records covered tail) (hrec : Recorded records)
    (hfits : ∀ record ∈ records, record.payload.length ≤ limits.maxRecordBytes)
    (hwithin : disk.SnapshotWithin limits covered) :
    DurableStore.scanSnapshotFile limits disk.snapshot = coveredScan records covered := by
  rcases hdisk.snapshot with ⟨hnone, rfl⟩ | hsome
  · rw [hnone]
    rfl
  · obtain ⟨hbytes, hcount⟩ := hwithin _ hsome
    have hfront := hrec.of_prefix (List.take_prefix covered records)
    rw [hsome, DurableStore.scanSnapshotFile]
    rcases scanSnapshot_snapshotOf hfront.representable hfront.ascends with ⟨-, hscan⟩ | ⟨hpast, -⟩
    · exact hscan
    · refine absurd ⟨hbytes, ?_, ?_⟩ hpast
      · exact (List.length_take_le _ _).trans hcount
      · exact fun r hr => hfits r (List.mem_of_mem_take hr)

/-- **Loading recovers the records**, within the limits. -/
theorem scanDisk_of_holds (hdisk : disk.Holds records covered tail) (hrec : Recorded records)
    (hfits : ∀ record ∈ records, record.payload.length ≤ limits.maxRecordBytes)
    (hwithin : disk.SnapshotWithin limits covered) (htail : TornTail limits tail) :
    DurableStore.scanDisk limits disk = loadedScan disk records tail := by
  rw [DurableStore.scanDisk, scanSnapshot_of_holds hdisk hrec hfits hwithin]
  rw [if_neg (by simp [coveredScan, StoreScan.adopt])]
  rcases hdisk.journal with ⟨hnone, hcovered, rfl⟩ | ⟨start, hstart, hsome⟩
  · have hall : records.take covered = records := List.take_of_length_le (by omega)
    rcases hnone with hnone | hempty
    · rw [hnone, loadedScan, hnone, coveredScan, hall]
      rfl
    · rw [hempty, loadedScan, hempty, coveredScan, hall]
      rfl
  · rw [hsome, loadedScan, hsome]
    dsimp only
    rw [scanJournal_after hrec hfits hstart hdisk.covered_le htail]
    simp only [Option.getD_some, List.length_append, journalHeader_length, storeHeaderBytes]
    congr 1
    omega

/-- **Loading refuses what is past the limits**: where it succeeds, the records are within them. -/
theorem within_of_scanDisk (hdisk : disk.Holds records covered tail) (hrec : Recorded records)
    (hok : (DurableStore.scanDisk limits disk).refusal = none) :
    (∀ record ∈ records, record.payload.length ≤ limits.maxRecordBytes) ∧
      disk.SnapshotWithin limits covered := by
  have hfront := hrec.of_prefix (List.take_prefix covered records)
  rw [DurableStore.scanDisk] at hok
  -- first the snapshot: had it been refused, so would the disk have been
  have hsnapshot : (∀ record ∈ records.take covered,
      record.payload.length ≤ limits.maxRecordBytes) ∧ disk.SnapshotWithin limits covered ∧
      DurableStore.scanSnapshotFile limits disk.snapshot = coveredScan records covered := by
    rcases hdisk.snapshot with ⟨hnone, rfl⟩ | hsome
    · refine ⟨fun r hr => ?_, fun image himage => ?_, by rw [hnone]; rfl⟩
      · cases hr
      · rw [hnone] at himage
        cases himage
    · rw [hsome, DurableStore.scanSnapshotFile] at hok
      rw [hsome, DurableStore.scanSnapshotFile]
      rcases scanSnapshot_snapshotOf hfront.representable hfront.ascends with
        ⟨⟨hbytes, hcount, hfits⟩, hscan⟩ | ⟨-, hrefused⟩
      · refine ⟨hfits, fun image himage => ?_, hscan⟩
        obtain rfl := Option.some.inj (hsome.symm.trans himage)
        rw [List.length_take, Nat.min_eq_left hdisk.covered_le] at hcount
        exact ⟨hbytes, hcount⟩
      · rw [if_pos hrefused] at hok
        rw [hok] at hrefused
        cases hrefused
  obtain ⟨hfits, hwithin, hscan⟩ := hsnapshot
  rw [hscan] at hok
  rw [if_neg (by simp [coveredScan, StoreScan.adopt])] at hok
  refine ⟨?_, hwithin⟩
  rcases hdisk.journal with ⟨-, hcovered, -⟩ | ⟨start, hstart, hsome⟩
  · rwa [List.take_of_length_le (by omega)] at hfits
  · by_contra hpast
    -- a record past the bound is in the journal, and stops its loop
    have hunfit : ∃ record ∈ records.drop start,
        limits.maxRecordBytes < record.payload.length := by
      obtain ⟨r, hr, hlt⟩ : ∃ r ∈ records, limits.maxRecordBytes < r.payload.length := by
        simpa using hpast
      rw [← List.take_append_drop covered records] at hr
      rcases List.mem_append.mp hr with hr | hr
      · exact absurd (hfits r hr) (by omega)
      · rw [show covered = start + (covered - start) by omega, ← List.drop_drop] at hr
        exact ⟨r, List.mem_of_mem_drop hr, hlt⟩
    rw [hsome] at hok
    dsimp only at hok
    have hlong := length_le_stream (records.drop start)
    obtain ⟨turns, hturns⟩ : ∃ turns, (makeHeader journalMagic
        ++ (stream encodeRecord (records.drop start) ++ tail)).length
          = (records.drop start).length + turns := by
      refine Nat.exists_eq_add_of_le ?_
      rw [List.length_append, List.length_append]
      omega
    rw [scanJournal_header, hturns] at hok
    refine absurd (congrArg Option.isSome hok) (Bool.eq_false_iff.not.mpr ?_)
    rw [scanJournalRecords_unfit (fun r hr => hrec.representable r (List.mem_of_mem_drop hr)) hunfit]
    simp

end Load

end FabricPartition
