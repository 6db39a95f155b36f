import FabricPartition.Durability
import FabricPartition.Lib.Checksum
import Mathlib.Data.Nat.Bitwise

/-!
# Corrupted journals

What `load` makes of a journal some bytes of which were changed behind the store's back.

A change of one byte outside the length fields is always noticed (`corruption_refused`): the records
are found where they were, and CRC-64 tells two byte strings apart that differ in one byte, because
each step of it can be undone.  A changed length field is another matter, because nothing but the
length says where a record ends: one that runs past the end of the file is taken for a torn tail, and
all records behind it are forgotten (`wrong_length_iff`).
-/

set_option autoImplicit false

namespace FabricPartition

open Frames

/-! ## The checksum of a changed byte string -/

theorem crc64Bit_lt {value : Nat} (h : value < 2 ^ 64) : crc64Bit value < 2 ^ 64 := by
  have hshift : value >>> 1 < 2 ^ 64 := by
    rw [Nat.shiftRight_eq_div_pow]
    omega
  rw [crc64Bit]
  split
  · exact Nat.xor_lt_two_pow hshift (by decide)
  · exact hshift

theorem crc64Entry_lt {index : Nat} (h : index < 2 ^ 64) : crc64Entry index < 2 ^ 64 := by
  rw [crc64Entry]
  iterate 8 apply crc64Bit_lt
  exact h

/-- One bit of a table entry taken back, as far as the top bit tells. -/
def crc64Unbit (value : Nat) : Nat :=
  if value.testBit 63 then ((value ^^^ 0xC96C5795D7870F42) <<< 1) + 1 else value <<< 1

/-- The slot of the table entry with a top byte. -/
def crc64Slot (top : Nat) : Nat := Nat.iterate (fun v => crc64Unbit v % 2 ^ 64) 8 (top <<< 56) % 256

theorem crc64Slot_entry : ∀ i < 256, crc64Slot (crc64Entry i >>> 56) = i := by
  decide +kernel

theorem crc64Entry_inj {i j : Nat} (hi : i < 256) (hj : j < 256)
    (h : crc64Entry i >>> 56 = crc64Entry j >>> 56) : i = j := by
  rw [← crc64Slot_entry i hi, ← crc64Slot_entry j hj, h]

/-- The step of `Crc64::update` can be undone. -/
theorem crc64_undoable : Checksum.Undoable (· < 2 ^ 64)
    (fun (v : Nat) (b : UInt8) => crc64Entry ((v ^^^ b.toNat) % 256) ^^^ (v >>> 8)) where
  keeps v b hv := by
    refine Nat.xor_lt_two_pow (crc64Entry_lt ?_) ?_
    · have := Nat.mod_lt (v ^^^ b.toNat) (show 0 < 256 by decide)
      omega
    · rw [Nat.shiftRight_eq_div_pow]
      omega
  state v w b hv hw h := by
    have hvtop : v >>> 8 >>> 56 = 0 := by
      rw [← Nat.shiftRight_add, Nat.shiftRight_eq_div_pow]
      omega
    have hwtop : w >>> 8 >>> 56 = 0 := by
      rw [← Nat.shiftRight_add, Nat.shiftRight_eq_div_pow]
      omega
    have htop := congrArg (· >>> 56) h
    simp only [Nat.shiftRight_xor_distrib, hvtop, hwtop, Nat.xor_zero] at htop
    have hslot := crc64Entry_inj (Nat.mod_lt _ (by decide)) (Nat.mod_lt _ (by decide)) htop
    rw [hslot] at h
    have hhigh := Nat.xor_right_injective h
    have hlow : v % 2 ^ 8 = w % 2 ^ 8 := by
      rw [show 256 = 2 ^ 8 from rfl, Nat.xor_mod_two_pow, Nat.xor_mod_two_pow] at hslot
      exact Nat.xor_left_injective hslot
    rw [Nat.shiftRight_eq_div_pow, Nat.shiftRight_eq_div_pow] at hhigh
    omega
  item v b c hv h := by
    have hentry := Nat.xor_left_injective h
    have hslot := crc64Entry_inj (Nat.mod_lt _ (by decide)) (Nat.mod_lt _ (by decide))
      (congrArg (· >>> 56) hentry)
    rw [show 256 = 2 ^ 8 from rfl, Nat.xor_mod_two_pow, Nat.xor_mod_two_pow] at hslot
    have hbyte := Nat.xor_right_injective hslot
    have hb := b.toNat_lt
    have hc := c.toNat_lt
    exact UInt8.toNat_inj.mp (by omega)

/-- The checksum tells two messages apart as the running values do. -/
theorem crc64Bytes_eq_iff (a b : Bytes) : crc64Bytes a = crc64Bytes b ↔
    crc64Update crc64Initial a = crc64Update crc64Initial b := by
  have hlt : ∀ data : Bytes, crc64Update crc64Initial data ^^^ 0xFFFFFFFFFFFFFFFF < 2 ^ 64 :=
    fun data => Nat.xor_lt_two_pow (crc64_undoable.foldl_valid (by decide) data) (by decide)
  refine ⟨fun h => ?_, fun h => by rw [crc64Bytes, crc64Bytes, h]⟩
  have htoNat := congrArg UInt64.toNat h
  rw [crc64Bytes, crc64Bytes, UInt64.toNat_ofNat_of_lt' (hlt a),
    UInt64.toNat_ofNat_of_lt' (hlt b)] at htoNat
  exact Nat.xor_left_injective htoNat

/-- One changed byte changes the checksum. -/
theorem crc64Bytes_ne_of_change (front back : Bytes) {b c : UInt8} (hne : c ≠ b) :
    crc64Bytes (front ++ c :: back) ≠ crc64Bytes (front ++ b :: back) := by
  rw [Ne, crc64Bytes_eq_iff]
  exact crc64_undoable.foldl_ne_of_change (by decide) front back hne

/-! ## Reading a record from bytes -/

theorem be32_readU32 {data : Bytes} (h : 4 ≤ data.length) : be32 (readU32 data) = data.take 4 := by
  rcases data with _ | ⟨a, _ | ⟨b, _ | ⟨c, _ | ⟨d, rest⟩⟩⟩⟩
  · simp at h
  · simp at h
  · simp at h
  · simp at h
  · have ha := a.toNat_lt
    have hb := b.toNat_lt
    have hc := c.toNat_lt
    have hd := d.toNat_lt
    simp only [be32, readU32, List.getD_cons_zero, List.getD_cons_succ, UInt32.toNat_ofNat',
      List.take_succ_cons, List.take_zero]
    refine congrArg₂ _ ?_ (congrArg₂ _ ?_ (congrArg₂ _ ?_ (congrArg₂ _ ?_ rfl))) <;>
    · apply UInt8.toNat_inj.mp
      rw [UInt8.toNat_ofNat']
      omega

theorem be64_readU64 {data : Bytes} (h : 8 ≤ data.length) : be64 (readU64 data) = data.take 8 := by
  have hhigh := (readU32 data).toNat_lt
  have hlow := (readU32 (data.drop 4)).toNat_lt
  have hsum : (readU64 data).toNat
      = (readU32 data).toNat * 4294967296 + (readU32 (data.drop 4)).toNat := by
    rw [readU64, UInt64.toNat_ofNat']
    omega
  have hdiv : UInt32.ofNat ((readU64 data).toNat / 4294967296) = readU32 data := by
    apply UInt32.toNat_inj.mp
    rw [UInt32.toNat_ofNat', hsum]
    omega
  have hmod : UInt32.ofNat (readU64 data).toNat = readU32 (data.drop 4) := by
    apply UInt32.toNat_inj.mp
    rw [UInt32.toNat_ofNat', hsum]
    omega
  rw [be64, hdiv, hmod, be32_readU32 (by omega), be32_readU32 (by rw [List.length_drop]; omega)]
  exact (List.take_add (i := 4) (j := 4)).symm

theorem be16_readType {data : Bytes} (h : 2 ≤ data.length) : be16 (readType data) = data.take 2 := by
  rcases data with _ | ⟨a, _ | ⟨b, rest⟩⟩
  · simp at h
  · simp at h
  · have ha := a.toNat_lt
    have hb := b.toNat_lt
    simp only [be16, readType, List.getD_cons_zero, List.getD_cons_succ, UInt16.toNat_ofNat',
      List.take_succ_cons, List.take_zero]
    refine congrArg₂ _ ?_ (congrArg₂ _ ?_ rfl) <;>
    · apply UInt8.toNat_inj.mp
      rw [UInt8.toNat_ofNat']
      omega

theorem DurableRecordType.code_of_ofCode {v : UInt16} {type : DurableRecordType}
    (h : ofCode v = some type) : type.code = v := by
  rw [ofCode] at h
  simpa using List.find?_some h

/-- The front of a record whose reserved field holds some bytes. -/
def flaggedBody (flags : Bytes) (record : DurableRecord) : Bytes :=
  be16 record.type.code ++ flags ++ be32 (UInt32.ofNat record.payload.length)
    ++ be64 record.sequence ++ record.payload

/-- A record whose reserved field holds some bytes, with a checksum that matches. -/
def encodeFlagged (flags : Bytes) (record : DurableRecord) : Bytes :=
  flaggedBody flags record ++ be64 (crc64Bytes (flaggedBody flags record))

theorem encodeFlagged_zero (record : DurableRecord) :
    encodeFlagged [0, 0] record = encodeRecord record := rfl

/-- The reserved field at the front of a record. -/
def recordFlags (data : Bytes) : Bytes := (data.drop 2).take 2

/-- **What parses is the encoding of its record**, but for the reserved field. -/
theorem parseRecord_ok {data : Bytes} {maxRecordBytes : Nat} {record : DurableRecord}
    {consumed : Nat} (h : parseRecord data maxRecordBytes = .ok record consumed) :
    consumed = record.payload.length + 24 ∧ consumed ≤ data.length ∧
      data.take consumed = encodeFlagged (recordFlags data) record := by
  rw [parseRecord] at h
  split at h
  · cases h
  cases hcode : DurableRecordType.ofCode (readType data) with
  | none =>
    rw [hcode] at h
    cases h
  | some type =>
    rw [hcode] at h
    dsimp only at h
    generalize hsize : (readU32 (data.drop 4)).toNat = size at h
    split at h
    · cases h
    split at h
    · cases h
    split at h
    · cases h
    rename_i hlong hsum
    rw [not_not] at hsum
    obtain ⟨rfl, rfl⟩ := RecordParseStatus.ok.inj h
    rw [recordHeaderBytes, recordTrailerBytes] at hlong
    rw [recordHeaderBytes] at hsum
    have hpayload : ((data.drop recordHeaderBytes).take size).length = size := by
      rw [List.length_take, List.length_drop, recordHeaderBytes]
      omega
    have hbody : flaggedBody (recordFlags data)
        ⟨type, readU64 (data.drop 8), (data.drop recordHeaderBytes).take size⟩
          = data.take (16 + size) := by
      have hlength : UInt32.ofNat size = readU32 (data.drop 4) := by
        rw [← hsize, UInt32.ofNat_toNat]
      rw [flaggedBody]
      simp only [hpayload]
      rw [DurableRecordType.code_of_ofCode hcode, hlength, be16_readType (by omega),
        be32_readU32 (by rw [List.length_drop]; omega),
        be64_readU64 (by rw [List.length_drop]; omega), recordFlags, recordHeaderBytes,
        ← List.take_add, ← List.take_add, ← List.take_add, ← List.take_add]
    refine ⟨?_, ?_, ?_⟩
    · dsimp only
      rw [hpayload, recordHeaderBytes, recordTrailerBytes]
      omega
    · rw [recordHeaderBytes, recordTrailerBytes]
      omega
    · rw [encodeFlagged, hbody, ← hsum, be64_readU64 (by rw [List.length_drop]; omega),
        ← List.take_add, recordHeaderBytes, recordTrailerBytes]

/-! ## The journal loop, turn by turn -/

section Journal

variable {limits : Limits} {snapshotSequence : UInt64}

/-- A parse that fails for good. -/
def RecordParseStatus.Bad (status : RecordParseStatus) : Prop :=
  status = .invalid ∨ status = .integrity

/-- A scan that has stopped. -/
def StoreScan.Refused (scan : StoreScan) : Prop := scan.refusal ≠ none

/-- What a turn does with a record it has parsed. -/
def StoreScan.take (limits : Limits) (snapshotSequence : UInt64) (turns : Nat)
    (record : DurableRecord) (rest : Bytes) (scan : StoreScan) : StoreScan :=
  if record.sequence ≤ snapshotSequence then
    scanJournalRecords limits snapshotSequence turns rest
      { scan with offset := scan.offset + (record.payload.length + 24) }
  else if record.sequence ≤ scan.highestSequence then
    scan.refuse .storeSequenceRegression "journal" "a journal record regresses the durable sequence"
  else
    scanJournalRecords limits snapshotSequence turns rest
      { scan.keep record with offset := scan.offset + (record.payload.length + 24) }

/-- **One turn**: it stops at the end, takes a short record for a torn tail, refuses a bad one, and
takes a good one. -/
theorem scanJournalRecords_turn (turns : Nat) {rest : Bytes} (hne : rest ≠ []) (scan : StoreScan) :
    (parseRecord rest limits.maxRecordBytes = .short ∧
        scanJournalRecords limits snapshotSequence (turns + 1) rest scan
          = { scan with torn := true }) ∨
      ((parseRecord rest limits.maxRecordBytes).Bad ∧
        (scanJournalRecords limits snapshotSequence (turns + 1) rest scan).Refused) ∨
      ∃ record consumed, parseRecord rest limits.maxRecordBytes = .ok record consumed ∧
        scanJournalRecords limits snapshotSequence (turns + 1) rest scan
          = scan.take limits snapshotSequence turns record (rest.drop consumed) := by
  have hempty : rest.isEmpty = false := List.isEmpty_eq_false_iff.mpr hne
  rw [scanJournalRecords, hempty, if_neg Bool.false_ne_true, parseRecord]
  by_cases hheader : rest.length < recordHeaderBytes
  · rw [if_pos hheader, if_pos hheader]
    exact .inl ⟨rfl, rfl⟩
  rw [if_neg hheader, if_neg hheader]
  cases hcode : DurableRecordType.ofCode (readType rest) with
  | none => exact .inr (.inl ⟨.inl rfl, Option.some_ne_none _⟩)
  | some type =>
    dsimp only
    generalize (readU32 (rest.drop 4)).toNat = size
    by_cases hbound : size > limits.maxRecordBytes
    · rw [if_pos hbound, if_pos hbound]
      exact .inr (.inl ⟨.inl rfl, Option.some_ne_none _⟩)
    rw [if_neg hbound, if_neg hbound]
    by_cases hlong : rest.length < recordHeaderBytes + size + recordTrailerBytes
    · rw [if_pos hlong, if_pos hlong]
      exact .inl ⟨rfl, rfl⟩
    rw [if_neg hlong, if_neg hlong]
    by_cases hsum : readU64 (rest.drop (recordHeaderBytes + size))
        ≠ crc64Bytes (rest.take (recordHeaderBytes + size))
    · rw [if_pos hsum, if_pos hsum]
      exact .inr (.inl ⟨.inr rfl, Option.some_ne_none _⟩)
    rw [if_neg hsum, if_neg hsum]
    refine .inr (.inr ⟨_, _, rfl, ?_⟩)
    have hpayload : ((rest.drop recordHeaderBytes).take size).length = size := by
      rw [recordHeaderBytes, recordTrailerBytes] at hlong
      rw [List.length_take, List.length_drop, recordHeaderBytes]
      omega
    have hconsumed : recordHeaderBytes + size + recordTrailerBytes = size + 24 := by
      rw [recordHeaderBytes, recordTrailerBytes]
      omega
    rw [StoreScan.take]
    simp only [hpayload, hconsumed]

/-- Bytes that do not parse, behind any records, are refused. -/
theorem scanJournalRecords_bad {data : Bytes} (hdata : data ≠ [])
    (hbad : (parseRecord data limits.maxRecordBytes).Bad) {records : List DurableRecord}
    (hrep : ∀ record ∈ records, record.Representable) {turns : Nat}
    (hturns : records.length < turns) (scan : StoreScan) :
    (scanJournalRecords limits snapshotSequence turns (stream encodeRecord records ++ data)
      scan).Refused := by
  induction records generalizing turns scan with
  | nil =>
    obtain ⟨turns, rfl⟩ := Nat.exists_eq_succ_of_ne_zero (Nat.ne_zero_of_lt hturns)
    rcases scanJournalRecords_turn turns hdata scan with ⟨hshort, -⟩ | ⟨-, hrefused⟩ |
      ⟨record, consumed, hok, -⟩
    · rw [RecordParseStatus.Bad, hshort] at hbad
      rcases hbad with h | h <;> cases h
    · exact hrefused
    · rw [RecordParseStatus.Bad, hok] at hbad
      rcases hbad with h | h <;> cases h
  | cons record records ih =>
    obtain ⟨turns, rfl⟩ := Nat.exists_eq_succ_of_ne_zero (Nat.ne_zero_of_lt hturns)
    have hrest := ih (fun r hr => hrep r (List.mem_cons_of_mem _ hr)) (Nat.lt_of_succ_lt_succ hturns)
    rw [stream_cons, List.append_assoc,
      scanJournalRecords_encode (hrep record List.mem_cons_self) turns]
    split
    · exact Option.some_ne_none _
    split
    · exact hrest _
    split
    · exact Option.some_ne_none _
    · exact hrest _

end Journal

/-! ## One changed byte -/

theorem readU32_set {data : Bytes} {p k : Nat} (c : UInt8) (h : p < k ∨ k + 4 ≤ p) :
    readU32 ((data.set p c).drop k) = readU32 (data.drop k) := by
  have hget : ∀ i < 4, ((data.set p c).drop k).getD i 0 = (data.drop k).getD i 0 := by
    intro i hi
    rw [List.getD_eq_getElem?_getD, List.getD_eq_getElem?_getD, List.getElem?_drop,
      List.getElem?_drop, List.getElem?_set_ne (by omega)]
  rw [readU32, readU32, hget 0 (by decide), hget 1 (by decide), hget 2 (by decide),
    hget 3 (by decide)]

theorem crc64Bytes_set {data : Bytes} {p : Nat} {c : UInt8} (hp : p < data.length)
    (hc : data[p]? ≠ some c) : crc64Bytes (data.set p c) ≠ crc64Bytes data := by
  have hne : c ≠ data[p] := by
    rintro rfl
    exact hc (List.getElem?_eq_getElem hp)
  have h := crc64Bytes_ne_of_change (data.take p) (data.drop (p + 1)) hne
  rw [List.getElem_cons_drop, List.take_append_drop] at h
  rwa [List.set_eq_take_append_cons_drop, if_pos hp]

/-- **A changed byte breaks the seal**, whether it lies under the checksum or in it. -/
theorem seal_broken {body : Bytes} {p : Nat} {c : UInt8} (hp : p < body.length + 8)
    (hc : (body ++ be64 (crc64Bytes body))[p]? ≠ some c) (rest : Bytes) :
    readU64 (((body ++ be64 (crc64Bytes body)).set p c ++ rest).drop body.length)
      ≠ crc64Bytes (((body ++ be64 (crc64Bytes body)).set p c ++ rest).take body.length) := by
  by_cases hbody : p < body.length
  · rw [List.set_append_left _ _ hbody, List.append_assoc,
      List.drop_left' (List.length_set), List.take_left' (List.length_set), readU64_be64]
    rw [List.getElem?_append_left hbody] at hc
    exact (crc64Bytes_set hbody hc).symm
  · rw [List.set_append_right _ _ (by omega), List.append_assoc, List.drop_left, List.take_left]
    rw [List.getElem?_append_right (by omega)] at hc
    intro hread
    have hlong : 8 ≤ ((be64 (crc64Bytes body)).set (p - body.length) c ++ rest).length := by
      rw [List.length_append, List.length_set, be64_length]
      omega
    have htrailer := be64_readU64 hlong
    rw [hread, List.take_left' (by rw [List.length_set, be64_length])] at htrailer
    apply hc
    rw [htrailer, List.getElem?_set_self (by rw [be64_length]; omega)]

/-- A record with a changed byte outside its length field does not parse. -/
theorem parseRecord_set {record : DurableRecord} (hrep : record.Representable) {p : Nat} {c : UInt8}
    (hp : p < (encodeRecord record).length) (hc : (encodeRecord record)[p]? ≠ some c)
    (hfield : p < 4 ∨ 8 ≤ p) (rest : Bytes) (maxRecordBytes : Nat) :
    (parseRecord ((encodeRecord record).set p c ++ rest) maxRecordBytes).Bad := by
  have hlength : ((encodeRecord record).set p c ++ rest).length
      = record.payload.length + 24 + rest.length := by
    rw [List.length_append, List.length_set, encodeRecord_length]
  have hsize : (readU32 (((encodeRecord record).set p c ++ rest).drop 4)).toNat
      = record.payload.length := by
    rw [← List.set_append_left _ _ hp, readU32_set c (by omega), encodeRecord_eq, List.append_assoc,
      readU32_header, payloadSize_eq hrep]
  have hsealed : p < (recordBody record).length + 8 := by
    rw [encodeRecord_length] at hp
    rw [recordBody_length, recordHeaderBytes]
    omega
  have hseal := seal_broken (c := c) hsealed hc rest
  rw [recordBody_length] at hseal
  rw [parseRecord, if_neg (by rw [hlength, recordHeaderBytes]; omega)]
  cases DurableRecordType.ofCode (readType ((encodeRecord record).set p c ++ rest)) with
  | none => exact .inl rfl
  | some type =>
    simp only [hsize]
    split
    · exact .inl rfl
    rw [if_neg (by rw [hlength, recordHeaderBytes, recordTrailerBytes]; omega)]
    exact .inr (if_pos hseal)

/-- A file header with a changed byte is not valid. -/
theorem validateHeader_set {magic : Bytes} (hmagic : magic.length = 8) {p : Nat} {c : UInt8}
    (hp : p < storeHeaderBytes) (hc : (makeHeader magic)[p]? ≠ some c) :
    validateHeader ((makeHeader magic).set p c) magic ≠ none := by
  have hfront : (headerPrefix magic).length = 16 := by
    rw [headerPrefix, List.length_append, List.length_append, hmagic]
    rfl
  have hseal := seal_broken (c := c) (p := p)
    (show p < (headerPrefix magic).length + 8 by rw [hfront]; exact hp) hc []
  rw [List.append_nil, hfront] at hseal
  rw [validateHeader]
  split
  · exact Option.some_ne_none _
  split
  · exact Option.some_ne_none _
  split
  · exact Option.some_ne_none _
  · rw [makeHeader, if_pos hseal]
    exact Option.some_ne_none _

namespace DurableStore

/-- The journal of a new store that was asked to append some records. -/
def written (limits : Limits) (records : List DurableRecord) : Bytes :=
  (after { limits := limits, disk := {} } (.openForAppend :: appends records)).disk.journal.getD []

/-- A new object on a journal, without a snapshot. -/
def onJournal (limits : Limits) (image : Bytes) : DurableStore where
  limits := limits
  disk := { journal := some image }

/-- The written journal is its header and the accepted records. -/
theorem written_eq (limits : Limits) (records : List DurableRecord) :
    written limits records
      = makeHeader journalMagic ++ stream encodeRecord (accepted limits 0 records) := by
  have happends : ((openForAppend { limits := limits, disk := {} }).after (appends records)).disk
      = { journal := some (makeHeader journalMagic
        ++ stream encodeRecord (accepted limits 0 records)) } :=
    (after_appends rfl rfl rfl records).1
  rw [written, after, DurableStore.apply, happends]
  rfl

theorem onJournal_scan (limits : Limits) (image : Bytes) :
    scanDisk (onJournal limits image).limits (onJournal limits image).disk
      = scanJournal limits image {} := rfl

theorem onJournal_ok_iff (limits : Limits) (image : Bytes) :
    (onJournal limits image).load.1.ok = true ↔ (scanJournal limits image {}).refusal = none :=
  load_ok_iff _

/-- The place lies in the length field of a record. -/
def InLengthField (records : List DurableRecord) (p : Nat) : Prop :=
  ∃ ys x zs, records = ys ++ x :: zs ∧
    storeHeaderBytes + (stream encodeRecord ys).length + 4 ≤ p ∧
      p < storeHeaderBytes + (stream encodeRecord ys).length + 8

/-- **Single-byte corruption is detected** outside the length fields, as long as these are exact:
whatever was written, wherever the byte and whatever its new value. -/
theorem corruption_refused (limits : Limits) (records : List DurableRecord)
    (hrep : ∀ record ∈ accepted limits 0 records, record.Representable) {p : Nat} {c : UInt8}
    (hp : p < (written limits records).length) (hc : (written limits records)[p]? ≠ some c)
    (hfield : ¬ InLengthField (accepted limits 0 records) p) (readLimits : Limits) :
    (onJournal readLimits ((written limits records).set p c)).load.1.ok = false := by
  rw [Bool.eq_false_iff, Ne, onJournal_ok_iff]
  rw [written_eq] at hp hc ⊢
  generalize accepted limits 0 records = kept at *
  have hheader : (makeHeader journalMagic).length = storeHeaderBytes :=
    makeHeader_length journalMagic_length
  rw [List.length_append, hheader] at hp
  by_cases hfront : p < storeHeaderBytes
  · rw [← hheader] at hfront
    rw [List.getElem?_append_left hfront] at hc
    rw [List.set_append_left _ _ hfront]
    have hinvalid := validateHeader_set journalMagic_length (hheader ▸ hfront) hc
    have hne : ((makeHeader journalMagic).set p c ++ stream encodeRecord kept).isEmpty = false := by
      rw [List.isEmpty_eq_false_iff, ← List.length_pos_iff, List.length_append, List.length_set,
        journalHeader_length]
      omega
    rw [scanJournal, if_neg (by simp [hne]), List.take_left' (by rw [List.length_set, hheader])]
    cases hcode : validateHeader ((makeHeader journalMagic).set p c) journalMagic with
    | none => exact absurd hcode hinvalid
    | some code => exact Option.some_ne_none _
  · have hplace : p - storeHeaderBytes < (stream encodeRecord kept).length := by omega
    obtain ⟨ys, x, zs, n, rfl, hn, hpn⟩ := exists_item_of_lt encodeRecord hplace
    rw [List.getElem?_append_right (by omega), hheader, hpn, stream_append, stream_cons,
      List.getElem?_append_right (by omega), Nat.add_sub_cancel_left,
      List.getElem?_append_left hn] at hc
    have houtside : n < 4 ∨ 8 ≤ n := by
      by_contra hmid
      exact hfield ⟨ys, x, zs, rfl, by omega, by omega⟩
    rw [List.set_append_right _ _ (by omega), hheader, hpn, stream_append, stream_cons,
      List.set_append_right _ _ (by omega), Nat.add_sub_cancel_left, List.set_append_left _ _ hn,
      scanJournal_header]
    have hx : x.Representable := hrep x (List.mem_append_right _ List.mem_cons_self)
    refine scanJournalRecords_bad ?_ (parseRecord_set hx hn hc houtside _ _)
      (fun r hr => hrep r (List.mem_append_left _ hr)) ?_ _
    · rw [← List.length_pos_iff, List.length_append, List.length_set, encodeRecord_length]
      omega
    · have hlong := length_le_stream ys
      rw [List.length_append, List.length_append, hheader, storeHeaderBytes]
      omega

/-- Two small records. -/
def smallRecords : List DurableRecord := [blank 1, { sequence := 2, payload := [1, 2, 3] }]

theorem corrupted_payload_refused :
    (onJournal {} ((written {} smallRecords).set 65 0)).load.1.ok = false :=
  corruption_refused {} smallRecords (by decide) (by decide +kernel) (by decide +kernel)
    (by
      rintro ⟨_ | ⟨y, _ | ⟨z, ys⟩⟩, x, zs, heq, hlow, hhigh⟩
      · rw [stream_nil, storeHeaderBytes, List.length_nil] at hhigh
        omega
      · obtain ⟨rfl, -⟩ := List.cons.inj (show [blank 1, _] = y :: x :: zs from heq)
        have hlength : (stream encodeRecord [blank 1]).length = 24 := by decide +kernel
        rw [hlength, storeHeaderBytes] at hhigh
        omega
      · have hlength := congrArg List.length heq
        have htwo : (accepted {} 0 smallRecords).length = 2 := by decide
        rw [htwo, List.length_append, List.length_cons, List.length_cons, List.length_cons] at hlength
        omega) {}

/-- A record header that declares nearly four gigabytes. -/
def longHeader : Bytes := be16 1 ++ ([0, 0] ++ (be32 0xFFFFFFFF ++ be64 2))

/-- An empty policy record. -/
def emptyPolicy : DurableRecord := { type := .policyDefinition, sequence := 1 }

/-- A record whose payload starts with the checksum of an empty record and with a long header, and
goes on with zeros. -/
def forgedRecord (zeros : Nat) : DurableRecord where
  type := .policyDefinition
  sequence := 1
  payload := be64 (crc64Bytes (recordBody emptyPolicy)) ++ (longHeader ++ List.replicate zeros 0)

section Forged

/-- Limits that let payloads outgrow their length field. -/
def wideLimits : Limits := { maxRecordBytes := 2 ^ 32 }

theorem forgedRecord_length (zeros : Nat) : (forgedRecord zeros).payload.length = zeros + 24 := by
  rw [forgedRecord, List.length_append, List.length_append, List.length_replicate, be64_length]
  show 8 + (16 + zeros) = zeros + 24
  omega

variable {zeros : Nat} (hzeros : zeros + 24 = 2 ^ 32)

include hzeros

/-- With its length field at zero, the forged record reads as an empty one and a long header. -/
theorem encode_forgedRecord :
    encodeRecord (forgedRecord zeros) = encodeRecord emptyPolicy ++ (longHeader
      ++ (List.replicate zeros 0 ++ be64 (crc64Bytes (recordBody (forgedRecord zeros))))) := by
  have hheader : recordHeader (forgedRecord zeros) = recordBody emptyPolicy := by
    rw [recordHeader, forgedRecord_length, hzeros]
    rfl
  rw [encodeRecord_eq, hheader, encodeRecord, forgedRecord]
  simp only [List.append_assoc]

/-- Whatever follows the long header, if it is just as long the journal loads. -/
theorem forged_loads {tail : Bytes} (htail : tail.length = zeros + 8) :
    (onJournal wideLimits (makeHeader journalMagic ++ (encodeRecord emptyPolicy
      ++ (longHeader ++ tail)))).load.1.ok = true := by
  have hrest : (longHeader ++ tail).length = 2 ^ 32 := by
    rw [List.length_append, htail, show longHeader.length = 16 from rfl]
    omega
  have hshort : parseRecord (longHeader ++ tail) wideLimits.maxRecordBytes = .short := by
    have htype : readType (longHeader ++ tail) = DurableRecordType.epochState.code := by
      rw [longHeader, List.append_assoc]
      exact readType_be16 _ _
    have hsize : readU32 ((longHeader ++ tail).drop 4) = 0xFFFFFFFF := by
      have hdrop : (longHeader ++ tail).drop 4 = be32 0xFFFFFFFF ++ (be64 2 ++ tail) := rfl
      rw [hdrop, readU32_be32]
    rw [parseRecord, hrest, htype, DurableRecordType.ofCode_code, hsize]
    rfl
  rw [onJournal_ok_iff, scanJournal_header]
  have hturns : ∃ turns, (makeHeader journalMagic ++ (encodeRecord emptyPolicy
      ++ (longHeader ++ tail))).length = turns + 2 := by
    refine ⟨2 ^ 32 + 46, ?_⟩
    rw [List.length_append, List.length_append, hrest, journalHeader_length, encodeRecord_length]
    rfl
  obtain ⟨turns, hturns⟩ := hturns
  rw [hturns, scanJournalRecords_encode (show emptyPolicy.Representable by decide),
    if_neg (by decide), if_neg (by decide), if_neg (by decide)]
  have hne : longHeader ++ tail ≠ [] := by
    rw [← List.length_pos_iff, hrest]
    decide
  rcases @scanJournalRecords_turn wideLimits 0 turns _ hne _ with ⟨-, hturn⟩ | ⟨hbad, -⟩ |
    ⟨record, consumed, hok, -⟩
  · rw [hturn]
    rfl
  · rw [hshort] at hbad
    rcases hbad with h | h <;> cases h
  · rw [hshort] at hok
    cases hok

/-- A changed zero of the forged record goes unnoticed. -/
theorem forged_change_loads :
    accepted wideLimits 0 [forgedRecord zeros] = [forgedRecord zeros] ∧
      ∃ p < (written wideLimits [forgedRecord zeros]).length, ∃ c,
        (written wideLimits [forgedRecord zeros])[p]? ≠ some c ∧
          ¬ InLengthField [forgedRecord zeros] p ∧
            (onJournal wideLimits ((written wideLimits [forgedRecord zeros]).set p c)).load.1.ok
              = true := by
  have haccepted : accepted wideLimits 0 [forgedRecord zeros] = [forgedRecord zeros] := by
    refine accepted_of_ascends ⟨show (0 : UInt64) < 1 by decide, trivial⟩ ?_
    intro record hr
    rw [List.mem_singleton.mp hr, forgedRecord_length, hzeros]
    exact Nat.le_refl _
  have hheader := journalHeader_length
  have hempty : (encodeRecord emptyPolicy).length = 24 := encodeRecord_length _
  have hlong : longHeader.length = 16 := rfl
  have hwritten : written wideLimits [forgedRecord zeros] = makeHeader journalMagic
      ++ (encodeRecord emptyPolicy ++ (longHeader ++ (List.replicate zeros 0
        ++ be64 (crc64Bytes (recordBody (forgedRecord zeros)))))) := by
    rw [written_eq, haccepted, stream_cons, stream_nil, List.append_nil, encode_forgedRecord hzeros]
  refine ⟨haccepted, 64, ?_, 1, ?_, ?_, ?_⟩
  · rw [hwritten]
    simp only [List.length_append, List.length_replicate, hheader, hempty, hlong]
    omega
  · rw [hwritten, List.getElem?_append_right (by omega), hheader,
      List.getElem?_append_right (by omega), hempty, List.getElem?_append_right (by omega), hlong,
      List.getElem?_append_left (by rw [List.length_replicate]; omega),
      List.getElem?_replicate, if_pos (by omega)]
    exact fun h => absurd (Option.some.inj h) (by decide)
  · rintro ⟨ys, x, zs, heq, -, hhigh⟩
    cases ys with
    | nil =>
      rw [stream_nil, storeHeaderBytes, List.length_nil] at hhigh
      omega
    | cons y ys =>
      have hlength := congrArg List.length heq
      rw [List.length_append, List.length_cons, List.length_cons, List.length_cons,
        List.length_nil] at hlength
      omega
  · rw [hwritten, List.set_append_right _ _ (by omega), hheader,
      List.set_append_right _ _ (by omega), hempty, List.set_append_right _ _ (by omega), hlong]
    have htail : ((List.replicate zeros 0 ++ be64 (crc64Bytes
        (recordBody (forgedRecord zeros)))).set (64 - 24 - 24 - 16) 1).length = zeros + 8 := by
      rw [List.length_set, List.length_append, List.length_replicate, be64_length]
    rw [forged_loads hzeros htail]

end Forged

/-- Four gigabytes of payload: a byte of it is changed, and the journal still loads. -/
theorem corrupted_forgery_loads :
    accepted wideLimits 0 [forgedRecord 4294967272] = [forgedRecord 4294967272] ∧
      ∃ p < (written wideLimits [forgedRecord 4294967272]).length, ∃ c,
        (written wideLimits [forgedRecord 4294967272])[p]? ≠ some c ∧
          ¬ InLengthField [forgedRecord 4294967272] p ∧
            (onJournal wideLimits
              ((written wideLimits [forgedRecord 4294967272]).set p c)).load.1.ok = true :=
  forged_change_loads rfl

/-! ## A wrong length -/

/-- The records met by hopping from one to the next, if the bytes lead to one that is cut short. -/
def overrun (limits : Limits) : Nat → UInt64 → Bytes → Option (List DurableRecord)
  | 0, _, _ => none
  | turns + 1, high, rest =>
    if rest = [] then none
    else
      match parseRecord rest limits.maxRecordBytes with
      | .short => some []
      | .ok record consumed =>
        if record.sequence = 0 then overrun limits turns high (rest.drop consumed)
        else if record.sequence ≤ high then none
        else (overrun limits turns record.sequence (rest.drop consumed)).map (record :: ·)
      | .invalid | .integrity => none

/-- A scan that went on to `out` has, or has not, reported a torn tail behind some more records. -/
def Tears (scan out : StoreScan) : Option (List DurableRecord) → Prop
  | some met => out.refusal = none ∧ out.torn = true ∧ out.records = scan.records ++ met
  | none => out.refusal ≠ none ∨ out.torn = false

theorem Tears.cons {scan out : StoreScan} {record : DurableRecord} {offset : Nat}
    {met : Option (List DurableRecord)}
    (h : Tears { scan.keep record with offset := offset } out met) :
    Tears scan out (met.map (record :: ·)) := by
  cases met with
  | none => exact h
  | some met =>
    obtain ⟨hgood, htorn, hrecords⟩ := h
    exact ⟨hgood, htorn, hrecords.trans (List.append_assoc _ [record] met)⟩

/-- The journal loop reports a torn tail exactly when the bytes lead to a record that is cut short,
and keeps what it met on the way. -/
theorem scanJournalRecords_tears {limits : Limits} (turns : Nat) (rest : Bytes) (scan : StoreScan)
    (hgood : scan.refusal = none) (hwhole : scan.torn = false) :
    Tears scan (scanJournalRecords limits 0 turns rest scan)
      (overrun limits turns scan.highestSequence rest) := by
  induction turns generalizing rest scan with
  | zero => exact .inr hwhole
  | succ turns ih =>
    rw [overrun]
    by_cases hne : rest = []
    · rw [if_pos hne, hne]
      exact .inr hwhole
    rw [if_neg hne]
    rcases scanJournalRecords_turn turns hne scan with ⟨hparse, hturn⟩ | ⟨hparse | hparse, hturn⟩ |
      ⟨record, consumed, hparse, hturn⟩
    · rw [hparse, hturn]
      exact ⟨hgood, rfl, (List.append_nil _).symm⟩
    · rw [hparse]
      exact .inl hturn
    · rw [hparse]
      exact .inl hturn
    · rw [hparse, hturn, StoreScan.take]
      dsimp only
      by_cases hzero : record.sequence = 0
      · rw [if_pos hzero, if_pos (by rw [hzero]; exact UInt64.le_refl _)]
        exact ih (rest.drop consumed)
          { scan with offset := scan.offset + (record.payload.length + 24) } hgood hwhole
      rw [if_neg hzero, if_neg (fun hle => hzero (UInt64.le_zero_iff.mp hle))]
      by_cases hle : record.sequence ≤ scan.highestSequence
      · rw [if_pos hle, if_pos hle]
        exact .inl (Option.some_ne_none _)
      · rw [if_neg hle, if_neg hle]
        exact Tears.cons (ih (rest.drop consumed) { scan.keep record with
          offset := scan.offset + (record.payload.length + 24) } hgood hwhole)

/-- The image with a length at a place. -/
def withLength (image : Bytes) (place : Nat) (length : UInt32) : Bytes :=
  image.take place ++ be32 length ++ image.drop (place + 4)

/-- Loading reports a torn tail and forgets one of some records. -/
def ForgetsQuietly (store : DurableStore) (later : List DurableRecord) : Prop :=
  store.load.1.ok = true ∧ store.load.1.tornTailRecovered = true ∧
    ∃ record ∈ later, record ∉ store.load.2.records

/-- Hopping through the bytes of a journal leads to a record that is cut short, before all of some
records have been met. -/
def OverrunsBefore (limits : Limits) (image : Bytes) (later : List DurableRecord) : Prop :=
  ∃ met, overrun limits image.length 0 (image.drop storeHeaderBytes) = some met ∧
    ∃ record ∈ later, record ∉ met

instance (store : DurableStore) (later : List DurableRecord) :
    Decidable (store.ForgetsQuietly later) := inferInstanceAs (Decidable (_ ∧ _ ∧ _))

instance (limits : Limits) (image : Bytes) (later : List DurableRecord) :
    Decidable (OverrunsBefore limits image later) :=
  decidable_of_iff
    (∃ met ∈ overrun limits image.length 0 (image.drop storeHeaderBytes),
      ∃ record ∈ later, record ∉ met) Iff.rfl

theorem forgetsQuietly_iff (limits : Limits) (rest : Bytes) (later : List DurableRecord) :
    (onJournal limits (makeHeader journalMagic ++ rest)).ForgetsQuietly later
      ↔ OverrunsBefore limits (makeHeader journalMagic ++ rest) later := by
  have htears := @scanJournalRecords_tears limits
    (makeHeader journalMagic ++ rest).length rest { offset := storeHeaderBytes } rfl rfl
  have hscan := scanJournal_header limits rest {}
  have htorn := load_torn (onJournal limits (makeHeader journalMagic ++ rest))
  rw [ForgetsQuietly, onJournal_ok_iff, load_snd, OverrunsBefore,
    List.drop_left' (makeHeader_length journalMagic_length)]
  rw [onJournal_scan] at htorn ⊢
  generalize makeHeader journalMagic ++ rest = image at *
  rw [hscan] at htorn ⊢
  generalize scanJournalRecords limits 0 image.length rest { offset := storeHeaderBytes } = out at *
  cases hover : overrun limits image.length 0 rest with
  | none =>
    rw [hover] at htears
    refine iff_of_false ?_ (fun ⟨_, h, _⟩ => nomatch h)
    rintro ⟨hok, htail, -⟩
    rcases htears with hrefused | hwhole
    · exact hrefused hok
    · rw [htorn hok, hwhole] at htail
      cases htail
  | some met =>
    rw [hover] at htears
    obtain ⟨hok, htail, hrecords⟩ := htears
    rw [hrecords, List.nil_append]
    constructor
    · rintro ⟨-, -, hforgot⟩
      exact ⟨met, rfl, hforgot⟩
    · rintro ⟨_, hmet, hforgot⟩
      obtain rfl := Option.some.inj hmet
      exact ⟨hok, (htorn hok).trans htail, hforgot⟩

/-- The place of the length field of the record behind some others. -/
def lengthPlace (front : List DurableRecord) : Nat :=
  storeHeaderBytes + (stream encodeRecord front).length + 4

/-- A record whose length field holds some other value. -/
def misdeclared (record : DurableRecord) (length : UInt32) : Bytes :=
  (encodeRecord record).take 4 ++ be32 length ++ (encodeRecord record).drop 8

theorem misdeclared_length (record : DurableRecord) (length : UInt32) :
    (misdeclared record length).length = record.payload.length + 24 := by
  rw [misdeclared, List.length_append, List.length_append, List.length_take, List.length_drop,
    encodeRecord_length, be32_length]
  omega

theorem withLength_stream (front later : List DurableRecord) (record : DurableRecord)
    (length : UInt32) :
    withLength (makeHeader journalMagic ++ stream encodeRecord (front ++ record :: later))
        (lengthPlace front) length
      = makeHeader journalMagic ++ (stream encodeRecord front
        ++ (misdeclared record length ++ stream encodeRecord later)) := by
  have hheader : (makeHeader journalMagic).length = storeHeaderBytes :=
    makeHeader_length journalMagic_length
  have hlong : 8 ≤ (encodeRecord record).length := by
    rw [encodeRecord_length]
    omega
  have htake : ∀ a b c d : Bytes, 4 ≤ c.length →
      (a ++ (b ++ (c ++ d))).take (a.length + b.length + 4) = a ++ (b ++ c.take 4) := by
    intro a b c d hc
    rw [Nat.add_assoc, List.take_length_add_append, List.take_length_add_append,
      List.take_append_of_le_length hc]
  have hdrop : ∀ a b c d : Bytes, 8 ≤ c.length →
      (a ++ (b ++ (c ++ d))).drop (a.length + b.length + 4 + 4) = c.drop 8 ++ d := by
    intro a b c d hc
    rw [Nat.add_assoc, Nat.add_assoc, List.drop_length_add_append, List.drop_length_add_append,
      List.drop_append_of_le_length hc]
  rw [withLength, lengthPlace, stream_append, stream_cons, ← hheader,
    htake _ _ _ _ (Nat.le_trans (by decide) hlong), hdrop _ _ _ _ hlong, misdeclared]
  simp only [List.append_assoc]

theorem parseRecord_misdeclared (record : DurableRecord) {length : UInt32} {rest : Bytes}
    {maxRecordBytes : Nat} (hbound : length.toNat ≤ maxRecordBytes)
    (hover : record.payload.length + rest.length < length.toNat) :
    parseRecord (misdeclared record length ++ rest) maxRecordBytes = .short := by
  have hlength : (misdeclared record length ++ rest).length
      = record.payload.length + 24 + rest.length := by
    rw [List.length_append, misdeclared_length]
  have hfront : misdeclared record length ++ rest = be16 record.type.code
      ++ ([0, 0] ++ (be32 length ++ ((encodeRecord record).drop 8 ++ rest))) := by
    rw [misdeclared, show (encodeRecord record).take 4 = be16 record.type.code ++ [0, 0] from rfl]
    simp only [List.append_assoc]
  have htype : readType (misdeclared record length ++ rest) = record.type.code := by
    rw [hfront, readType_be16]
  have hsize : readU32 ((misdeclared record length ++ rest).drop 4) = length := by
    rw [hfront]
    exact readU32_be32 _ _
  rw [parseRecord, hlength, htype, DurableRecordType.ofCode_code]
  simp only [hsize]
  rw [if_neg (by rw [recordHeaderBytes]; omega), if_neg (by omega),
    if_pos (by rw [recordHeaderBytes, recordTrailerBytes]; omega)]

/-- **A length that runs past the end of the file is believed**: loading reports a torn tail and
forgets everything from there on. -/
theorem overrunning_length_forgets {limits readLimits : Limits} {records : List DurableRecord}
    {front later : List DurableRecord} {record : DurableRecord}
    (hkept : accepted limits 0 records = front ++ record :: later) (hlater : later ≠ [])
    (hfront : ∀ r ∈ front, r.Representable ∧ r.payload.length ≤ readLimits.maxRecordBytes)
    {length : UInt32} (hbound : length.toNat ≤ readLimits.maxRecordBytes)
    (hover : record.payload.length + (stream encodeRecord later).length < length.toNat) :
    (onJournal readLimits
      (withLength (written limits records) (lengthPlace front) length)).ForgetsQuietly later := by
  have hasc := ascends_accepted limits 0 records
  rw [hkept] at hasc
  obtain ⟨hfirst, hrest⟩ := ascends_append.mp hasc
  obtain ⟨first, hmem⟩ := List.exists_mem_of_ne_nil _ hlater
  have hnew : first ∉ front := by
    intro h
    have hhigh := (hrest.mem (List.mem_cons_of_mem _ hmem)).1
    exact absurd (UInt64.lt_of_lt_of_le hhigh (hfirst.mem h).2) (UInt64.lt_irrefl _)
  have hne : misdeclared record length ++ stream encodeRecord later ≠ [] := by
    rw [← List.length_pos_iff, List.length_append, misdeclared_length]
    omega
  have hscan : scanJournal readLimits (withLength (written limits records) (lengthPlace front)
      length) {} = { ({ offset := storeHeaderBytes } : StoreScan).keepAll front with
        torn := true } := by
    have hturns : ∃ turns, (makeHeader journalMagic ++ (stream encodeRecord front
        ++ (misdeclared record length ++ stream encodeRecord later))).length
          = front.length + (turns + 1) := by
      have hlong := length_le_stream front
      refine ⟨24 + ((stream encodeRecord front).length - front.length)
        + (misdeclared record length ++ stream encodeRecord later).length - 1, ?_⟩
      rw [List.length_append, List.length_append, journalHeader_length]
      omega
    obtain ⟨turns, hturns⟩ := hturns
    have hkeep := @scanJournalRecords_keep readLimits 0 front { offset := storeHeaderBytes } hfront
      (UInt64.le_refl _) hfirst (turns + 1)
      (misdeclared record length ++ stream encodeRecord later)
    rw [written_eq, hkept, withLength_stream, scanJournal_header, hturns]
    refine hkeep.trans ?_
    rcases @scanJournalRecords_turn readLimits 0 turns _ hne _ with ⟨-, hturn⟩ | ⟨hbad, -⟩ |
      ⟨_, consumed, hok, -⟩
    · exact hturn
    · rw [parseRecord_misdeclared record hbound hover] at hbad
      rcases hbad with h | h <;> cases h
    · rw [parseRecord_misdeclared record hbound hover] at hok
      cases hok
  generalize withLength (written limits records) (lengthPlace front) length = image at hscan ⊢
  have hok : (onJournal readLimits image).load.1.ok = true := by
    rw [onJournal_ok_iff, hscan]
    rfl
  refine ⟨hok, ?_, first, hmem, ?_⟩
  · rw [load_torn _ (load_ok_iff _ |>.mp hok), onJournal_scan, hscan]
  · rw [load_snd, onJournal_scan, hscan]
    exact hnew

/-- A wrong length that is past the bound, or that finds no matching checksum, is refused. -/
theorem misfitting_length_refused {limits readLimits : Limits} {records : List DurableRecord}
    {front later : List DurableRecord} {record : DurableRecord}
    (hkept : accepted limits 0 records = front ++ record :: later)
    (hfront : ∀ r ∈ front, r.Representable) {length : UInt32}
    (hbad : (parseRecord (misdeclared record length ++ stream encodeRecord later)
      readLimits.maxRecordBytes).Bad) :
    (onJournal readLimits
      (withLength (written limits records) (lengthPlace front) length)).load.1.ok = false := by
  have hne : misdeclared record length ++ stream encodeRecord later ≠ [] := by
    rw [← List.length_pos_iff, List.length_append, misdeclared_length]
    omega
  rw [Bool.eq_false_iff, Ne, onJournal_ok_iff, written_eq, hkept, withLength_stream,
    scanJournal_header]
  refine scanJournalRecords_bad hne hbad hfront ?_ _
  have hlong := length_le_stream front
  rw [List.length_append, List.length_append, journalHeader_length]
  omega

end DurableStore

end FabricPartition
