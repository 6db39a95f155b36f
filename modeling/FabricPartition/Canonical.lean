import FabricPartition.Corruption

/-!
# The canonical image

Which journals `load` accepts besides those a store writes.  The parser skips three things: the
reserved field of the file header, the flags of a record, and — with no snapshot — every record of
sequence zero.  An accepted journal is the encoding of what was loaded exactly when none of the three
was there to be skipped (`canonical_iff`).
-/

set_option autoImplicit false

namespace FabricPartition

open Frames

theorem flaggedBody_length {flags : Bytes} (h : flags.length = 2) (record : DurableRecord) :
    (flaggedBody flags record).length = record.payload.length + 16 := by
  rw [flaggedBody]
  simp only [List.length_append, be16_length, be32_length, be64_length, h]
  omega

theorem encodeFlagged_length {flags : Bytes} (h : flags.length = 2) (record : DurableRecord) :
    (encodeFlagged flags record).length = record.payload.length + 24 := by
  rw [encodeFlagged, List.length_append, flaggedBody_length h, be64_length]

/-- A flagged record is a record as the store writes it exactly when its flags are zero. -/
theorem encodeFlagged_eq_iff {flags : Bytes} (h : flags.length = 2) (record : DurableRecord) :
    encodeFlagged flags record = encodeRecord record ↔ flags = [0, 0] := by
  refine ⟨fun heq => ?_, fun heq => by rw [heq, encodeFlagged_zero]⟩
  have hfront : ∀ flags : Bytes, flags.length = 2 →
      ((encodeFlagged flags record).drop 2).take 2 = flags := by
    intro flags hflags
    rw [encodeFlagged, flaggedBody]
    simp only [List.append_assoc]
    rw [List.drop_left' (be16_length _), List.take_left' hflags]
  rw [← hfront flags h, heq, ← encodeFlagged_zero, hfront [0, 0] rfl]

/-- The records of a byte string have no flags, and no sequence of zero. -/
def PlainRecords (maxRecordBytes : Nat) : Nat → Bytes → Prop
  | 0, _ => True
  | turns + 1, rest =>
    match parseRecord rest maxRecordBytes with
    | .ok record consumed =>
      recordFlags rest = [0, 0] ∧ record.sequence ≠ 0 ∧
        PlainRecords maxRecordBytes turns (rest.drop consumed)
    | .short | .invalid | .integrity => True

instance PlainRecords.decidable (maxRecordBytes : Nat) : (turns : Nat) → (rest : Bytes) →
    Decidable (PlainRecords maxRecordBytes turns rest)
  | 0, _ => .isTrue trivial
  | turns + 1, rest =>
    match hparse : parseRecord rest maxRecordBytes with
    | .ok record consumed =>
      have := PlainRecords.decidable maxRecordBytes turns (rest.drop consumed)
      decidable_of_iff (recordFlags rest = [0, 0] ∧ record.sequence ≠ 0 ∧
        PlainRecords maxRecordBytes turns (rest.drop consumed)) (by rw [PlainRecords, hparse])
    | .short => .isTrue (by rw [PlainRecords, hparse]; trivial)
    | .invalid => .isTrue (by rw [PlainRecords, hparse]; trivial)
    | .integrity => .isTrue (by rw [PlainRecords, hparse]; trivial)

theorem plainRecords_nil (maxRecordBytes turns : Nat) : PlainRecords maxRecordBytes turns [] := by
  cases turns with
  | zero => trivial
  | succ turns => exact trivial

/-- **The records of an accepted journal** are encoded in it one after the other exactly when the
bytes have plain records only. -/
theorem scanJournalRecords_canonical {limits : Limits} {turns : Nat} {rest : Bytes}
    (hturns : rest.length ≤ turns) (scan : StoreScan)
    (hgood : (scanJournalRecords limits 0 turns rest scan).refusal = none)
    (hwhole : (scanJournalRecords limits 0 turns rest scan).torn = false) :
    ∃ added, (scanJournalRecords limits 0 turns rest scan).records = scan.records ++ added ∧
      (stream encodeRecord added).length ≤ rest.length ∧
      (rest = stream encodeRecord added ↔ PlainRecords limits.maxRecordBytes turns rest) := by
  induction turns generalizing rest scan with
  | zero =>
    obtain rfl := List.length_eq_zero_iff.mp (Nat.le_zero.mp hturns)
    exact ⟨[], (List.append_nil _).symm, Nat.le_refl _, iff_of_true rfl trivial⟩
  | succ turns ih =>
    by_cases hne : rest = []
    · subst hne
      exact ⟨[], (List.append_nil _).symm, Nat.le_refl _, iff_of_true rfl (plainRecords_nil _ _)⟩
    rcases @scanJournalRecords_turn limits 0 turns rest hne scan with ⟨-, hturn⟩ | ⟨-, hturn⟩ |
      ⟨record, consumed, hparse, hturn⟩
    · rw [hturn] at hwhole
      cases hwhole
    · exact absurd hgood hturn
    obtain ⟨hconsumed, hlong, htake⟩ := parseRecord_ok hparse
    have hflags : (recordFlags rest).length = 2 := by
      rw [recordFlags, List.length_take, List.length_drop]
      omega
    have hsplit : rest = encodeFlagged (recordFlags rest) record ++ rest.drop consumed := by
      rw [← htake, List.take_append_drop]
    have hshort : (rest.drop consumed).length ≤ turns := by
      rw [List.length_drop]
      omega
    have hplain : PlainRecords limits.maxRecordBytes (turns + 1) rest ↔
        recordFlags rest = [0, 0] ∧ record.sequence ≠ 0 ∧
          PlainRecords limits.maxRecordBytes turns (rest.drop consumed) := by
      rw [PlainRecords, hparse]
    rw [hturn, StoreScan.take] at hgood hwhole ⊢
    rw [hplain]
    by_cases hzero : record.sequence ≤ 0
    · -- the record is skipped, and nothing of it is loaded
      rw [if_pos hzero] at hgood hwhole ⊢
      obtain ⟨added, hadded, hlength, -⟩ := ih hshort _ hgood hwhole
      rw [List.length_drop] at hlength
      refine ⟨added, hadded, by omega, iff_of_false (fun heq => ?_) ?_⟩
      · have := congrArg List.length heq
        omega
      · exact fun h => h.2.1 (UInt64.le_zero_iff.mp hzero)
    rw [if_neg hzero] at hgood hwhole ⊢
    by_cases hregress : record.sequence ≤ scan.highestSequence
    · rw [if_pos hregress] at hgood
      cases hgood
    rw [if_neg hregress] at hgood hwhole ⊢
    obtain ⟨added, hadded, hlength, hih⟩ := ih hshort _ hgood hwhole
    rw [List.length_drop] at hlength
    refine ⟨record :: added, hadded.trans (List.append_assoc _ [record] added), ?_, ?_⟩
    · rw [stream_cons, List.length_append, encodeRecord_length]
      omega
    have hnonzero : record.sequence ≠ 0 := fun h => hzero (by rw [h]; exact UInt64.le_refl _)
    rw [stream_cons, and_iff_right hnonzero, ← hih, ← encodeFlagged_eq_iff hflags record]
    constructor
    · intro heq
      rw [hsplit] at heq
      exact List.append_inj heq (by rw [encodeFlagged_length hflags, encodeRecord_length])
    · rintro ⟨hfront, hback⟩
      rw [hsplit, hfront, ← hback]

/-- The reserved field of a file header. -/
def reservedField (image : Bytes) : Bytes := (image.drop 12).take 4

/-- A valid header is the one that is written exactly when its reserved field is zero. -/
theorem validateHeader_canonical {header magic : Bytes} (hmagic : magic.length = 8)
    (hlength : header.length = storeHeaderBytes) (h : validateHeader header magic = none) :
    header = makeHeader magic ↔ reservedField header = be32 0 := by
  rw [storeHeaderBytes] at hlength
  have hreserved : reservedField (makeHeader magic) = be32 0 := by
    rw [reservedField, makeHeader, headerPrefix]
    simp only [List.append_assoc]
    rw [show 12 = magic.length + 4 by rw [hmagic], List.drop_length_add_append,
      List.drop_left' (be32_length _), List.take_left' (be32_length _)]
  refine ⟨fun heq => heq ▸ hreserved, fun hzero => ?_⟩
  rw [validateHeader] at h
  split at h
  · cases h
  split at h
  · cases h
  split at h
  · cases h
  split at h
  · cases h
  rename_i hfront hversion hsum
  rw [not_not] at hfront hversion hsum
  rw [hmagic] at hfront
  have hprefix : header.take 16 = headerPrefix magic := by
    have hversionField : (header.drop 8).take 4 = be32 durableFormatVersion := by
      rw [← hversion, be32_readU32 (by rw [List.length_drop]; omega)]
    rw [reservedField] at hzero
    rw [headerPrefix, ← hzero, ← hversionField, ← hfront, ← List.take_add, ← List.take_add]
  have htrailer : header.drop 16 = be64 (crc64Bytes (headerPrefix magic)) := by
    rw [← hprefix, ← hsum, be64_readU64 (by rw [List.length_drop]; omega),
      List.take_of_length_le (by rw [List.length_drop]; omega)]
  rw [makeHeader, ← htrailer, ← hprefix, List.take_append_drop]

namespace DurableStore

/-- An accepted journal: loading succeeds, reports no torn tail, and the file has its header. -/
structure AcceptsJournal (limits : Limits) (image : Bytes) : Prop where
  ok : (onJournal limits image).load.1.ok = true
  whole : (onJournal limits image).load.1.tornTailRecovered = false
  header : storeHeaderBytes ≤ image.length

/-- A journal is its header and the encodings of the records that load from it. -/
def Canonical (limits : Limits) (image : Bytes) : Prop :=
  image = makeHeader journalMagic
    ++ stream encodeRecord (onJournal limits image).load.2.records

/-- The fields the parser skips are zero, and no record is skipped for having sequence zero. -/
structure SkipsNothing (limits : Limits) (image : Bytes) : Prop where
  reserved : reservedField image = be32 0
  records : PlainRecords limits.maxRecordBytes image.length (image.drop storeHeaderBytes)

/-- **The image is canonical** exactly when the parser had nothing to skip in it. -/
theorem canonical_iff {limits : Limits} {image : Bytes} (h : AcceptsJournal limits image) :
    Canonical limits image ↔ SkipsNothing limits image := by
  obtain ⟨hok, hwhole, hlength⟩ := h
  rw [onJournal_ok_iff] at hok
  rw [load_torn _ (by rw [onJournal_scan]; exact hok), onJournal_scan] at hwhole
  rw [Canonical, load_snd, onJournal_scan]
  have hne : image.isEmpty = false := by
    rw [List.isEmpty_eq_false_iff, ← List.length_pos_iff]
    rw [storeHeaderBytes] at hlength
    omega
  rw [scanJournal, if_neg (by simp [hne])] at hok hwhole ⊢
  cases hheader : validateHeader (image.take storeHeaderBytes) journalMagic with
  | some code =>
    rw [hheader] at hok
    cases hok
  | none =>
    rw [hheader] at hok hwhole
    dsimp only at hok hwhole ⊢
    have htake : (image.take storeHeaderBytes).length = storeHeaderBytes :=
      List.length_take_of_le hlength
    have hfront := validateHeader_canonical journalMagic_length htake hheader
    have hreserved : reservedField (image.take storeHeaderBytes) = reservedField image := by
      rw [reservedField, reservedField, List.drop_take, List.take_take, storeHeaderBytes]
      rfl
    rw [hreserved] at hfront
    obtain ⟨added, hadded, -, hrecords⟩ := scanJournalRecords_canonical
      (by rw [List.length_drop]; omega) _ hok hwhole
    rw [hadded, List.nil_append]
    constructor
    · intro heq
      have hparts : image.take storeHeaderBytes = makeHeader journalMagic ∧
          image.drop storeHeaderBytes = stream encodeRecord added := by
        refine List.append_inj ((List.take_append_drop _ _).trans heq) ?_
        rw [htake, makeHeader_length journalMagic_length]
      exact ⟨hfront.mp hparts.1, hrecords.mp hparts.2⟩
    · rintro ⟨hzero, hplain⟩
      rw [← hfront.mpr hzero, ← hrecords.mpr hplain, List.take_append_drop]

/-- A record with flags. -/
def flaggedJournal : Bytes := makeHeader journalMagic ++ encodeFlagged [0, 1] (blank 1)

theorem written_journal_canonical : Canonical {} (written {} smallRecords) :=
  (canonical_iff ⟨by decide +kernel, by decide +kernel, by decide +kernel⟩).mpr
    ⟨by decide +kernel, by decide +kernel⟩

/-- Flags that are not zero are accepted, under a checksum that matches. -/
theorem flagged_journal_accepted :
    AcceptsJournal {} flaggedJournal ∧ ¬ Canonical {} flaggedJournal := by
  refine ⟨⟨by decide +kernel, by decide +kernel, by decide +kernel⟩, ?_⟩
  rw [Canonical]
  decide +kernel

end DurableStore

end FabricPartition
