import FabricPartition.Digest

/-!
# Canonical byte encoding

The writer and the reader of `encoding.cpp`.  Writing is appending, so a write is just the bytes it
produces; reading is a computation on a cursor that can fail, and whose failure is sticky.

A reading and a writing belong together when they are inverse in both directions: `Codec m enc P`
says that `m` reads `enc v` back as `v`, whatever follows, for the values `P` selects, and that it
reads nothing else.  It composes along `>>=` (`Codec.bind`): each field of a record is given by its
own codec and the projection it comes from, so that a payload is proved inverse by listing its fields
in the order in which they are read.
-/

set_option autoImplicit false

namespace FabricPartition

/-! ## Writing -/

namespace Write

/-- `CanonicalWriter::u8`. -/
def u8 (v : UInt8) : Bytes := [v]

/-- `CanonicalWriter::u16`. -/
def u16 (v : UInt16) : Bytes := be16 v

/-- `CanonicalWriter::u32`. -/
def u32 (v : UInt32) : Bytes := be32 v

/-- `CanonicalWriter::u64`. -/
def u64 (v : UInt64) : Bytes := be64 v

/-- `CanonicalWriter::boolean`. -/
def boolean (v : Bool) : Bytes := u8 (if v then 1 else 0)

/-- A container size, narrowed to the 32 bits of a count field. -/
def count (n : Nat) : Bytes := u32 (UInt32.ofNat n)

/-- `CanonicalWriter::text`: the length as 32 bits, then the bytes. -/
def text (t : Text) : Bytes := count t.length ++ t

/-- `CanonicalWriter::text_id`. -/
def textId {tag : IdTag} (id : TextId tag) : Bytes := text id.text

/-- `CanonicalWriter::text_id` on an identity nobody validated. -/
def uncheckedId {tag : IdTag} (id : UncheckedId tag) : Bytes := text id.text

/-- `CanonicalWriter::counter`. -/
def counter {tag : CounterTag} (c : Counter tag) : Bytes := u64 c.value

/-- `CanonicalWriter::binary_id`. -/
def binaryId {tag : BinaryTag} (id : BinaryId tag) : Bytes := id.bytes

/-- `CanonicalWriter::digest`. -/
def digest {tag : DigestTag} (d : TypedDigest tag) : Bytes := d.value.bytes

end Write

/-! ## Reading -/

/-- The reader: the bytes from the cursor to the end of the buffer, how many came before them, and
the sticky failure flag. -/
structure CanonicalReader where
  rest : Bytes
  offset : Nat := 0
  failed : Bool := false
  deriving DecidableEq

/-- `CanonicalReader::exhausted`. -/
def CanonicalReader.exhausted (r : CanonicalReader) : Bool := r.rest.isEmpty && !r.failed

/-- A reading: it returns a value or reports failure, and moves the cursor. -/
def Read (α : Type) := CanonicalReader → Option α × CanonicalReader

namespace Read

/-- Sequencing stops at the first failure, as the `||` chains of the decoders do. -/
instance : Monad Read where
  pure v := fun r => (some v, r)
  bind m f := fun r =>
    match m r with
    | (some v, r) => f v r
    | (none, r) => (none, r)

/-- Report failure, leaving the reader as it is. -/
def refuse {α : Type} : Read α := fun r => (none, r)

/-- Report failure and make it sticky. -/
def fail {α : Type} : Read α := fun r => (none, { r with failed := true })

/-- `CanonicalReader::bytes`, whose `need` refuses a count past the end. -/
def bytes (n : Nat) : Read Bytes := fun r =>
  if r.failed then (none, r)
  else if n > r.rest.length then (none, { r with failed := true })
  else (some (r.rest.take n), { r with rest := r.rest.drop n, offset := r.offset + n })

/-- `CanonicalReader::u8`. -/
def u8 : Read UInt8 := do
  let bs ← bytes 1
  return bs.headD 0

/-- `CanonicalReader::u16`. -/
def u16 : Read UInt16 := do
  let high ← u8
  let low ← u8
  return UInt16.ofNat (high.toNat * 256 + low.toNat)

/-- `CanonicalReader::u32`. -/
def u32 : Read UInt32 := do
  let high ← u16
  let low ← u16
  return UInt32.ofNat (high.toNat * 65536 + low.toNat)

/-- `CanonicalReader::u64`. -/
def u64 : Read UInt64 := do
  let high ← u32
  let low ← u32
  return UInt64.ofNat (high.toNat * 4294967296 + low.toNat)

/-- `CanonicalReader::boolean`. -/
def boolean : Read Bool := do
  let raw ← u8
  if raw > 1 then fail else return raw == 1

/-- `CanonicalReader::bounded_text`. -/
def boundedText (maxBytes : Nat) : Read Text := do
  let length ← u32
  if length.toNat > maxBytes then fail else bytes length.toNat

/-- `CanonicalReader::text_id`: the empty text is the nil identity, anything else must parse. -/
def textId {tag : IdTag} : Read (TextId tag) := do
  let raw ← boundedText tag.maxLength
  if raw.isEmpty then return TextId.nil
  else
    match TextId.parse raw with
    | none => refuse
    | some id => return id

/-- `CanonicalReader::text_id` for an identity whose writer did not validate it: the reader does. -/
def uncheckedId {tag : IdTag} : Read (UncheckedId tag) := do
  let id : TextId tag ← textId
  return UncheckedId.fromValidated id.text

/-- `CanonicalReader::counter`. -/
def counter {tag : CounterTag} : Read (Counter tag) := do
  let raw ← u64
  return ⟨raw⟩

/-- `CanonicalReader::binary_id`.  The source renders the sixteen bytes in hexadecimal and parses
them back, which accepts every image. -/
def binaryId {tag : BinaryTag} : Read (BinaryId tag) := do
  let raw ← bytes 16
  if h : raw.length = 16 then return ⟨raw, h⟩ else refuse

/-- `CanonicalReader::typed_digest`. -/
def digest {tag : DigestTag} : Read (TypedDigest tag) := do
  let raw ← bytes 32
  if h : raw.length = 32 then return ⟨⟨raw, h⟩⟩ else refuse

/-- The trailing `reader.exhausted()` of a payload decoder. -/
def done : Read Unit := fun r => if r.exhausted then (some (), r) else (none, r)

/-- A decoder's `for` loop: `n` readings in a row. -/
def many {α : Type} (m : Read α) : Nat → Read (List α)
  | 0 => return []
  | n + 1 => do
    let x ← m
    let xs ← many m n
    return x :: xs

/-- Run a decoder over a whole payload. -/
def run {α : Type} (m : Read α) (payload : Bytes) : Option α := (m ⟨payload, 0, false⟩).1

end Read

/-! ## Codecs -/

/-- `m` consumes exactly `bs` and returns `v`, whatever follows. -/
def Reads {α : Type} (m : Read α) (bs : Bytes) (v : α) : Prop :=
  ∀ rest off, m ⟨bs ++ rest, off, false⟩ = (some v, ⟨rest, off + bs.length, false⟩)

/-- A reading and a writing that are inverse, on the values a predicate selects. -/
structure Codec {α : Type} (m : Read α) (enc : α → Bytes) (P : α → Prop) : Prop where
  /-- What is written is read back. -/
  reads : ∀ v, P v → Reads m (enc v) v
  /-- What is read is what would have been written. -/
  exact : ∀ {data off v r}, m ⟨data, off, false⟩ = (some v, r) →
    P v ∧ ∃ rest, data = enc v ++ rest

/-- A reading that always reports failure. -/
def Read.Refuses {α : Type} (m : Read α) : Prop := ∀ r, (m r).1 = none

theorem Read.refuse_refuses {α : Type} : (Read.refuse : Read α).Refuses := fun _ => rfl

theorem Read.fail_refuses {α : Type} : (Read.fail : Read α).Refuses := fun _ => rfl

/-- A sequence returns exactly when both its parts do. -/
theorem Read.bind_some {α β : Type} {m : Read β} {f : β → Read α} {r r' : CanonicalReader} {v : α} :
    (m >>= f) r = (some v, r') ↔ ∃ b t, m r = (some b, t) ∧ f b t = (some v, r') := by
  change (match m r with
    | (some b, r) => f b r
    | (none, r) => (none, r)) = (some v, r') ↔ _
  rcases m r with ⟨_ | b, t⟩
  · refine ⟨nofun, ?_⟩
    rintro ⟨_, _, h, -⟩
    cases h
  · refine ⟨fun h => ⟨b, t, rfl, h⟩, ?_⟩
    rintro ⟨_, _, h, hf⟩
    cases h
    exact hf

namespace Codec

variable {α β : Type} {m : Read α} {enc enc' : α → Bytes} {P P' : α → Prop}

/-- Where a reading leaves the reader. -/
theorem resume (h : Codec m enc P) {data : Bytes} {off : Nat} {v : α} {r : CanonicalReader}
    (hm : m ⟨data, off, false⟩ = (some v, r)) :
    P v ∧ ∃ rest, data = enc v ++ rest ∧ r = ⟨rest, off + (enc v).length, false⟩ := by
  obtain ⟨hv, rest, rfl⟩ := h.exact hm
  rw [h.reads v hv rest off] at hm
  exact ⟨hv, rest, rfl, (Prod.mk.inj hm).2.symm⟩

theorem congr (h : Codec m enc P) (henc : ∀ a, P a → enc a = enc' a) : Codec m enc' P where
  reads v hv := henc v hv ▸ h.reads v hv
  exact hm := by
    obtain ⟨hv, rest, hdata⟩ := h.exact hm
    exact ⟨hv, rest, henc _ hv ▸ hdata⟩

theorem iff (h : Codec m enc P) (hP : ∀ a, P a ↔ P' a) : Codec m enc P' where
  reads v hv := h.reads v ((hP v).mpr hv)
  exact hm := ⟨(hP _).mp (h.exact hm).1, (h.exact hm).2⟩

/-- The end of a record: every field has been read. -/
theorem pure {v : α} (hP : ∀ a, P a ↔ a = v) : Codec (Pure.pure v) (fun _ => []) P where
  reads a ha := by
    obtain rfl := (hP a).mp ha
    exact fun rest off => rfl
  exact hm := by
    obtain ⟨hv, -⟩ := Prod.mk.inj hm
    exact ⟨(hP _).mpr (Option.some.inj hv).symm, _, rfl⟩

/-- A field: its codec, and where the record has it. -/
theorem bind {n : Read β} {encβ : β → Bytes} {Q : β → Prop} {f : β → Read α} (hn : Codec n encβ Q)
    (proj : α → β) (hproj : ∀ a, P a → Q (proj a))
    (hf : ∀ b, Q b → Codec (f b) enc fun a => P a ∧ proj a = b) :
    Codec (n >>= f) (fun a => encβ (proj a) ++ enc a) P where
  reads v hv rest off := by
    have hq := hproj v hv
    rw [Read.bind_some]
    have hlater := (hf _ hq).reads v ⟨hv, rfl⟩ rest (off + (encβ (proj v)).length)
    refine ⟨proj v, _, ?_, hlater.trans ?_⟩
    · rw [List.append_assoc]
      exact hn.reads _ hq (enc v ++ rest) off
    · rw [List.length_append, Nat.add_assoc]
  exact hm := by
    obtain ⟨b, t, hfirst, hm⟩ := Read.bind_some.mp hm
    obtain ⟨hb, rest, rfl, rfl⟩ := hn.resume hfirst
    obtain ⟨⟨hv, rfl⟩, later, rfl⟩ := (hf b hb).exact hm
    exact ⟨hv, later, (List.append_assoc _ _ _).symm⟩

/-- A field whose codec takes every value. -/
theorem field {n : Read β} {encβ : β → Bytes} {f : β → Read α}
    (hn : Codec n encβ fun _ => True) (proj : α → β)
    (hf : ∀ b, Codec (f b) enc fun a => P a ∧ proj a = b) :
    Codec (n >>= f) (fun a => encβ (proj a) ++ enc a) P :=
  hn.bind proj (fun _ _ => trivial) fun b _ => hf b

/-- A check on the fields so far. -/
theorem guard {c : Prop} {hdecidable : Decidable c} {bad : Read α} (hbad : bad.Refuses)
    (hc : ∀ a, P a → ¬ c) (h : ¬ c → Codec m enc P) : Codec (if c then bad else m) enc P where
  reads v hv := by
    rw [if_neg (hc v hv)]
    exact (h (hc v hv)).reads v hv
  exact {data off v r} hm := by
    split at hm
    · have hnone := hbad ⟨data, off, false⟩
      rw [hm] at hnone
      cases hnone
    · exact (h ‹_›).exact hm

/-- An image in front of other bytes determines its value, and what follows it. -/
theorem cancel (h : Codec m enc P) {a b : α} (ha : P a) (hb : P b) {s t : Bytes}
    (heq : enc a ++ s = enc b ++ t) : a = b ∧ s = t := by
  have hread := h.reads a ha s 0
  rw [heq, h.reads b hb t 0] at hread
  obtain ⟨hvalue, hreader⟩ := Prod.mk.inj hread
  exact ⟨(Option.some.inj hvalue).symm, (congrArg CanonicalReader.rest hreader).symm⟩

/-- A payload that is read to its end. -/
theorem run_iff (h : Codec m enc P) (payload : Bytes) (v : α) :
    Read.run (do let x ← m; Read.done; return x) payload = some v ↔ P v ∧ payload = enc v := by
  have hrun : Read.run (do let x ← m; Read.done; return x) payload
      = match m ⟨payload, 0, false⟩ with
        | (some x, r) => if r.exhausted then some x else none
        | (none, _) => none := by
    simp only [Read.run, Bind.bind]
    rcases m ⟨payload, 0, false⟩ with ⟨_ | x, r⟩
    · rfl
    · by_cases hr : r.exhausted = true
      · simp only [Read.done, hr, if_true]
        rfl
      · simp only [Read.done, hr, Bool.false_eq_true, if_false]
  rw [hrun]
  refine ⟨fun hm => ?_, fun ⟨hv, hpayload⟩ => ?_⟩
  · rcases hfirst : m ⟨payload, 0, false⟩ with ⟨_ | x, r⟩
    · rw [hfirst] at hm
      cases hm
    · rw [hfirst] at hm
      obtain ⟨hx, rest, rfl, rfl⟩ := h.resume hfirst
      dsimp only at hm
      split at hm
      · rename_i hdone
        obtain rfl := Option.some.inj hm
        have hrest : rest = [] := by simpa [CanonicalReader.exhausted] using hdone
        exact ⟨hx, by rw [hrest, List.append_nil]⟩
      · cases hm
  · have hm := h.reads v hv [] 0
    rw [List.append_nil] at hm
    rw [hpayload, hm]
    rfl

end Codec

/-! ## The primitive codecs -/

theorem codec_bytes (n : Nat) : Codec (Read.bytes n) (fun bs => bs) fun bs => bs.length = n where
  reads bs hbs rest off := by
    subst hbs
    simp [Read.bytes]
  exact {data off v r} hm := by
    rw [Read.bytes, if_neg (by simp)] at hm
    split at hm
    · cases hm
    · rename_i hlength
      obtain ⟨rfl, -⟩ := Prod.mk.inj hm |>.imp_left Option.some.inj
      rw [Nat.not_lt] at hlength
      exact ⟨List.length_take_of_le hlength, data.drop n, (List.take_append_drop n data).symm⟩

theorem codec_u8 : Codec Read.u8 Write.u8 fun _ => True := by
  refine .congr ((codec_bytes 1).bind (fun v => [v]) (fun _ _ => rfl) fun bs hbs =>
    .pure fun v => ?_) fun v _ => List.append_nil _
  obtain ⟨b, rfl⟩ := List.length_eq_one_iff.mp hbs
  simp

theorem codec_u16 : Codec Read.u16 Write.u16 fun _ => True := by
  refine .congr (.field codec_u8 (fun v : UInt16 => UInt8.ofNat (v.toNat / 256)) fun high =>
    .field codec_u8 (fun v : UInt16 => UInt8.ofNat v.toNat) fun low => .pure fun v => ?_)
    fun v _ => rfl
  have hhigh := high.toNat_lt
  have hlow := low.toNat_lt
  have hv := v.toNat_lt
  simp only [true_and, ← UInt8.toNat_inj, ← UInt16.toNat_inj, UInt8.toNat_ofNat',
    UInt16.toNat_ofNat']
  omega

/-- Splitting a 32-bit integer into its halves, as the reader reassembles it. -/
theorem be32_eq (v : UInt32) :
    be32 v = be16 (UInt16.ofNat (v.toNat / 65536)) ++ be16 (UInt16.ofNat v.toNat) := by
  have := v.toNat_lt
  simp only [be32, be16, UInt16.toNat_ofNat', List.cons_append, List.nil_append, List.cons.injEq,
    and_true]
  refine ⟨?_, ?_, ?_, ?_⟩ <;>
  · apply UInt8.toNat_inj.mp
    simp only [UInt8.toNat_ofNat']
    omega

theorem codec_u32 : Codec Read.u32 Write.u32 fun _ => True := by
  refine .congr (.field codec_u16 (fun v : UInt32 => UInt16.ofNat (v.toNat / 65536)) fun high =>
    .field codec_u16 (fun v : UInt32 => UInt16.ofNat v.toNat) fun low => .pure fun v => ?_)
    fun v _ => (be32_eq v).symm
  have hhigh := high.toNat_lt
  have hlow := low.toNat_lt
  have hv := v.toNat_lt
  simp only [true_and, ← UInt16.toNat_inj, ← UInt32.toNat_inj, UInt16.toNat_ofNat',
    UInt32.toNat_ofNat']
  omega

theorem codec_u64 : Codec Read.u64 Write.u64 fun _ => True := by
  refine .congr
    (.field codec_u32 (fun v : UInt64 => UInt32.ofNat (v.toNat / 4294967296)) fun high =>
    .field codec_u32 (fun v : UInt64 => UInt32.ofNat v.toNat) fun low => .pure fun v => ?_)
    fun v _ => ?_
  · have hhigh := high.toNat_lt
    have hlow := low.toNat_lt
    have hv := v.toNat_lt
    simp only [true_and, ← UInt32.toNat_inj, ← UInt64.toNat_inj, UInt32.toNat_ofNat',
      UInt64.toNat_ofNat']
    omega
  · rw [List.append_nil]
    rfl

theorem codec_boolean : Codec Read.boolean Write.boolean fun _ => True := by
  refine .congr (.field codec_u8 (fun v => if v then 1 else 0) fun raw =>
    .guard Read.fail_refuses (fun v hv => ?_) fun hraw => .pure fun v => ?_)
    fun v _ => List.append_nil _
  · rw [← hv.2]
    cases v <;> decide
  · have hcases : raw = 0 ∨ raw = 1 := by
      have hle : raw.toNat ≤ 1 := UInt8.le_iff_toNat_le.mp (UInt8.not_lt.mp hraw)
      rcases Nat.le_one_iff_eq_zero_or_eq_one.mp hle with h | h
      · exact .inl (UInt8.toNat_inj.mp h)
      · exact .inr (UInt8.toNat_inj.mp h)
    rcases hcases with rfl | rfl <;> cases v <;> decide

theorem codec_counter {tag : CounterTag} :
    Codec (Read.counter : Read (Counter tag)) Write.counter fun _ => True := by
  refine .congr (.field codec_u64 Counter.value fun raw => .pure fun c => ?_)
    fun c _ => List.append_nil _
  obtain ⟨value⟩ := c
  simp

/-- A size that is within a bound, and a 32-bit count. -/
def Fits (bound n : Nat) : Prop := n ≤ bound ∧ n < 2 ^ 32

instance (bound n : Nat) : Decidable (Fits bound n) := inferInstanceAs (Decidable (_ ∧ _))

/-- A count that was read is the count of the container. -/
theorem ofNat_eq_iff {n : Nat} (hn : n < 2 ^ 32) (count : UInt32) :
    UInt32.ofNat n = count ↔ n = count.toNat := by
  rw [← UInt32.toNat_inj, UInt32.toNat_ofNat', Nat.mod_eq_of_lt hn]

theorem codec_boundedText (maxBytes : Nat) : Codec (Read.boundedText maxBytes) Write.text
    fun t => Fits maxBytes t.length := by
  refine .congr (.field codec_u32 (fun t => UInt32.ofNat t.length) fun count =>
    .guard Read.fail_refuses (fun t ht => ?_) fun hcount =>
      .iff (codec_bytes count.toNat) fun t => ?_) fun t _ => rfl
  · have hlength := (ofNat_eq_iff ht.1.2 count).mp ht.2
    have hle := ht.1.1
    omega
  · refine ⟨fun ht => ?_, fun ht => ((ofNat_eq_iff ht.1.2 count).mp ht.2)⟩
    have hlt := count.toNat_lt
    have h32 : t.length < 2 ^ 32 := by omega
    exact ⟨⟨by omega, h32⟩, (ofNat_eq_iff h32 count).mpr ht⟩

theorem IdTag.maxLength_lt (tag : IdTag) : tag.maxLength < 2 ^ 32 := by
  cases tag <;> decide

theorem TextId.length_le {tag : IdTag} (id : TextId tag) : id.text.length ≤ tag.maxLength := by
  rcases id.valid with h | h
  · simp [h]
  · simp only [isValidId, Bool.and_eq_true, decide_eq_true_eq] at h
    exact h.1.1.1.2

theorem codec_textId {tag : IdTag} :
    Codec (Read.textId : Read (TextId tag)) Write.textId fun _ => True := by
  refine .congr ((codec_boundedText tag.maxLength).bind TextId.text
    (fun id _ => ⟨id.length_le, id.length_le.trans_lt tag.maxLength_lt⟩) fun raw hraw => ?_)
    fun id _ => List.append_nil _
  by_cases hnil : raw = []
  · subst hnil
    exact .pure fun id => ⟨fun h => TextId.text_injective h.2, fun h => ⟨trivial, by rw [h]; rfl⟩⟩
  · rw [if_neg (by simpa using hnil)]
    by_cases hvalid : isValidId tag.maxLength raw = true
    · rw [TextId.parse, dif_pos hvalid]
      exact .pure fun id => ⟨fun h => TextId.text_injective h.2, fun h => ⟨trivial, by rw [h]⟩⟩
    · rw [TextId.parse, dif_neg hvalid]
      refine ⟨fun id h => ?_, fun h => by cases h⟩
      rcases id.valid with hempty | hid
      · exact absurd (h.2.symm.trans hempty) hnil
      · rw [h.2] at hid
        exact absurd hid hvalid

/-- The unchecked identities that are read back: those that need no check. -/
def UncheckedId.Readable {tag : IdTag} (id : UncheckedId tag) : Prop :=
  id.text = [] ∨ isValidId tag.maxLength id.text = true

instance {tag : IdTag} (id : UncheckedId tag) : Decidable id.Readable := by
  unfold UncheckedId.Readable
  infer_instance

/-- The identity that is read for an unchecked one. -/
def UncheckedId.checked {tag : IdTag} (id : UncheckedId tag) : TextId tag :=
  if h : id.Readable then ⟨id.text, h⟩ else .nil

theorem codec_uncheckedId {tag : IdTag} :
    Codec (Read.uncheckedId : Read (UncheckedId tag)) Write.uncheckedId UncheckedId.Readable := by
  have hchecked : ∀ id : UncheckedId tag, id.Readable → id.checked.text = id.text := by
    intro id hid
    rw [UncheckedId.checked, dif_pos hid]
  refine .congr (.field codec_textId UncheckedId.checked fun raw => .pure fun id => ?_)
    fun id hid => ?_
  · have hraw : (UncheckedId.fromValidated raw.text : UncheckedId tag).text = raw.text :=
      List.take_of_length_le raw.length_le
    constructor
    · rintro ⟨hid, rfl⟩
      rw [hchecked id hid]
      obtain ⟨text, hlength⟩ := id
      simp [UncheckedId.fromValidated, List.take_of_length_le hlength]
    · rintro rfl
      have hid : (UncheckedId.fromValidated raw.text : UncheckedId tag).Readable := by
        rw [UncheckedId.Readable, hraw]
        exact raw.valid
      exact ⟨hid, TextId.text_injective ((hchecked _ hid).trans hraw)⟩
  · rw [List.append_nil, Write.textId, hchecked id hid]
    rfl

theorem codec_binaryId {tag : BinaryTag} :
    Codec (Read.binaryId : Read (BinaryId tag)) Write.binaryId fun _ => True := by
  refine .congr ((codec_bytes 16).bind BinaryId.bytes (fun id _ => id.size) fun raw hraw => ?_)
    fun id _ => List.append_nil _
  rw [dif_pos hraw]
  refine .pure fun id => ?_
  obtain ⟨bytes, size⟩ := id
  simp

theorem codec_digest {tag : DigestTag} :
    Codec (Read.digest : Read (TypedDigest tag)) Write.digest fun _ => True := by
  refine .congr ((codec_bytes 32).bind (fun d => d.value.bytes) (fun d _ => d.value.size)
    fun raw hraw => ?_) fun d _ => List.append_nil _
  rw [dif_pos hraw]
  refine .pure fun d => ?_
  obtain ⟨⟨bytes, size⟩⟩ := d
  simp

/-- A loop of readings. -/
theorem codec_many {α : Type} {m : Read α} {enc : α → Bytes} {P : α → Prop} (hm : Codec m enc P)
    (n : Nat) : Codec (Read.many m n) (fun xs => xs.flatMap enc)
      fun xs => xs.length = n ∧ ∀ x ∈ xs, P x where
  reads xs hxs := by
    obtain ⟨rfl, hxs⟩ := hxs
    induction xs with
    | nil => exact fun rest off => rfl
    | cons x xs ih =>
      intro rest off
      have hx := hm.reads x (hxs x List.mem_cons_self) (xs.flatMap enc ++ rest) off
      have hlater := ih (fun y hy => hxs y (List.mem_cons_of_mem x hy)) rest (off + (enc x).length)
      rw [List.flatMap_cons, List.append_assoc, List.length_append, ← Nat.add_assoc]
      exact Read.bind_some.mpr ⟨x, _, hx, Read.bind_some.mpr ⟨xs, _, hlater, rfl⟩⟩
  exact {data off xs r} hread := by
    induction n generalizing data off xs r with
    | zero =>
      cases hread
      exact ⟨⟨rfl, by simp⟩, data, rfl⟩
    | succ n ih =>
      obtain ⟨x, t, hx, hread⟩ := Read.bind_some.mp hread
      obtain ⟨hxP, rest, rfl, rfl⟩ := hm.resume hx
      obtain ⟨ys, u, hys, hread⟩ := Read.bind_some.mp hread
      cases hread
      obtain ⟨⟨rfl, hysP⟩, later, rfl⟩ := ih hys
      refine ⟨⟨rfl, ?_⟩, later, ?_⟩
      · exact List.forall_mem_cons.mpr ⟨hxP, hysP⟩
      · rw [List.flatMap_cons, List.append_assoc]

/-! ## Images one after the other -/

@[simp]
theorem Write.length_textId {tag : IdTag} (id : TextId tag) :
    (Write.textId id).length = 4 + id.text.length := by
  rw [Write.textId, Write.text, List.length_append]
  rfl

/-- Texts behind their lengths, if the lengths are exact. -/
theorem text_cancel {s t x y : Bytes} (hs : s.length < 2 ^ 32) (ht : t.length < 2 ^ 32)
    (h : Write.text s ++ x = Write.text t ++ y) : s = t ∧ x = y := by
  rw [Write.text, Write.text, List.append_assoc, List.append_assoc] at h
  obtain ⟨hcount, h⟩ := codec_u32.cancel trivial trivial h
  refine List.append_inj h ?_
  have hlength := congrArg UInt32.toNat hcount
  rwa [UInt32.toNat_ofNat_of_lt' hs, UInt32.toNat_ofNat_of_lt' ht] at hlength

section Images

variable {α : Type} {m : Read α} {enc : α → Bytes} {P : α → Prop}

/-- What a list of images starts with, when another list of images has the same bytes. -/
theorem flatMap_prefix (hm : Codec m enc P) {xs ys : List α} (hxs : ∀ x ∈ xs, P x)
    (hys : ∀ y ∈ ys, P y) (hle : xs.length ≤ ys.length) {s t : Bytes}
    (heq : xs.flatMap enc ++ s = ys.flatMap enc ++ t) :
    ∃ rest, ys = xs ++ rest ∧ s = rest.flatMap enc ++ t := by
  induction xs generalizing ys with
  | nil => exact ⟨ys, rfl, heq⟩
  | cons x xs ih =>
    rcases ys with _ | ⟨y, ys⟩
    · exact absurd hle (Nat.not_succ_le_zero _)
    rw [List.flatMap_cons, List.flatMap_cons, List.append_assoc, List.append_assoc] at heq
    obtain ⟨rfl, hlater⟩ := hm.cancel (hxs x List.mem_cons_self) (hys y List.mem_cons_self) heq
    obtain ⟨rest, rfl, hs⟩ := ih (fun z hz => hxs z (List.mem_cons_of_mem _ hz))
      (fun z hz => hys z (List.mem_cons_of_mem _ hz)) (Nat.le_of_succ_le_succ hle) hlater
    exact ⟨rest, rfl, hs⟩

/-- Images of at most so many bytes each. -/
theorem length_flatMap_le {bound : Nat} (h : ∀ x, (enc x).length ≤ bound) (xs : List α) :
    (xs.flatMap enc).length ≤ xs.length * bound := by
  induction xs with
  | nil => exact Nat.zero_le _
  | cons x xs ih =>
    rw [List.flatMap_cons, List.length_append, List.length_cons, Nat.succ_mul, Nat.add_comm]
    exact Nat.add_le_add ih (h x)

/-- Images of at least so many bytes each. -/
theorem le_length_flatMap {bound : Nat} {xs : List α} (h : ∀ x ∈ xs, bound ≤ (enc x).length) :
    xs.length * bound ≤ (xs.flatMap enc).length := by
  induction xs with
  | nil => exact (Nat.zero_mul bound).le
  | cons x xs ih =>
    rw [List.flatMap_cons, List.length_append, List.length_cons, Nat.succ_mul, Nat.add_comm]
    exact Nat.add_le_add (h x List.mem_cons_self) (ih fun y hy => h y (List.mem_cons_of_mem _ hy))

/-- **Lists of images** that are counted apart, in front of short ends: if the counts agree up to more
images than the ends have room for, the lists do. -/
theorem flatMap_cancel (hm : Codec m enc fun _ => True) (hpos : ∀ x, 1 ≤ (enc x).length)
    {modulus : Nat} {xs ys : List α} (hcount : xs.length % modulus = ys.length % modulus)
    {s t : Bytes} (hs : s.length < modulus) (ht : t.length < modulus)
    (heq : xs.flatMap enc ++ s = ys.flatMap enc ++ t) : xs = ys ∧ s = t := by
  -- the longer list goes on with images that its count does not show
  have hshorter : ∀ {xs ys : List α} {s t : Bytes}, xs.length ≤ ys.length → s.length < modulus →
      xs.length % modulus = ys.length % modulus →
      xs.flatMap enc ++ s = ys.flatMap enc ++ t → xs = ys ∧ s = t := by
    intro xs ys s t hle hs hcount heq
    obtain ⟨rest, rfl, rfl⟩ := flatMap_prefix hm (fun _ _ => trivial) (fun _ _ => trivial) hle heq
    have hrest := le_length_flatMap fun x (_ : x ∈ rest) => hpos x
    rw [List.length_append] at hs hcount
    have hnone : rest.length = 0 := by
      have hdvd : modulus ∣ rest.length := by
        have hsame := Nat.sub_mod_eq_zero_of_mod_eq hcount.symm
        rw [Nat.add_sub_cancel_left] at hsame
        exact Nat.dvd_of_mod_eq_zero hsame
      exact Nat.eq_zero_of_dvd_of_lt hdvd (by omega)
    rw [List.length_eq_zero_iff.mp hnone]
    exact ⟨(List.append_nil xs).symm, rfl⟩
  rcases Nat.le_total xs.length ys.length with hle | hle
  · exact hshorter hle hs hcount heq
  · obtain ⟨hlists, hends⟩ := hshorter hle ht hcount.symm heq.symm
    exact ⟨hlists.symm, hends.symm⟩

end Images

end FabricPartition
