import FabricPartition.Encoding

/-!
# The reader over its buffer

`CanonicalReader` as `encoding.cpp` has it: a pointer, a size and an offset, with the unsigned
arithmetic of the source, and beside them the positions whose bytes were read or handed out.

* `ReadOperation.call_refines` — every operation leaves the offset within the size and touches no
  byte past it, and it is the reading of `Encoding` on the bytes that remain;
* `sticky_iff` — a failure is sticky, but for one operation: `text_id` on a text that is there and
  is no identifier returns false and leaves the flag alone, so that what follows is read as if
  nothing had happened.
-/

set_option autoImplicit false

namespace FabricPartition

/-! ## The reader of the source -/

/-- The reader: the bytes from `data_` on, the size, the offset and the flag. -/
structure BufferReader where
  data : Nat → UInt8
  size : UInt64
  offset : UInt64 := 0
  failed : Bool := false
  /-- The positions whose bytes were read or handed out. -/
  touched : List Nat := []

namespace BufferReader

/-- `CanonicalReader::exhausted`. -/
def exhausted (r : BufferReader) : Bool := r.offset == r.size && !r.failed

/-- The offset is within the buffer, and so is every byte that was touched. -/
structure Sound (r : BufferReader) : Prop where
  offset : r.offset ≤ r.size
  touched : ∀ i ∈ r.touched, i < r.size.toNat

/-- The bytes that remain, as the readings of `Encoding` see them. -/
def view (r : BufferReader) : CanonicalReader where
  rest := ((List.range r.size.toNat).map r.data).drop r.offset.toNat
  offset := r.offset.toNat
  failed := r.failed

end BufferReader

/-- An operation: it returns a value or reports failure. -/
def BufferRead (α : Type) := BufferReader → Option α × BufferReader

namespace BufferRead

/-- Sequencing stops at the first failure. -/
instance : Monad BufferRead where
  pure v := fun r => (some v, r)
  bind m f := fun r =>
    match m r with
    | (some v, r) => f v r
    | (none, r) => (none, r)

/-- `return false`. -/
def refuse {α : Type} : BufferRead α := fun r => (none, r)

/-- `failed_ = true; return false`. -/
def fail {α : Type} : BufferRead α := fun r => (none, { r with failed := true })

/-- `CanonicalReader::need`. -/
def need (count : UInt64) : BufferRead Unit := fun r =>
  if r.failed then refuse r
  else if count > r.size - r.offset then fail r
  else (some (), r)

/-- Bytes at the cursor are read or handed out, and it moves past them. -/
def advance {α : Type} (count : UInt64) (out : BufferReader → α) : BufferRead α := fun r =>
  (some (out r),
    { r with
      offset := r.offset + count
      touched := r.touched ++ List.range' r.offset.toNat count.toNat })

/-- The bytes at the cursor. -/
def take (count : UInt64) : BufferRead Bytes :=
  advance count fun r => (List.range' r.offset.toNat count.toNat).map r.data

/-- `CanonicalReader::bytes`. -/
def bytes (count : UInt64) : BufferRead Bytes := do
  need count
  take count

/-- `CanonicalReader::u8`. -/
def u8 : BufferRead UInt8 := do
  need 1
  advance 1 fun r => r.data r.offset.toNat

/-- `CanonicalReader::u16`. -/
def u16 : BufferRead UInt16 := do
  let high ← u8
  let low ← u8
  return UInt16.ofNat (high.toNat * 256 + low.toNat)

/-- `CanonicalReader::u32`. -/
def u32 : BufferRead UInt32 := do
  let high ← u16
  let low ← u16
  return UInt32.ofNat (high.toNat * 65536 + low.toNat)

/-- `CanonicalReader::u64`. -/
def u64 : BufferRead UInt64 := do
  let high ← u32
  let low ← u32
  return UInt64.ofNat (high.toNat * 4294967296 + low.toNat)

/-- `CanonicalReader::boolean`. -/
def boolean : BufferRead Bool := do
  let raw ← u8
  if raw > 1 then fail else return raw == 1

/-- The check of a declared length against what remains, and the view of the text. -/
def declared (length : UInt64) : BufferRead Bytes := fun r =>
  if length > r.size - r.offset then fail r else take length r

/-- `CanonicalReader::text`. -/
def text : BufferRead Text := do
  let length ← u32
  declared (UInt64.ofNat length.toNat)

/-- `CanonicalReader::bounded_text`. -/
def boundedText (maxBytes : Nat) : BufferRead Text := do
  let length ← u32
  if length.toNat > maxBytes then fail else declared (UInt64.ofNat length.toNat)

/-- `CanonicalReader::typed_digest`. -/
def digest {tag : DigestTag} : BufferRead (TypedDigest tag) := do
  let raw ← bytes 32
  if h : raw.length = 32 then return ⟨⟨raw, h⟩⟩ else refuse

/-- `CanonicalReader::text_id`: a text that does not parse is refused without the flag. -/
def textId {tag : IdTag} : BufferRead (TextId tag) := do
  let raw ← boundedText tag.maxLength
  if raw.isEmpty then return TextId.nil
  else
    match TextId.parse raw with
    | none => refuse
    | some id => return id

/-- `CanonicalReader::counter`. -/
def counter {tag : CounterTag} : BufferRead (Counter tag) := do
  let raw ← u64
  return ⟨raw⟩

end BufferRead

/-- The value of a lowercase hexadecimal digit. -/
def hexValue (c : UInt8) : Option Nat :=
  if 48 ≤ c ∧ c ≤ 57 then some (c.toNat - 48)
  else if 97 ≤ c ∧ c ≤ 102 then some (c.toNat - 87)
  else none

/-- The loop of `parse_hex`, two digits a byte. -/
def parsePairs : Text → Option Bytes
  | [] => some []
  | [_] => none
  | high :: low :: rest => do
    let high ← hexValue high
    let low ← hexValue low
    let bytes ← parsePairs rest
    return UInt8.ofNat (high * 16 + low) :: bytes

/-- `BinaryId::parse_hex`. -/
def BinaryId.parseHex {tag : BinaryTag} (t : Text) : Option (BinaryId tag) :=
  if t.length ≠ 32 then none
  else
    match parsePairs t with
    | none => none
    | some bytes => if h : bytes.length = 16 then some ⟨bytes, h⟩ else none

namespace BufferRead

/-- `CanonicalReader::binary_id`: the bytes, by way of their hexadecimal digits. -/
def binaryId {tag : BinaryTag} : BufferRead (BinaryId tag) := do
  let raw ← bytes 16
  match BinaryId.parseHex (hex raw) with
  | none => refuse
  | some id => return id

/-- `CanonicalReader::take_region`: a reader of its own for the next bytes. -/
def takeRegion (count : UInt64) : BufferRead BufferReader := do
  need count
  advance count fun r => { data := fun i => r.data (r.offset.toNat + i), size := count }

end BufferRead

/-- `CanonicalReader::text`, on the bytes that remain. -/
def Read.text : Read Text := do
  let length ← Read.u32
  Read.bytes length.toNat

/-- `CanonicalReader::take_region`, on the bytes that remain. -/
def Read.takeRegion (count : Nat) : Read CanonicalReader := do
  let region ← Read.bytes count
  return { rest := region }

/-! ## Digits -/

theorem hexValue_hexDigit (n : Nat) (h : n < 16) : hexValue (hexDigit n) = some n := by
  revert n
  decide

theorem parsePairs_hex (bytes : Bytes) : parsePairs (hex bytes) = some bytes := by
  induction bytes with
  | nil => rfl
  | cons b bytes ih =>
    have hlt := b.toNat_lt
    have hcons : hex (b :: bytes)
        = hexDigit (b.toNat / 16) :: hexDigit (b.toNat % 16) :: hex bytes := rfl
    rw [hcons, parsePairs, hexValue_hexDigit _ (by omega), hexValue_hexDigit _ (by omega), ih]
    have hbyte : UInt8.ofNat (b.toNat / 16 * 16 + b.toNat % 16) = b := by
      rw [Nat.div_add_mod', UInt8.ofNat_toNat]
    simp only [Option.bind_eq_bind, Option.bind_some, hbyte, Option.pure_def]

/-- Parsing the rendered bytes back accepts every image. -/
theorem BinaryId.parseHex_hex {tag : BinaryTag} (bytes : Bytes) :
    (BinaryId.parseHex (hex bytes) : Option (BinaryId tag)) =
      if h : bytes.length = 16 then some ⟨bytes, h⟩ else none := by
  rw [BinaryId.parseHex, parsePairs_hex, hex_length]
  by_cases h : bytes.length = 16
  · rw [if_neg (by omega), dif_pos h]
    exact dif_pos h
  · rw [if_pos (by omega), dif_neg h]

/-! ## The readings and the buffer -/

theorem read_bind {α β : Type} (n : Read α) (g : α → Read β) (c : CanonicalReader) :
    (n >>= g) c = match n c with
      | (some v, c) => g v c
      | (none, c) => (none, c) := rfl

namespace BufferRead

open BufferReader

/-- **An operation refines a reading**: on a sound reader that has not failed, it does to the buffer
what the reading does to the bytes that remain, and it keeps to the buffer. -/
structure Refines {α β : Type} (m : BufferRead α) (value : α → β) (n : Read β) : Prop where
  sound : ∀ r : BufferReader, r.Sound → r.failed = false → (m r).2.Sound
  data : ∀ r, (m r).2.data = r.data
  size : ∀ r, (m r).2.size = r.size
  live : ∀ r v, r.failed = false → (m r).1 = some v → (m r).2.failed = false
  reading : ∀ r : BufferReader, r.Sound → r.failed = false →
    n r.view = ((m r).1.map value, (m r).2.view)

namespace Refines

variable {α β γ δ : Type} {m : BufferRead α} {n : Read β} {value : α → β}

protected theorem pure (v : α) : Refines (pure v : BufferRead α) value (pure (value v)) :=
  ⟨fun _ h _ => h, fun _ => rfl, fun _ => rfl, fun _ _ h _ => h, fun _ _ _ => rfl⟩

protected theorem fail : Refines (fail : BufferRead α) value Read.fail :=
  ⟨fun _ h _ => ⟨h.offset, h.touched⟩, fun _ => rfl, fun _ => rfl, nofun, fun _ _ _ => rfl⟩

protected theorem refuse : Refines (refuse : BufferRead α) value Read.refuse :=
  ⟨fun _ h _ => h, fun _ => rfl, fun _ => rfl, nofun, fun _ _ _ => rfl⟩

protected theorem ite {c : Prop} [Decidable c] {m' : BufferRead α} {n' : Read β}
    (h : c → Refines m value n) (h' : ¬ c → Refines m' value n') :
    Refines (if c then m else m') value (if c then n else n') := by
  split
  · exact h ‹_›
  · exact h' ‹_›

theorem bind_run (m : BufferRead α) (f : α → BufferRead γ) (r : BufferReader) :
    (m >>= f) r = match m r with
      | (some v, r) => f v r
      | (none, r) => (none, r) := rfl

protected theorem bind {f : α → BufferRead γ} {value' : γ → δ} {g : β → Read δ}
    (h : Refines m value n) (hf : ∀ v, Refines (f v) value' (g (value v))) :
    Refines (m >>= f) value' (n >>= g) where
  sound r hr hlive := by
    have hfirst := h.sound r hr hlive
    have hgo := h.live r
    rw [bind_run]
    generalize m r = out at hfirst hgo
    obtain ⟨_ | v, r'⟩ := out
    · exact hfirst
    · exact (hf v).sound r' hfirst (hgo v hlive rfl)
  data r := by
    have hfirst := h.data r
    rw [bind_run]
    generalize m r = out at hfirst
    obtain ⟨_ | v, r'⟩ := out
    · exact hfirst
    · exact ((hf v).data r').trans hfirst
  size r := by
    have hfirst := h.size r
    rw [bind_run]
    generalize m r = out at hfirst
    obtain ⟨_ | v, r'⟩ := out
    · exact hfirst
    · exact ((hf v).size r').trans hfirst
  live r w hlive := by
    have hgo := h.live r
    rw [bind_run]
    generalize m r = out at hgo
    obtain ⟨_ | v, r'⟩ := out
    · exact nofun
    · exact (hf v).live r' w (hgo v hlive rfl)
  reading r hr hlive := by
    have hfirst := h.sound r hr hlive
    have hgo := h.live r
    have hread := h.reading r hr hlive
    rw [bind_run, read_bind, hread]
    generalize m r = out at hfirst hgo
    obtain ⟨_ | v, r'⟩ := out
    · rfl
    · exact (hf v).reading r' hfirst (hgo v hlive rfl)

/-! ### The primitive operations -/

theorem length_rest (r : BufferReader) :
    r.view.rest.length = r.size.toNat - r.offset.toNat := by
  rw [BufferReader.view, List.length_drop, List.length_map, List.length_range]

/-- The check of the source, in the bytes that remain. -/
theorem exceeds_iff {r : BufferReader} (h : r.Sound) (count : UInt64) :
    count > r.size - r.offset ↔ count.toNat > r.view.rest.length := by
  rw [length_rest, ← UInt64.toNat_sub_of_le _ _ h.offset]
  exact UInt64.lt_iff_toNat_lt

section Advance

variable {r : BufferReader} {count : UInt64}

theorem toNat_advanced (h : r.Sound) (hroom : ¬ count > r.size - r.offset) :
    (r.offset + count).toNat = r.offset.toNat + count.toNat ∧
      r.offset.toNat + count.toNat ≤ r.size.toNat := by
  rw [exceeds_iff h, length_rest] at hroom
  have hoffset := UInt64.le_iff_toNat_le.mp h.offset
  have hsize := r.size.toNat_lt
  refine ⟨?_, by omega⟩
  rw [UInt64.toNat_add, Nat.mod_eq_of_lt (by omega)]

theorem advance_sound (h : r.Sound) (hroom : ¬ count > r.size - r.offset) (out : BufferReader → α) :
    (advance count out r).2.Sound := by
  obtain ⟨hadd, hle⟩ := toNat_advanced h hroom
  refine ⟨?_, fun i hi => ?_⟩
  · rw [UInt64.le_iff_toNat_le]
    exact hadd ▸ hle
  · rcases List.mem_append.mp hi with hi | hi
    · exact h.touched i hi
    · rw [List.mem_range'_1] at hi
      exact Nat.lt_of_lt_of_le hi.2 hle

theorem advance_view (h : r.Sound) (hroom : ¬ count > r.size - r.offset) (out : BufferReader → α) :
    (advance count out r).2.view =
      { r.view with
        rest := r.view.rest.drop count.toNat, offset := r.view.offset + count.toNat } := by
  have hadd := (toNat_advanced h hroom).1
  simp only [advance, BufferReader.view, hadd, List.drop_drop]

/-- The bytes handed out are the next ones of those that remain. -/
theorem map_range'_data (h : r.Sound) (hroom : ¬ count > r.size - r.offset) :
    (List.range' r.offset.toNat count.toNat).map r.data = r.view.rest.take count.toNat := by
  have hle := (toNat_advanced h hroom).2
  rw [BufferReader.view, ← List.map_drop, ← List.map_take, List.range_eq_range', List.drop_range',
    List.take_range'_of_length_ge (by omega), Nat.mul_one, Nat.zero_add]

end Advance

/-- An operation that, unless it has failed before, checks some bytes and moves past them. -/
theorem of_check {count : UInt64} {out : BufferReader → α} {g : Bytes → β}
    (hdata : ∀ r, (m r).2.data = r.data) (hsize : ∀ r, (m r).2.size = r.size)
    (hrun : ∀ r : BufferReader, r.failed = false →
      m r = if count > r.size - r.offset then fail r else advance count out r)
    (hn : ∀ c : CanonicalReader, c.failed = false → n c =
      if count.toNat > c.rest.length then (none, { c with failed := true })
      else (some (g (c.rest.take count.toNat)),
        { c with rest := c.rest.drop count.toNat, offset := c.offset + count.toNat }))
    (hout : ∀ r : BufferReader, r.Sound → ¬ count > r.size - r.offset →
      value (out r) = g (r.view.rest.take count.toNat)) : Refines m value n := by
  refine ⟨fun r hr hlive => ?_, hdata, hsize, fun r v hlive => ?_, fun r hr hlive => ?_⟩
  · rw [hrun r hlive]
    split
    · exact ⟨hr.offset, hr.touched⟩
    · rename_i hroom
      exact advance_sound hr hroom out
  · rw [hrun r hlive]
    split
    · exact nofun
    · exact fun _ => hlive
  · rw [hrun r hlive, hn r.view hlive]
    by_cases hroom : count > r.size - r.offset
    · rw [if_pos hroom, if_pos ((exceeds_iff hr count).mp hroom)]
      rfl
    · rw [if_neg hroom, if_neg (mt (exceeds_iff hr count).mpr hroom), advance_view hr hroom,
        ← hout r hr hroom]
      rfl

theorem need_run (count : UInt64) (out : BufferReader → α) (r : BufferReader) :
    (need count >>= fun _ => advance count out) r =
      if r.failed then (none, r)
      else if count > r.size - r.offset then fail r else advance count out r := by
  rw [bind_run, need]
  by_cases hfailed : r.failed = true
  · rw [if_pos hfailed, if_pos hfailed]
    rfl
  · rw [if_neg hfailed, if_neg hfailed]
    by_cases hroom : count > r.size - r.offset
    · rw [if_pos hroom, if_pos hroom]
      rfl
    · rw [if_neg hroom, if_neg hroom]

/-- An operation behind `need`. -/
theorem of_need {count : UInt64} {out : BufferReader → α} {g : Bytes → β}
    (hn : ∀ c : CanonicalReader, c.failed = false → n c =
      if count.toNat > c.rest.length then (none, { c with failed := true })
      else (some (g (c.rest.take count.toNat)),
        { c with rest := c.rest.drop count.toNat, offset := c.offset + count.toNat }))
    (hout : ∀ r : BufferReader, r.Sound → ¬ count > r.size - r.offset →
      value (out r) = g (r.view.rest.take count.toNat)) :
    Refines (need count >>= fun _ => advance count out) value n := by
  refine of_check (fun r => ?_) (fun r => ?_) (fun r hlive => ?_) hn hout
  · rw [need_run]
    split
    · rfl
    · split <;> rfl
  · rw [need_run]
    split
    · rfl
    · split <;> rfl
  · rw [need_run, if_neg (by rw [hlive]; exact Bool.false_ne_true)]

theorem bytes_live (count : Nat) (c : CanonicalReader) (h : c.failed = false) :
    Read.bytes count c =
      if count > c.rest.length then (none, { c with failed := true })
      else (some (c.rest.take count),
        { c with rest := c.rest.drop count, offset := c.offset + count }) := by
  rw [Read.bytes, if_neg (by rw [h]; exact Bool.false_ne_true)]

protected theorem bytes (count : UInt64) :
    Refines (BufferRead.bytes count) id (Read.bytes count.toNat) :=
  of_need (g := id) (fun c hc => bytes_live count.toNat c hc) fun _ hr hroom =>
    map_range'_data hr hroom

protected theorem u8 : Refines BufferRead.u8 id Read.u8 := by
  refine of_need (g := fun bs => bs.headD 0) (fun c hc => ?_) fun r hr hroom => ?_
  · have hone : (1 : UInt64).toNat = 1 := rfl
    simp only [Read.u8, Bind.bind]
    rw [bytes_live 1 c hc, hone]
    by_cases hroom : 1 > c.rest.length
    · rw [if_pos hroom, if_pos hroom]
    · rw [if_neg hroom, if_neg hroom]
      rfl
  · rw [← map_range'_data hr hroom]
    rfl

protected theorem takeRegion (count : UInt64) :
    Refines (BufferRead.takeRegion count) BufferReader.view (Read.takeRegion count.toNat) := by
  refine of_need (g := fun bs => { rest := bs }) (fun c hc => ?_) fun r hr hroom => ?_
  · simp only [Read.takeRegion, Bind.bind]
    rw [bytes_live count.toNat c hc]
    by_cases hroom : count.toNat > c.rest.length
    · rw [if_pos hroom, if_pos hroom]
    · rw [if_neg hroom, if_neg hroom]
      rfl
  · rw [← map_range'_data hr hroom, BufferReader.view, List.range'_eq_map_range]
    simp only [UInt64.toNat_zero, List.drop_zero, List.map_map]
    rfl

protected theorem declared (length : UInt64) :
    Refines (BufferRead.declared length) id (Read.bytes length.toNat) := by
  refine of_check (g := id) (fun r => ?_) (fun r => ?_) (fun r _ => rfl)
    (fun c hc => bytes_live length.toNat c hc) fun _ hr hroom => map_range'_data hr hroom
  · rw [declared]
    split <;> rfl
  · rw [declared]
    split <;> rfl

/-! ### The compound operations -/

protected theorem u16 : Refines BufferRead.u16 id Read.u16 :=
  .bind .u8 fun _ => .bind .u8 fun _ => .pure _

protected theorem u32 : Refines BufferRead.u32 id Read.u32 :=
  .bind .u16 fun _ => .bind .u16 fun _ => .pure _

protected theorem u64 : Refines BufferRead.u64 id Read.u64 :=
  .bind .u32 fun _ => .bind .u32 fun _ => .pure _

protected theorem boolean : Refines BufferRead.boolean id Read.boolean :=
  .bind .u8 fun _ => .ite (fun _ => .fail) fun _ => .pure _

/-- A declared length, as the reader computes with it. -/
theorem declared_length (length : UInt32) :
    Refines (BufferRead.declared (UInt64.ofNat length.toNat)) id (Read.bytes length.toNat) := by
  have h := Refines.declared (UInt64.ofNat length.toNat)
  have hlt := length.toNat_lt
  rwa [UInt64.toNat_ofNat', Nat.mod_eq_of_lt (by omega)] at h

protected theorem text : Refines BufferRead.text id Read.text :=
  .bind .u32 declared_length

protected theorem boundedText (maxBytes : Nat) :
    Refines (BufferRead.boundedText maxBytes) id (Read.boundedText maxBytes) :=
  .bind .u32 fun length => .ite (fun _ => .fail) fun _ => declared_length length

protected theorem digest {tag : DigestTag} :
    Refines (BufferRead.digest : BufferRead (TypedDigest tag)) id Read.digest := by
  refine .bind (.bytes 32) fun raw => ?_
  by_cases h : raw.length = 32
  · rw [dif_pos h, dif_pos (show (id raw).length = 32 from h)]
    exact .pure _
  · rw [dif_neg h, dif_neg (show ¬ (id raw).length = 32 from h)]
    exact .refuse

protected theorem textId {tag : IdTag} :
    Refines (BufferRead.textId : BufferRead (TextId tag)) id Read.textId := by
  refine .bind (.boundedText tag.maxLength) fun raw => .ite (fun _ => .pure _) fun _ => ?_
  dsimp only [id]
  rcases TextId.parse raw with _ | parsed
  · exact .refuse
  · exact .pure _

protected theorem counter {tag : CounterTag} :
    Refines (BufferRead.counter : BufferRead (Counter tag)) id Read.counter :=
  .bind .u64 fun _ => .pure _

protected theorem binaryId {tag : BinaryTag} :
    Refines (BufferRead.binaryId : BufferRead (BinaryId tag)) id Read.binaryId := by
  refine .bind (.bytes 16) fun raw => ?_
  rw [BinaryId.parseHex_hex]
  by_cases h : raw.length = 16
  · rw [dif_pos h, dif_pos (show (id raw).length = 16 from h)]
    exact .pure _
  · rw [dif_neg h, dif_neg (show ¬ (id raw).length = 16 from h)]
    exact .refuse

end Refines

end BufferRead

/-! ## Sequences of operations -/

/-- The operations of the reader. -/
inductive ReadOperation
  | u8 | u16 | u32 | u64 | boolean | text | digest
  | boundedText (maxBytes : Nat)
  | bytes (count : UInt64)
  | textId (tag : IdTag)
  | binaryId (tag : BinaryTag)
  | counter (tag : CounterTag)
  | takeRegion (count : UInt64)
  deriving DecidableEq

namespace ReadOperation

/-- What a call returns, and the reader it leaves. -/
def outcome {α : Type} (m : BufferRead α) (r : BufferReader) : Bool × BufferReader :=
  ((m r).1.isSome, (m r).2)

/-- A call of the operation. -/
def call : ReadOperation → BufferReader → Bool × BufferReader
  | u8 => outcome BufferRead.u8
  | u16 => outcome BufferRead.u16
  | u32 => outcome BufferRead.u32
  | u64 => outcome BufferRead.u64
  | boolean => outcome BufferRead.boolean
  | text => outcome BufferRead.text
  | digest => outcome (BufferRead.digest : BufferRead MembershipDigest)
  | boundedText maxBytes => outcome (BufferRead.boundedText maxBytes)
  | bytes count => outcome (BufferRead.bytes count)
  | textId tag => outcome (BufferRead.textId : BufferRead (TextId tag))
  | binaryId tag => outcome (BufferRead.binaryId : BufferRead (BinaryId tag))
  | counter tag => outcome (BufferRead.counter : BufferRead (Counter tag))
  | takeRegion count => outcome (BufferRead.takeRegion count)

/-- What a reading returns, and the bytes it leaves. -/
def readOutcome {α : Type} (n : Read α) (c : CanonicalReader) : Bool × CanonicalReader :=
  ((n c).1.isSome, (n c).2)

/-- The reading of the operation. -/
def read : ReadOperation → CanonicalReader → Bool × CanonicalReader
  | u8 => readOutcome Read.u8
  | u16 => readOutcome Read.u16
  | u32 => readOutcome Read.u32
  | u64 => readOutcome Read.u64
  | boolean => readOutcome Read.boolean
  | text => readOutcome Read.text
  | digest => readOutcome (Read.digest : Read MembershipDigest)
  | boundedText maxBytes => readOutcome (Read.boundedText maxBytes)
  | bytes count => readOutcome (Read.bytes count.toNat)
  | textId tag => readOutcome (Read.textId : Read (TextId tag))
  | binaryId tag => readOutcome (Read.binaryId : Read (BinaryId tag))
  | counter tag => readOutcome (Read.counter : Read (Counter tag))
  | takeRegion count => readOutcome (Read.takeRegion count.toNat)

/-! ### A reader that has failed -/

section Stuck

variable {α β : Type} {m : BufferRead α} {n : Read α}

/-- On a reader that has failed, the operation returns false and does nothing. -/
def Stuck (m : BufferRead α) : Prop := ∀ r, r.failed = true → m r = (none, r)

/-- The same of a reading. -/
def ReadStuck (n : Read α) : Prop := ∀ c : CanonicalReader, c.failed = true → n c = (none, c)

theorem Stuck.bind (h : Stuck m) (f : α → BufferRead β) : Stuck (m >>= f) := by
  intro r hr
  rw [BufferRead.Refines.bind_run, h r hr]

theorem ReadStuck.bind (h : ReadStuck n) (f : α → Read β) : ReadStuck (n >>= f) := by
  intro c hc
  simp only [Bind.bind]
  rw [h c hc]

theorem need_stuck (count : UInt64) : Stuck (BufferRead.need count) := by
  intro r hr
  rw [BufferRead.need, if_pos hr]
  rfl

theorem bytes_stuck (count : Nat) : ReadStuck (Read.bytes count) := by
  intro c hc
  rw [Read.bytes, if_pos hc]

/-- An operation, its reading, and that both are stuck once they have failed. -/
structure Realises (m : BufferRead α) (value : α → β) (n : Read β) : Prop where
  refines : BufferRead.Refines m value n
  stuck : Stuck m
  readStuck : ReadStuck n

end Stuck

theorem u8_realises : Realises BufferRead.u8 id Read.u8 :=
  ⟨.u8, (need_stuck 1).bind _, (bytes_stuck 1).bind _⟩

theorem u16_realises : Realises BufferRead.u16 id Read.u16 :=
  ⟨.u16, u8_realises.stuck.bind _, u8_realises.readStuck.bind _⟩

theorem u32_realises : Realises BufferRead.u32 id Read.u32 :=
  ⟨.u32, u16_realises.stuck.bind _, u16_realises.readStuck.bind _⟩

theorem u64_realises : Realises BufferRead.u64 id Read.u64 :=
  ⟨.u64, u32_realises.stuck.bind _, u32_realises.readStuck.bind _⟩

theorem boundedText_realises (maxBytes : Nat) :
    Realises (BufferRead.boundedText maxBytes) id (Read.boundedText maxBytes) :=
  ⟨.boundedText maxBytes, u32_realises.stuck.bind _, u32_realises.readStuck.bind _⟩

theorem bytes_realises (count : UInt64) :
    Realises (BufferRead.bytes count) id (Read.bytes count.toNat) :=
  ⟨.bytes count, (need_stuck count).bind _, bytes_stuck count.toNat⟩

theorem boolean_realises : Realises BufferRead.boolean id Read.boolean :=
  ⟨.boolean, u8_realises.stuck.bind _, u8_realises.readStuck.bind _⟩

theorem text_realises : Realises BufferRead.text id Read.text :=
  ⟨.text, u32_realises.stuck.bind _, u32_realises.readStuck.bind _⟩

theorem digest_realises {tag : DigestTag} :
    Realises (BufferRead.digest : BufferRead (TypedDigest tag)) id Read.digest :=
  ⟨.digest, (bytes_realises 32).stuck.bind _, (bytes_realises 32).readStuck.bind _⟩

theorem textId_realises {tag : IdTag} :
    Realises (BufferRead.textId : BufferRead (TextId tag)) id Read.textId :=
  ⟨.textId, (boundedText_realises tag.maxLength).stuck.bind _,
    (boundedText_realises tag.maxLength).readStuck.bind _⟩

theorem binaryId_realises {tag : BinaryTag} :
    Realises (BufferRead.binaryId : BufferRead (BinaryId tag)) id Read.binaryId :=
  ⟨.binaryId, (bytes_realises 16).stuck.bind _, (bytes_realises 16).readStuck.bind _⟩

theorem counter_realises {tag : CounterTag} :
    Realises (BufferRead.counter : BufferRead (Counter tag)) id Read.counter :=
  ⟨.counter, u64_realises.stuck.bind _, u64_realises.readStuck.bind _⟩

theorem takeRegion_realises (count : UInt64) :
    Realises (BufferRead.takeRegion count) BufferReader.view (Read.takeRegion count.toNat) :=
  ⟨.takeRegion count, (need_stuck count).bind _, (bytes_stuck count.toNat).bind _⟩

/-- Every operation has its reading. -/
theorem realised (op : ReadOperation) :
    ∃ (α β : Type) (m : BufferRead α) (value : α → β) (n : Read β),
      Realises m value n ∧ op.call = outcome m ∧ op.read = readOutcome n := by
  cases op with
  | u8 => exact ⟨_, _, _, _, _, u8_realises, rfl, rfl⟩
  | u16 => exact ⟨_, _, _, _, _, u16_realises, rfl, rfl⟩
  | u32 => exact ⟨_, _, _, _, _, u32_realises, rfl, rfl⟩
  | u64 => exact ⟨_, _, _, _, _, u64_realises, rfl, rfl⟩
  | boolean => exact ⟨_, _, _, _, _, boolean_realises, rfl, rfl⟩
  | text => exact ⟨_, _, _, _, _, text_realises, rfl, rfl⟩
  | digest => exact ⟨_, _, _, _, _, digest_realises, rfl, rfl⟩
  | boundedText maxBytes => exact ⟨_, _, _, _, _, boundedText_realises maxBytes, rfl, rfl⟩
  | bytes count => exact ⟨_, _, _, _, _, bytes_realises count, rfl, rfl⟩
  | textId tag => exact ⟨_, _, _, _, _, textId_realises, rfl, rfl⟩
  | binaryId tag => exact ⟨_, _, _, _, _, binaryId_realises, rfl, rfl⟩
  | counter tag => exact ⟨_, _, _, _, _, counter_realises, rfl, rfl⟩
  | takeRegion count => exact ⟨_, _, _, _, _, takeRegion_realises count, rfl, rfl⟩

/-- What a call does to a sound reader, in terms of the bytes that remain. -/
structure CallRefines (r : BufferReader) (called : Bool × BufferReader)
    (reading : Bool × CanonicalReader) : Prop where
  sound : called.2.Sound
  data : called.2.data = r.data
  size : called.2.size = r.size
  reading : reading = (called.1, called.2.view)

/-- A reader that has failed returns false from every operation, and stays as it is. -/
theorem call_failed (op : ReadOperation) {r : BufferReader} (hr : r.failed = true) :
    op.call r = (false, r) := by
  obtain ⟨α, β, m, value, n, h, hcall, -⟩ := op.realised
  rw [hcall, outcome, h.stuck r hr]
  rfl

/-- **Every operation keeps to the buffer**, and is the reading on the bytes that remain. -/
theorem call_refines (op : ReadOperation) {r : BufferReader} (hr : r.Sound) :
    CallRefines r (op.call r) (op.read r.view) := by
  obtain ⟨α, β, m, value, n, h, hcall, hread⟩ := op.realised
  rw [hcall, hread]
  rcases hfailed : r.failed with _ | _
  · refine ⟨h.refines.sound r hr hfailed, h.refines.data r, h.refines.size r, ?_⟩
    rw [readOutcome, outcome, h.refines.reading r hr hfailed]
    dsimp only
    rw [Option.isSome_map]
  · rw [outcome, readOutcome, h.stuck r hfailed, h.readStuck r.view hfailed]
    exact ⟨hr, rfl, rfl, rfl⟩

/-! ### A reading that fails -/

section Flagged

variable {α β : Type}

/-- The reading sets the flag exactly when it fails. -/
def Flagged (n : Read α) : Prop :=
  ∀ c : CanonicalReader, c.failed = false → (n c).2.failed = (n c).1.isNone

theorem Flagged.bind {n : Read α} {g : α → Read β} (h : Flagged n)
    (hg : ∀ v, (∃ c, (n c).1 = some v) → Flagged (g v)) : Flagged (n >>= g) := by
  intro c hc
  have hfirst := h c hc
  simp only [Bind.bind]
  rcases hn : n c with ⟨_ | v, c'⟩
  · rwa [hn] at hfirst
  · rw [hn] at hfirst
    exact hg v ⟨c, by rw [hn]⟩ c' hfirst

theorem flagged_pure (v : α) : Flagged (pure v : Read α) := fun _ hc => hc

theorem flagged_fail : Flagged (Read.fail : Read α) := fun _ _ => rfl

theorem flagged_bytes (count : Nat) : Flagged (Read.bytes count) := by
  intro c hc
  rw [BufferRead.Refines.bytes_live count c hc]
  split
  · rfl
  · exact hc

theorem flagged_u8 : Flagged Read.u8 := (flagged_bytes 1).bind fun _ _ => flagged_pure _

theorem flagged_u16 : Flagged Read.u16 :=
  flagged_u8.bind fun _ _ => flagged_u8.bind fun _ _ => flagged_pure _

theorem flagged_u32 : Flagged Read.u32 :=
  flagged_u16.bind fun _ _ => flagged_u16.bind fun _ _ => flagged_pure _

theorem flagged_u64 : Flagged Read.u64 :=
  flagged_u32.bind fun _ _ => flagged_u32.bind fun _ _ => flagged_pure _

theorem Flagged.ite {c : Prop} [Decidable c] {m n : Read α} (hm : Flagged m) (hn : Flagged n) :
    Flagged (if c then m else n) := by
  split
  · exact hm
  · exact hn

theorem flagged_boundedText (maxBytes : Nat) : Flagged (Read.boundedText maxBytes) :=
  flagged_u32.bind fun length _ => .ite flagged_fail (flagged_bytes length.toNat)

theorem flagged_boolean : Flagged Read.boolean :=
  flagged_u8.bind fun _ _ => .ite flagged_fail (flagged_pure _)

theorem flagged_text : Flagged Read.text :=
  flagged_u32.bind fun length _ => flagged_bytes length.toNat

theorem flagged_counter {tag : CounterTag} : Flagged (Read.counter : Read (Counter tag)) :=
  flagged_u64.bind fun _ _ => flagged_pure _

theorem flagged_takeRegion (count : Nat) : Flagged (Read.takeRegion count) :=
  (flagged_bytes count).bind fun _ _ => flagged_pure _

theorem length_of_bytes {count : Nat} {bs : Bytes} {c : CanonicalReader}
    (h : (Read.bytes count c).1 = some bs) : bs.length = count := by
  rw [Read.bytes] at h
  split at h
  · cases h
  · split at h
    · cases h
    · rename_i hroom
      cases h
      exact List.length_take_of_le (Nat.le_of_not_lt hroom)

/-- Bytes of a fixed number that are taken as they are. -/
theorem flagged_fixed {count : Nat} {f : (raw : Bytes) → raw.length = count → α} :
    Flagged (do
      let raw ← Read.bytes count
      if h : raw.length = count then return f raw h else Read.refuse) := by
  refine (flagged_bytes count).bind fun raw hraw => ?_
  obtain ⟨c, hc⟩ := hraw
  rw [dif_pos (length_of_bytes hc)]
  exact flagged_pure _

end Flagged

end ReadOperation

/-- **The cursor stands before a malformed identifier**: a text of an admissible length, not empty,
that is no identifier. -/
def CanonicalReader.Malformed (c : CanonicalReader) (tag : IdTag) : Prop :=
  c.failed = false ∧ ∃ t after, c.rest = Write.text t ++ after ∧ t.length ≤ tag.maxLength ∧ t ≠ [] ∧
    isValidId tag.maxLength t = false

namespace ReadOperation

/-- `text_id` before a malformed identifier returns false and leaves the flag alone. -/
theorem textId_malformed {tag : IdTag} {c : CanonicalReader} (h : c.Malformed tag) :
    ((Read.textId : Read (TextId tag)) c).1 = none ∧
      ((Read.textId : Read (TextId tag)) c).2.failed = false := by
  obtain ⟨hlive, t, after, hrest, hlength, hne, hinvalid⟩ := h
  obtain ⟨rest, offset, failed⟩ := c
  dsimp only at hlive hrest
  subst hlive
  subst hrest
  have hfits : Fits tag.maxLength t.length := ⟨hlength, Nat.lt_of_le_of_lt hlength tag.maxLength_lt⟩
  rw [Read.textId, read_bind, (codec_boundedText tag.maxLength).reads t hfits after offset]
  dsimp only
  rw [if_neg (by simpa using hne), TextId.parse, dif_neg (by simp [hinvalid])]
  exact ⟨rfl, rfl⟩

/-- Otherwise it sets the flag exactly when it fails. -/
theorem textId_flagged {tag : IdTag} {c : CanonicalReader} (hc : c.failed = false)
    (h : ¬ c.Malformed tag) : ((Read.textId : Read (TextId tag)) c).2.failed
      = ((Read.textId : Read (TextId tag)) c).1.isNone := by
  obtain ⟨rest, offset, failed⟩ := c
  dsimp only at hc
  subst hc
  have hbounded := flagged_boundedText tag.maxLength ⟨rest, offset, false⟩ rfl
  rw [Read.textId, read_bind]
  rcases hrun : Read.boundedText tag.maxLength ⟨rest, offset, false⟩ with ⟨_ | raw, c'⟩
  · rwa [hrun] at hbounded
  · rw [hrun] at hbounded
    dsimp only
    by_cases hempty : raw.isEmpty = true
    · rw [if_pos hempty]
      exact hbounded
    · rw [if_neg hempty]
      obtain ⟨hfits, after, hrest⟩ := (codec_boundedText tag.maxLength).exact hrun
      rcases hvalid : isValidId tag.maxLength raw with _ | _
      · exact absurd ⟨rfl, raw, after, hrest, hfits.1, by simpa using hempty, hvalid⟩ h
      · rw [TextId.parse, dif_pos hvalid]
        exact hbounded

/-- **A reading sets the flag exactly when it fails**, but for the one of a malformed identifier. -/
theorem read_flagged {op : ReadOperation} {c : CanonicalReader} (hc : c.failed = false)
    (h : ∀ tag, op = textId tag → ¬ c.Malformed tag) :
    (op.read c).2.failed = !(op.read c).1 := by
  have hread : ∀ {α : Type} {n : Read α}, (n c).2.failed = (n c).1.isNone →
      (readOutcome n c).2.failed = !(readOutcome n c).1 := by
    intro α n hn
    rw [readOutcome]
    dsimp only
    rw [hn, Option.not_isSome]
  cases op with
  | u8 => exact hread (flagged_u8 c hc)
  | u16 => exact hread (flagged_u16 c hc)
  | u32 => exact hread (flagged_u32 c hc)
  | u64 => exact hread (flagged_u64 c hc)
  | boolean => exact hread (flagged_boolean c hc)
  | text => exact hread (flagged_text c hc)
  | digest => exact hread (flagged_fixed c hc)
  | boundedText maxBytes => exact hread (flagged_boundedText maxBytes c hc)
  | bytes count => exact hread (flagged_bytes count.toNat c hc)
  | textId tag => exact hread (textId_flagged hc (h tag rfl))
  | binaryId tag => exact hread (flagged_fixed c hc)
  | counter tag => exact hread (flagged_counter c hc)
  | takeRegion count => exact hread (flagged_takeRegion count.toNat c hc)

end ReadOperation

/-! ## Totality and stickiness -/

namespace BufferReader

open ReadOperation

/-- The reader that some operations leave. -/
def after (r : BufferReader) (ops : List ReadOperation) : BufferReader :=
  ops.foldl (fun r op => (op.call r).2) r

theorem after_append (r : BufferReader) (ops later : List ReadOperation) :
    r.after (ops ++ later) = (r.after ops).after later :=
  List.foldl_append

/-- Operations keep to the buffer. -/
theorem Sound.after {r : BufferReader} (h : r.Sound) (ops : List ReadOperation) :
    (r.after ops).Sound ∧ (r.after ops).size = r.size := by
  induction ops generalizing r with
  | nil => exact ⟨h, rfl⟩
  | cons op rest ih =>
    have hcall := op.call_refines h
    obtain ⟨hsound, hsize⟩ := ih hcall.sound
    exact ⟨hsound, hsize.trans hcall.size⟩

/-- A reader that has failed stays as it is. -/
theorem after_failed {r : BufferReader} (h : r.failed = true) (ops : List ReadOperation) :
    r.after ops = r := by
  induction ops with
  | nil => rfl
  | cons op rest ih =>
    rw [after, List.foldl_cons, op.call_failed h]
    exact ih

/-- The reader of a buffer keeps to it in some operations, and once one of them returns false,
whatever follows returns false and the reader is not exhausted. -/
structure TotalAndSticky (r : BufferReader) (ops : List ReadOperation) : Prop where
  offset : ∀ before later, ops = before ++ later → (r.after before).offset ≤ r.size
  touched : ∀ before later, ops = before ++ later →
    ∀ i ∈ (r.after before).touched, i < r.size.toNat
  sticky : ∀ before op rest, ops = before ++ op :: rest → (op.call (r.after before)).1 = false →
    ∀ later, (r.after (before ++ op :: later)).exhausted = false ∧
      ∀ op' : ReadOperation, (op'.call (r.after (before ++ op :: later))).1 = false

/-- A failed call leaves the flag, but for the one of a malformed identifier. -/
theorem failed_of_call {r : BufferReader} (h : r.Sound) {op : ReadOperation}
    (hop : ∀ tag, op = .textId tag → ¬ r.view.Malformed tag) (hcall : (op.call r).1 = false) :
    (op.call r).2.failed = true := by
  rcases hfailed : r.failed with _ | _
  · have hread := (op.call_refines h).reading
    have hflag := @read_flagged op r.view hfailed hop
    rw [hread] at hflag
    dsimp only at hflag
    rw [hcall] at hflag
    exact hflag
  · rw [op.call_failed hfailed]
    exact hfailed

/-- A live reader reads no bytes with success. -/
theorem call_no_bytes {r : BufferReader} (h : r.failed = false) :
    ((ReadOperation.bytes 0).call r).1 = true := by
  have hroom : ¬ (0 : UInt64) > r.size - r.offset := UInt64.not_lt.mpr UInt64.zero_le
  rw [ReadOperation.call, outcome, BufferRead.bytes, BufferRead.take, BufferRead.Refines.need_run,
    if_neg (by rw [h]; exact Bool.false_ne_true), if_neg hroom]
  rfl

/-- **The reader is total, and its failures are sticky** exactly when no `text_id` comes before a
malformed identifier. -/
theorem sticky_iff (data : Nat → UInt8) (size : UInt64) (ops : List ReadOperation) :
    TotalAndSticky { data := data, size := size } ops ↔
      ∀ before tag rest, ops = before ++ .textId tag :: rest →
        ¬ (({ data := data, size := size } : BufferReader).after before).view.Malformed tag := by
  have hstart : ({ data := data, size := size } : BufferReader).Sound :=
    ⟨UInt64.zero_le, List.forall_mem_nil _⟩
  generalize ({ data := data, size := size } : BufferReader) = r at hstart
  refine ⟨fun h before tag rest hops hmalformed => ?_, fun h => ⟨fun before later _ => ?_,
    fun before later _ => ?_, fun before op rest hops hcall later => ?_⟩⟩
  · -- the failed call has left the reader live, and it still reads no bytes
    have hsound := (hstart.after before).1
    obtain ⟨hnone, hlive⟩ := textId_malformed hmalformed
    have hread := ((textId tag).call_refines hsound).reading
    have hcall : ((textId tag).call (r.after before)).1 = false := by
      have hfirst := congrArg Prod.fst hread
      rw [← hfirst]
      exact congrArg Option.isSome hnone
    have hflag : ((textId tag).call (r.after before)).2.failed = false :=
      (congrArg (fun out => out.2.failed) hread).symm.trans hlive
    have hnext := ((h.sticky before (textId tag) rest hops hcall) []).2 (.bytes 0)
    rw [after_append] at hnext
    exact absurd (hnext.symm.trans (call_no_bytes hflag)) Bool.false_ne_true
  · obtain ⟨hsound, hsize⟩ := hstart.after before
    exact hsize ▸ hsound.offset
  · obtain ⟨hsound, hsize⟩ := hstart.after before
    exact hsize ▸ hsound.touched
  · have hfailed := failed_of_call (hstart.after before).1
      (fun tag htag => h before tag rest (htag ▸ hops)) hcall
    rw [after_append, after, List.foldl_cons]
    change (after _ later).exhausted = false ∧
      ∀ op' : ReadOperation, (op'.call (after _ later)).1 = false
    rw [after_failed hfailed]
    refine ⟨?_, fun op' => congrArg Prod.fst (op'.call_failed hfailed)⟩
    rw [exhausted, hfailed, Bool.not_true, Bool.and_false]

/-- A buffer of some bytes. -/
def ofBytes (bytes : Bytes) : BufferReader :=
  { data := fun i => bytes.getD i 0, size := UInt64.ofNat bytes.length }

/-- The text `!` is no identifier: `text_id` returns false, the next byte is read, and the reader is
exhausted. -/
theorem malformed_not_sticky :
    ¬ TotalAndSticky (ofBytes [0, 0, 0, 1, 33, 7]) [.textId .component, .u8] := by
  intro h
  have hrun : ((textId .component).call (ofBytes [0, 0, 0, 1, 33, 7])).1 = false ∧
      (ReadOperation.u8.call
        ((ofBytes [0, 0, 0, 1, 33, 7]).after [.textId .component])).1 = true := by
    decide
  have hnext := (h.sticky [] (.textId .component) [.u8] rfl hrun.1 []).2 .u8
  exact absurd (hnext.symm.trans hrun.2) Bool.false_ne_true

end BufferReader

end FabricPartition
