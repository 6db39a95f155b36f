import FabricPartition.Identity

/-!
# Digests

The two integrity primitives of `digest.cpp`: the streaming SHA-256 every identity is derived
with, and the CRC-64/XZ every durable record carries.  Both are embedded as the source computes
them — a hasher with its eight state words and its partially filled block, a checksum folded byte
by byte — over natural numbers reduced modulo `2 ^ 32`, which the kernel can evaluate.

Only `Hashing` and `Corruption` unfold them, to say what they compute and detect: everywhere else the
identities of `Lineage` and `Partition` are functions of the byte stream they feed to the hasher, and
the two places where digests must not collide say so in their statement.
-/

set_option autoImplicit false

namespace FabricPartition

/-- A 32-byte digest. -/
structure Digest where
  /-- The bytes. -/
  bytes : Bytes
  /-- There are thirty-two of them. -/
  size : bytes.length = 32
  deriving DecidableEq

instance : Inhabited Digest := ⟨⟨List.replicate 32 0, rfl⟩⟩

/-- The domains of the digests. -/
inductive DigestTag
  | membership | evidenceSet | lineage
  deriving DecidableEq

/-- A digest that remembers its domain. -/
structure TypedDigest (tag : DigestTag) where
  /-- The digest. -/
  value : Digest
  deriving DecidableEq, Inhabited

abbrev MembershipDigest := TypedDigest .membership
abbrev EvidenceSetDigest := TypedDigest .evidenceSet
abbrev LineageDigest := TypedDigest .lineage

/-! ## Big-endian integers -/

/-- The two bytes of a 16-bit integer. -/
def be16 (v : UInt16) : Bytes := [UInt8.ofNat (v.toNat / 256), UInt8.ofNat v.toNat]

/-- The four bytes of a 32-bit integer. -/
def be32 (v : UInt32) : Bytes :=
  [UInt8.ofNat (v.toNat / 16777216), UInt8.ofNat (v.toNat / 65536), UInt8.ofNat (v.toNat / 256),
    UInt8.ofNat v.toNat]

/-- The eight bytes of a 64-bit integer, the high half first. -/
def be64 (v : UInt64) : Bytes :=
  be32 (UInt32.ofNat (v.toNat / 4294967296)) ++ be32 (UInt32.ofNat v.toNat)

/-! ## SHA-256 -/

namespace Sha256

/-- The eight state words, each below `2 ^ 32`. -/
structure Words where
  a : Nat
  b : Nat
  c : Nat
  d : Nat
  e : Nat
  f : Nat
  g : Nat
  h : Nat
  deriving DecidableEq

/-- `kRoundConstants`. -/
def roundConstants : List Nat :=
  [0x428a2f98, 0x71374491, 0xb5c0fbcf, 0xe9b5dba5, 0x3956c25b, 0x59f111f1, 0x923f82a4,
    0xab1c5ed5, 0xd807aa98, 0x12835b01, 0x243185be, 0x550c7dc3, 0x72be5d74, 0x80deb1fe,
    0x9bdc06a7, 0xc19bf174, 0xe49b69c1, 0xefbe4786, 0x0fc19dc6, 0x240ca1cc, 0x2de92c6f,
    0x4a7484aa, 0x5cb0a9dc, 0x76f988da, 0x983e5152, 0xa831c66d, 0xb00327c8, 0xbf597fc7,
    0xc6e00bf3, 0xd5a79147, 0x06ca6351, 0x14292967, 0x27b70a85, 0x2e1b2138, 0x4d2c6dfc,
    0x53380d13, 0x650a7354, 0x766a0abb, 0x81c2c92e, 0x92722c85, 0xa2bfe8a1, 0xa81a664b,
    0xc24b8b70, 0xc76c51a3, 0xd192e819, 0xd6990624, 0xf40e3585, 0x106aa070, 0x19a4c116,
    0x1e376c08, 0x2748774c, 0x34b0bcb5, 0x391c0cb3, 0x4ed8aa4a, 0x5b9cca4f, 0x682e6ff3,
    0x748f82ee, 0x78a5636f, 0x84c87814, 0x8cc70208, 0x90befffa, 0xa4506ceb, 0xbef9a3f7,
    0xc67178f2]

/-- `kInitialState`. -/
def initialState : Words :=
  ⟨0x6a09e667, 0xbb67ae85, 0x3c6ef372, 0xa54ff53a, 0x510e527f, 0x9b05688c, 0x1f83d9ab, 0x5be0cd19⟩

/-- `rotate_right` on a 32-bit word. -/
def rotateRight (value bits : Nat) : Nat :=
  (value >>> bits) ||| ((value <<< (32 - bits)) % 4294967296)

/-- The sixteen words of a block. -/
def blockWords : Bytes → List Nat
  | b0 :: b1 :: b2 :: b3 :: rest =>
    (b0.toNat * 16777216 + b1.toNat * 65536 + b2.toNat * 256 + b3.toNat) :: blockWords rest
  | _ => []

/-- The message schedule, newest word first: each new word depends on the words sixteen, fifteen,
seven and two places back. -/
def extendSchedule : Nat → List Nat → List Nat
  | 0, w => w
  | n + 1, w =>
    let s0 := rotateRight (w.getD 14 0) 7 ^^^ rotateRight (w.getD 14 0) 18 ^^^ (w.getD 14 0 >>> 3)
    let s1 := rotateRight (w.getD 1 0) 17 ^^^ rotateRight (w.getD 1 0) 19 ^^^ (w.getD 1 0 >>> 10)
    extendSchedule n (((w.getD 15 0 + s0 + w.getD 6 0 + s1) % 4294967296) :: w)

/-- One of the sixty-four rounds. -/
def round (s : Words) (k w : Nat) : Words :=
  let s1 := rotateRight s.e 6 ^^^ rotateRight s.e 11 ^^^ rotateRight s.e 25
  let choice := (s.e &&& s.f) ^^^ ((4294967295 - s.e) &&& s.g)
  let temp1 := (s.h + s1 + choice + k + w) % 4294967296
  let s0 := rotateRight s.a 2 ^^^ rotateRight s.a 13 ^^^ rotateRight s.a 22
  let majority := (s.a &&& s.b) ^^^ (s.a &&& s.c) ^^^ (s.b &&& s.c)
  let temp2 := (s0 + majority) % 4294967296
  ⟨(temp1 + temp2) % 4294967296, s.a, s.b, s.c, (s.d + temp1) % 4294967296, s.e, s.f, s.g⟩

/-- All the rounds, a constant and a schedule word at a time. -/
def rounds : Words → List Nat → List Nat → Words
  | s, k :: ks, w :: ws => rounds (round s k w) ks ws
  | s, _, _ => s

/-- `Sha256::compress`. -/
def compress (s : Words) (block : Bytes) : Words :=
  let r := rounds s roundConstants (extendSchedule 48 (blockWords block).reverse).reverse
  ⟨(s.a + r.a) % 4294967296, (s.b + r.b) % 4294967296, (s.c + r.c) % 4294967296,
    (s.d + r.d) % 4294967296, (s.e + r.e) % 4294967296, (s.f + r.f) % 4294967296,
    (s.g + r.g) % 4294967296, (s.h + r.h) % 4294967296⟩

end Sha256

/-- The streaming hasher: the state words, the used part of the block buffer, the number of bytes
seen and whether `finish` has run. -/
structure Sha256 where
  state : Sha256.Words := Sha256.initialState
  buffer : Bytes := []
  totalBytes : UInt64 := 0
  finalized : Bool := false
  deriving DecidableEq

namespace Sha256

/-- The `while (size - offset >= 64)` loop of `update`, which leaves less than a block. -/
def absorb : Nat → Words → Bytes → Words × Bytes
  | 0, s, data => (s, data)
  | n + 1, s, data =>
    if data.length < 64 then (s, data) else absorb n (compress s (data.take 64)) (data.drop 64)

/-- `Sha256::update`. -/
def update (hasher : Sha256) (data : Bytes) : Sha256 :=
  if hasher.finalized || data.isEmpty then hasher
  else
    let total := hasher.totalBytes + UInt64.ofNat data.length
    if hasher.buffer.isEmpty then
      let (s, rest) := absorb (data.length / 64) hasher.state data
      { hasher with state := s, buffer := rest, totalBytes := total }
    else
      let take := min data.length (64 - hasher.buffer.length)
      let filled := hasher.buffer ++ data.take take
      let rest := data.drop take
      if filled.length = 64 then
        let (s, rest) := absorb (rest.length / 64) (compress hasher.state filled) rest
        { hasher with state := s, buffer := rest, totalBytes := total }
      else { hasher with buffer := filled, totalBytes := total }

/-- `update_u8`. -/
def updateU8 (hasher : Sha256) (v : UInt8) : Sha256 := hasher.update [v]

/-- `update_be64`. -/
def updateBe64 (hasher : Sha256) (v : UInt64) : Sha256 := hasher.update (be64 v)

/-- `update_text`: the length as 32 bits, then the bytes. -/
def updateText (hasher : Sha256) (t : Text) : Sha256 :=
  (hasher.update (be32 (UInt32.ofNat t.length))).update t

/-- The padding loop of `finish`: zero bytes until the block holds fifty-six. -/
def padZeros : Nat → Sha256 → Sha256
  | 0, hasher => hasher
  | n + 1, hasher => if hasher.buffer.length = 56 then hasher else padZeros n (hasher.update [0])

/-- The 32 bytes of the state words. -/
def Words.digest (s : Words) : Digest where
  bytes := be32 (UInt32.ofNat s.a) ++ be32 (UInt32.ofNat s.b) ++ be32 (UInt32.ofNat s.c)
    ++ be32 (UInt32.ofNat s.d) ++ be32 (UInt32.ofNat s.e) ++ be32 (UInt32.ofNat s.f)
    ++ be32 (UInt32.ofNat s.g) ++ be32 (UInt32.ofNat s.h)
  size := rfl

/-- `Sha256::finish`, as far as its value goes: the marker, the zeros, the length in bits. -/
def finish (hasher : Sha256) : Digest :=
  if hasher.finalized then hasher.state.digest
  else
    let bitLength := hasher.totalBytes * 8
    (((hasher.update [0x80]).padZeros 64).update (be64 bitLength)).state.digest

end Sha256

/-! ## CRC-64/XZ -/

/-- `crc64_initial`. -/
def crc64Initial : Nat := 0xFFFFFFFFFFFFFFFF

/-- One bit of a table entry: shift right and fold in the reflected polynomial. -/
def crc64Bit (value : Nat) : Nat :=
  if value % 2 = 1 then (value >>> 1) ^^^ 0xC96C5795D7870F42 else value >>> 1

/-- An entry of `Crc64Table`. -/
def crc64Entry (index : Nat) : Nat :=
  crc64Bit (crc64Bit (crc64Bit (crc64Bit (crc64Bit (crc64Bit (crc64Bit (crc64Bit index)))))))

/-- `Crc64::update`, from a running value. -/
def crc64Update (value : Nat) (data : Bytes) : Nat :=
  data.foldl (fun v b => crc64Entry ((v ^^^ b.toNat) % 256) ^^^ (v >>> 8)) value

/-- `crc64_bytes`. -/
def crc64Bytes (data : Bytes) : UInt64 :=
  UInt64.ofNat (crc64Update crc64Initial data ^^^ 0xFFFFFFFFFFFFFFFF)

theorem crc64Update_append (value : Nat) (a b : Bytes) :
    crc64Update value (a ++ b) = crc64Update (crc64Update value a) b := by
  simp only [crc64Update, List.foldl_append]

example : crc64Bytes (ascii "123456789") = 0x995DC9BBDF1939FA := by decide +kernel

end FabricPartition
