import Mathlib.Data.Nat.Find
import Mathlib.Data.List.Induction
import Mathlib.Tactic.Ring
import Mathlib.Algebra.Order.BigOperators.Ring.Finset

/-!
# The secure hash standard, for 32-bit words

SHA-256 as the standard defines it, on bit strings: the padding of a message, its parsing into blocks
and words, the message schedule, the rounds and the digest.  Words are bit vectors, and the constants
are the fractional parts of roots of primes, which is what the tables of the standard list.

Bytes come in through `bitsOf`.  The lemmas carry positions of a bit string over to positions of the
byte string (`piece_bitsOf`), and numbers over from bits to bytes (`number_bitsOf`, `bitsBE_add`).
-/

set_option autoImplicit false

namespace SecureHash

/-! ## Bits -/

/-- The last bits of a number, the most significant one first. -/
def bitsBE : Nat → Nat → List Bool
  | 0, _ => []
  | n + 1, x => bitsBE n (x / 2) ++ [x % 2 == 1]

/-- The number that bits stand for, the most significant one first. -/
def number (bits : List Bool) : Nat := bits.foldl (fun n b => 2 * n + b.toNat) 0

/-- The bits of a byte string. -/
def bitsOf (bytes : List UInt8) : List Bool := bytes.flatMap fun b => bitsBE 8 b.toNat

/-- The piece at a position, of pieces of one length. -/
def piece {α : Type} (size i : Nat) (items : List α) : List α := (items.drop (size * i)).take size

/-! ## Functions and constants -/

/-- The words. -/
abbrev Word := BitVec 32

/-- `ROTR`. -/
def rotr (n : Nat) (x : Word) : Word := (x >>> n) ||| (x <<< (32 - n))

/-- `Ch`. -/
def ch (x y z : Word) : Word := (x &&& y) ^^^ (~~~x &&& z)

/-- `Maj`. -/
def maj (x y z : Word) : Word := (x &&& y) ^^^ (x &&& z) ^^^ (y &&& z)

/-- `Σ₀`. -/
def bigSigma0 (x : Word) : Word := rotr 2 x ^^^ rotr 13 x ^^^ rotr 22 x

/-- `Σ₁`. -/
def bigSigma1 (x : Word) : Word := rotr 6 x ^^^ rotr 11 x ^^^ rotr 25 x

/-- `σ₀`. -/
def smallSigma0 (x : Word) : Word := rotr 7 x ^^^ rotr 18 x ^^^ (x >>> 3)

/-- `σ₁`. -/
def smallSigma1 (x : Word) : Word := rotr 17 x ^^^ rotr 19 x ^^^ (x >>> 10)

/-- The first sixty-four primes. -/
def primes : List Nat :=
  [2, 3, 5, 7, 11, 13, 17, 19, 23, 29, 31, 37, 41, 43, 47, 53, 59, 61, 67, 71, 73, 79, 83, 89, 97,
    101, 103, 107, 109, 113, 127, 131, 137, 139, 149, 151, 157, 163, 167, 173, 179, 181, 191, 193,
    197, 199, 211, 223, 227, 229, 233, 239, 241, 251, 257, 263, 269, 271, 277, 281, 283, 293, 307,
    311]

/-- The largest number that agrees with `r` above some bits and whose `k`-th power is at most `n`. -/
def floorRoot (k n : Nat) : Nat → Nat → Nat
  | 0, r => r
  | bits + 1, r => floorRoot k n bits (if (r + 2 ^ bits) ^ k ≤ n then r + 2 ^ bits else r)

/-- The first thirty-two bits of the fractional part of the `k`-th root of a prime. -/
def rootFraction (k i : Nat) : Word :=
  BitVec.ofNat 32 (floorRoot k (primes.getD i 0 * 2 ^ (32 * k)) 40 0)

/-- `K_t`: cube roots. -/
def constant (t : Nat) : Word := rootFraction 3 t

/-- The hash value, or the working variables. -/
structure Hash where
  a : Word
  b : Word
  c : Word
  d : Word
  e : Word
  f : Word
  g : Word
  h : Word
  deriving DecidableEq

/-- `H⁽⁰⁾`: square roots. -/
def initial : Hash :=
  ⟨rootFraction 2 0, rootFraction 2 1, rootFraction 2 2, rootFraction 2 3, rootFraction 2 4,
    rootFraction 2 5, rootFraction 2 6, rootFraction 2 7⟩

/-! ## Padding -/

theorem exists_zeros (l : Nat) : ∃ k, (l + 1 + k) % 512 = 448 :=
  ⟨(959 - l % 512) % 512, by omega⟩

/-- The smallest number of zero bits that leaves room for the length, and no more, in the last block. -/
def zeros (l : Nat) : Nat := Nat.find (exists_zeros l)

/-- The padded message. -/
def pad (message : List Bool) : List Bool :=
  message ++ true :: (List.replicate (zeros message.length) false ++ bitsBE 64 message.length)

/-! ## Hashing -/

/-- The message schedule of a block. -/
def schedule (block : List Bool) (t : Nat) : Word :=
  if t < 16 then BitVec.ofNat 32 (number (piece 32 t block))
  else
    smallSigma1 (schedule block (t - 2)) + schedule block (t - 7)
      + smallSigma0 (schedule block (t - 15)) + schedule block (t - 16)
termination_by t
decreasing_by all_goals omega

/-- A round, with its constant and its word of the schedule. -/
def round (s : Hash) (k w : Word) : Hash :=
  let t1 := s.h + bigSigma1 s.e + ch s.e s.f s.g + k + w
  let t2 := bigSigma0 s.a + maj s.a s.b s.c
  ⟨t1 + t2, s.a, s.b, s.c, s.d + t1, s.e, s.f, s.g⟩

/-- A round of a block. -/
def step (block : List Bool) (s : Hash) (t : Nat) : Hash :=
  round s (constant t) (schedule block t)

/-- The sums of the words. -/
def Hash.add (r s : Hash) : Hash :=
  ⟨r.a + s.a, r.b + s.b, r.c + s.c, r.d + s.d, r.e + s.e, r.f + s.f, r.g + s.g, r.h + s.h⟩

/-- The next hash value. -/
def compress (s : Hash) (block : List Bool) : Hash := ((List.range 64).foldl (step block) s).add s

/-- The bits of a hash value. -/
def Hash.bits (s : Hash) : List Bool :=
  [s.a, s.b, s.c, s.d, s.e, s.f, s.g, s.h].flatMap fun x => bitsBE 32 x.toNat

/-- The hash value of a message that is parsed into blocks. -/
def hashBlocks (padded : List Bool) : Hash :=
  (List.range (padded.length / 512)).foldl (fun s i => compress s (piece 512 i padded)) initial

/-- **SHA-256.** -/
def digest (message : List Bool) : List Bool := (hashBlocks (pad message)).bits

/-! ## Bits and bytes -/

theorem length_bitsBE (n x : Nat) : (bitsBE n x).length = n := by
  induction n generalizing x with
  | zero => rfl
  | succ n ih => rw [bitsBE, List.length_append, ih, List.length_singleton]

/-- The bits of a number, in two parts. -/
theorem bitsBE_add (m n x : Nat) : bitsBE (m + n) x = bitsBE m (x / 2 ^ n) ++ bitsBE n x := by
  induction n generalizing x with
  | zero => rw [Nat.pow_zero, Nat.div_one, bitsBE, List.append_nil]; rfl
  | succ n ih =>
    rw [← Nat.add_assoc, bitsBE, ih, bitsBE, Nat.div_div_eq_div_mul, ← Nat.pow_succ',
      List.append_assoc]

/-- Only the last bits of the number matter. -/
theorem bitsBE_mod (n x : Nat) : bitsBE n (x % 2 ^ n) = bitsBE n x := by
  induction n generalizing x with
  | zero => rfl
  | succ n ih =>
    have hhalf : x % 2 ^ (n + 1) / 2 = x / 2 % 2 ^ n := by
      rw [Nat.pow_succ', Nat.mod_mul_right_div_self]
    have hbit : x % 2 ^ (n + 1) % 2 = x % 2 :=
      Nat.mod_mod_of_dvd x (Dvd.intro_left (2 ^ n) (Nat.pow_succ 2 n).symm)
    rw [bitsBE, bitsBE, hhalf, hbit, ih]

theorem bitsBE_zero (n : Nat) : bitsBE n 0 = List.replicate n false := by
  induction n with
  | zero => rfl
  | succ n ih =>
    rw [bitsBE, Nat.zero_div, ih, List.replicate_succ']
    rfl

theorem foldl_number (bits : List Bool) (n : Nat) :
    bits.foldl (fun n b => 2 * n + b.toNat) n = n * 2 ^ bits.length + number bits := by
  induction bits generalizing n with
  | nil => simp [number]
  | cons b bits ih =>
    rw [number, List.foldl_cons, List.foldl_cons, ih, ih (2 * 0 + b.toNat), List.length_cons,
      Nat.pow_succ]
    ring

theorem number_append (a b : List Bool) :
    number (a ++ b) = number a * 2 ^ b.length + number b := by
  rw [number, List.foldl_append, foldl_number]
  rfl

theorem number_bitsBE (n x : Nat) : number (bitsBE n x) = x % 2 ^ n := by
  induction n generalizing x with
  | zero => rw [Nat.pow_zero, Nat.mod_one]; rfl
  | succ n ih =>
    have hlast : number [x % 2 == 1] = x % 2 := by
      rcases Nat.mod_two_eq_zero_or_one x with h | h <;> rw [h] <;> rfl
    rw [bitsBE, number_append, ih, hlast, List.length_singleton, Nat.pow_one, Nat.pow_succ',
      Nat.mod_mul]
    ring

theorem number_lt (bits : List Bool) : number bits < 2 ^ bits.length := by
  induction bits using List.reverseRecOn with
  | nil => exact Nat.one_pos
  | append_singleton bits b ih =>
    have hb : number [b] < 2 := by cases b <;> decide
    rw [number_append, List.length_append, List.length_singleton, Nat.pow_succ]
    omega

@[simp]
theorem bitsOf_append (a b : List UInt8) : bitsOf (a ++ b) = bitsOf a ++ bitsOf b :=
  List.flatMap_append

theorem bitsOf_nil : bitsOf [] = [] := rfl

theorem bitsOf_cons (b : UInt8) (bytes : List UInt8) :
    bitsOf (b :: bytes) = bitsBE 8 b.toNat ++ bitsOf bytes := rfl

@[simp]
theorem length_bitsOf (bytes : List UInt8) : (bitsOf bytes).length = 8 * bytes.length := by
  induction bytes with
  | nil => rfl
  | cons b bytes ih =>
    rw [bitsOf_cons, List.length_append, ih, length_bitsBE, List.length_cons]
    ring

theorem length_bitsOf_take {n : Nat} {bytes : List UInt8} (h : n ≤ bytes.length) :
    (bitsOf (bytes.take n)).length = 8 * n := by
  rw [length_bitsOf, List.length_take_of_le h]

theorem bitsOf_drop (n : Nat) (bytes : List UInt8) :
    (bitsOf bytes).drop (8 * n) = bitsOf (bytes.drop n) := by
  rcases Nat.lt_or_ge bytes.length n with h | h
  · rw [List.drop_eq_nil_of_le (by rw [length_bitsOf]; omega), List.drop_eq_nil_of_le (by omega)]
    rfl
  · nth_rewrite 1 [← List.take_append_drop n bytes]
    rw [bitsOf_append, List.drop_left' (length_bitsOf_take h)]

theorem bitsOf_take (n : Nat) (bytes : List UInt8) :
    (bitsOf bytes).take (8 * n) = bitsOf (bytes.take n) := by
  rcases Nat.lt_or_ge bytes.length n with h | h
  · rw [List.take_of_length_le (by rw [length_bitsOf]; omega), List.take_of_length_le (by omega)]
  · nth_rewrite 1 [← List.take_append_drop n bytes]
    rw [bitsOf_append, List.take_left' (length_bitsOf_take h)]

/-- A piece of the bits is the bits of a piece. -/
theorem piece_bitsOf (size i : Nat) (bytes : List UInt8) :
    piece (8 * size) i (bitsOf bytes) = bitsOf (piece size i bytes) := by
  rw [piece, piece, Nat.mul_assoc, bitsOf_drop, bitsOf_take]

theorem number_bitsOf_cons (b : UInt8) (bytes : List UInt8) :
    number (bitsOf (b :: bytes)) = b.toNat * 256 ^ bytes.length + number (bitsOf bytes) := by
  have hb : b.toNat % 2 ^ 8 = b.toNat := Nat.mod_eq_of_lt b.toNat_lt
  rw [bitsOf_cons, number_append, number_bitsBE, hb, length_bitsOf, Nat.pow_mul]

/-- A byte of a number. -/
theorem bitsBE_byte (x : Nat) : bitsBE 8 (UInt8.ofNat x).toNat = bitsBE 8 x := by
  rw [UInt8.toNat_ofNat', bitsBE_mod]

/-! ## The standard's choices, computed -/

theorem zeros_eq (l : Nat) : zeros l = (959 - l % 512) % 512 := by
  rw [zeros, Nat.find_eq_iff]
  exact ⟨by omega, fun n hn h => by omega⟩

theorem schedule_of_lt (block : List Bool) {t : Nat} (h : t < 16) :
    schedule block t = BitVec.ofNat 32 (number (piece 32 t block)) := by
  rw [schedule, if_pos h]

theorem schedule_of_le (block : List Bool) {t : Nat} (h : 16 ≤ t) :
    schedule block t = smallSigma1 (schedule block (t - 2)) + schedule block (t - 7)
      + smallSigma0 (schedule block (t - 15)) + schedule block (t - 16) := by
  rw [schedule, if_neg (Nat.not_lt.mpr h)]

end SecureHash
