import FabricPartition.Digest
import FabricPartition.Lib.SecureHash

/-!
# Streaming SHA-256

The hasher of `digest.cpp` against the standard (`SecureHash`).

* `compress_ofHash` — a block: the words of the source are the bit vectors of the standard, and its
  schedule is the recurrence, newest word first;
* `Streams` — what the hasher holds after some updates depends on the bytes alone, not on the chunks
  they came in: whole blocks are compressed and the rest is buffered;
* `finish_eq_digest` — the padding that `finish` feeds through `update` is the padding of the standard,
  and a finished hasher takes no more bytes.
-/

set_option autoImplicit false

namespace FabricPartition

namespace Sha256

open SecureHash

/-! ## Words -/

/-- The state words of a hash value. -/
def ofHash (s : Hash) : Words :=
  ⟨s.a.toNat, s.b.toNat, s.c.toNat, s.d.toNat, s.e.toNat, s.f.toNat, s.g.toNat, s.h.toNat⟩

@[simp]
theorem rotateRight_toNat (x : Word) (n : Nat) : rotateRight x.toNat n = (rotr n x).toNat := by
  rw [rotateRight, rotr, BitVec.toNat_or, BitVec.toNat_ushiftRight, BitVec.toNat_shiftLeft]

@[simp]
theorem choice_toNat (x y z : Word) :
    (x.toNat &&& y.toNat) ^^^ ((4294967295 - x.toNat) &&& z.toNat) = (ch x y z).toNat := by
  rw [ch, BitVec.toNat_xor, BitVec.toNat_and, BitVec.toNat_and, BitVec.toNat_not]

@[simp]
theorem majority_toNat (x y z : Word) :
    (x.toNat &&& y.toNat) ^^^ (x.toNat &&& z.toNat) ^^^ (y.toNat &&& z.toNat)
      = (maj x y z).toNat := by
  simp only [maj, BitVec.toNat_xor, BitVec.toNat_and]

theorem bigSigma0_toNat (x : Word) :
    rotateRight x.toNat 2 ^^^ rotateRight x.toNat 13 ^^^ rotateRight x.toNat 22
      = (bigSigma0 x).toNat := by
  simp only [bigSigma0, rotateRight_toNat, BitVec.toNat_xor]

theorem bigSigma1_toNat (x : Word) :
    rotateRight x.toNat 6 ^^^ rotateRight x.toNat 11 ^^^ rotateRight x.toNat 25
      = (bigSigma1 x).toNat := by
  simp only [bigSigma1, rotateRight_toNat, BitVec.toNat_xor]

theorem smallSigma0_toNat (x : Word) :
    rotateRight x.toNat 7 ^^^ rotateRight x.toNat 18 ^^^ (x.toNat >>> 3)
      = (smallSigma0 x).toNat := by
  simp only [smallSigma0, rotateRight_toNat, BitVec.toNat_xor, BitVec.toNat_ushiftRight]

theorem smallSigma1_toNat (x : Word) :
    rotateRight x.toNat 17 ^^^ rotateRight x.toNat 19 ^^^ (x.toNat >>> 10)
      = (smallSigma1 x).toNat := by
  simp only [smallSigma1, rotateRight_toNat, BitVec.toNat_xor, BitVec.toNat_ushiftRight]

/-! ## A block -/

/-- A round is a round of the standard. -/
theorem round_ofHash (s : Hash) (k w : Word) :
    round (ofHash s) k.toNat w.toNat = ofHash (SecureHash.round s k w) := by
  simp only [round, ofHash, bigSigma0_toNat, bigSigma1_toNat, choice_toNat, majority_toNat,
    SecureHash.round, Words.mk.injEq, BitVec.toNat_add, Nat.reducePow, true_and, and_true]
  omega

theorem rounds_ofHash (block : List Bool) (s : Hash) (i n : Nat) :
    rounds (ofHash s) ((List.range' i n).map fun t => (constant t).toNat)
      ((List.range' i n).map fun t => (schedule block t).toNat)
      = ofHash ((List.range' i n).foldl (step block) s) := by
  induction n generalizing i s with
  | zero => rfl
  | succ n ih =>
    rw [List.range'_succ, List.map_cons, List.map_cons, List.foldl_cons, rounds, round_ofHash, ← step,
      ih]

/-- The tables of the source list the roots of the standard. -/
theorem roundConstants_eq :
    roundConstants = (List.range' 0 64).map fun t => (constant t).toNat := by
  decide +kernel

theorem initialState_eq : initialState = ofHash initial := by
  decide +kernel

/-- The first words of the schedule, newest first. -/
def newest (block : List Bool) : Nat → List Nat
  | 0 => []
  | t + 1 => (schedule block t).toNat :: newest block t

theorem newest_getD (block : List Bool) {t i : Nat} (h : i < t) :
    (newest block t).getD i 0 = (schedule block (t - 1 - i)).toNat := by
  induction t generalizing i with
  | zero => omega
  | succ t ih =>
    rcases i with _ | i
    · rfl
    · rw [newest, List.getD_cons_succ, ih (by omega)]
      congr 2
      omega

theorem reverse_newest (block : List Bool) (t : Nat) :
    (newest block t).reverse = (List.range' 0 t).map fun i => (schedule block i).toNat := by
  induction t with
  | zero => rfl
  | succ t ih =>
    rw [newest, List.reverse_cons, ih, List.range'_concat, List.map_append]
    simp

/-- **The schedule** is extended by the recurrence of the standard. -/
theorem extendSchedule_newest (block : List Bool) (n : Nat) {t : Nat} (h : 16 ≤ t) :
    extendSchedule n (newest block t) = newest block (t + n) := by
  induction n generalizing t with
  | zero => rfl
  | succ n ih =>
    have hword : ((newest block t).getD 15 0
        + (rotateRight ((newest block t).getD 14 0) 7 ^^^ rotateRight ((newest block t).getD 14 0) 18
          ^^^ ((newest block t).getD 14 0 >>> 3))
        + (newest block t).getD 6 0
        + (rotateRight ((newest block t).getD 1 0) 17 ^^^ rotateRight ((newest block t).getD 1 0) 19
          ^^^ ((newest block t).getD 1 0 >>> 10))) % 4294967296
        = (schedule block t).toNat := by
      rw [newest_getD block (by omega), newest_getD block (by omega), newest_getD block (by omega),
        newest_getD block (by omega), smallSigma0_toNat, smallSigma1_toNat, schedule_of_le block h,
        Nat.sub_sub, Nat.sub_sub, Nat.sub_sub, Nat.sub_sub]
      simp only [BitVec.toNat_add, Nat.reduceAdd, Nat.reducePow]
      omega
    rw [extendSchedule, hword, ← newest, ih (Nat.le_succ_of_le h)]
    congr 1
    omega

/-- The words of a block. -/
theorem blockWords_eq {n : Nat} {bytes : Bytes} (h : bytes.length = 4 * n) :
    blockWords bytes = (List.range n).map fun t => number (piece 32 t (bitsOf bytes)) := by
  induction n generalizing bytes with
  | zero =>
    rw [List.length_eq_zero_iff.mp h]
    rfl
  | succ n ih =>
    rcases bytes with _ | ⟨b0, _ | ⟨b1, _ | ⟨b2, _ | ⟨b3, rest⟩⟩⟩⟩
    · simp at h
    · simp at h
      omega
    · simp at h
      omega
    · simp at h
      omega
    have hrest : rest.length = 4 * n := by
      simp only [List.length_cons] at h
      omega
    have hpiece : ∀ t, piece 32 t (bitsOf (b0 :: b1 :: b2 :: b3 :: rest))
        = bitsOf (piece 4 t (b0 :: b1 :: b2 :: b3 :: rest)) := fun t => piece_bitsOf 4 t _
    have hlater : ∀ t, piece 4 (t + 1) (b0 :: b1 :: b2 :: b3 :: rest) = piece 4 t rest := by
      intro t
      rw [piece, piece, Nat.mul_succ]
      rfl
    rw [List.range_succ_eq_map, List.map_cons, List.map_map, blockWords, ih hrest]
    refine congrArg₂ _ ?_ (List.map_congr_left fun t _ => ?_)
    · have hfirst : piece 4 0 (b0 :: b1 :: b2 :: b3 :: rest) = [b0, b1, b2, b3] := rfl
      rw [hpiece, hfirst]
      simp only [number_bitsOf_cons, List.length_cons, List.length_nil]
      change _ = _ + (_ + (_ + (_ + 0)))
      omega
    · rw [Function.comp_apply, hpiece, hlater]
      exact congrArg number (piece_bitsOf 4 t rest)

theorem ofHash_add (r s : Hash) : ofHash (r.add s) =
    ⟨((ofHash s).a + (ofHash r).a) % 4294967296, ((ofHash s).b + (ofHash r).b) % 4294967296,
      ((ofHash s).c + (ofHash r).c) % 4294967296, ((ofHash s).d + (ofHash r).d) % 4294967296,
      ((ofHash s).e + (ofHash r).e) % 4294967296, ((ofHash s).f + (ofHash r).f) % 4294967296,
      ((ofHash s).g + (ofHash r).g) % 4294967296, ((ofHash s).h + (ofHash r).h) % 4294967296⟩ := by
  simp only [ofHash, Hash.add, BitVec.toNat_add, Nat.reducePow, Nat.add_comm]

/-- **A block is compressed** as the standard says. -/
theorem compress_ofHash (s : Hash) {block : Bytes} (h : block.length = 64) :
    compress (ofHash s) block = ofHash (SecureHash.compress s (bitsOf block)) := by
  have hwords : (blockWords block).reverse = newest (bitsOf block) 16 := by
    rw [List.reverse_eq_iff, reverse_newest, blockWords_eq (n := 16) h, ← List.range_eq_range']
    refine List.map_congr_left fun t ht => ?_
    rw [schedule_of_lt _ (List.mem_range.mp ht), BitVec.toNat_ofNat, Nat.mod_eq_of_lt]
    refine Nat.lt_of_lt_of_le (number_lt _) (Nat.pow_le_pow_right (by decide) ?_)
    exact List.length_take_le _ _
  have hrounds : rounds (ofHash s) roundConstants
      (extendSchedule 48 (blockWords block).reverse).reverse
      = ofHash ((List.range 64).foldl (step (bitsOf block)) s) := by
    rw [hwords, extendSchedule_newest _ 48 (Nat.le_refl 16), reverse_newest, roundConstants_eq,
      rounds_ofHash, List.range_eq_range']
  rw [compress, hrounds, SecureHash.compress, ofHash_add]

/-! ## Blocks of a message -/

/-- The `while` loop of `update` over a whole message. -/
def absorbAll (s : Words) (data : Bytes) : Words × Bytes := absorb (data.length / 64) s data

theorem absorbAll_short (s : Words) {data : Bytes} (h : data.length < 64) :
    absorbAll s data = (s, data) := by
  rw [absorbAll, Nat.div_eq_of_lt h, absorb]

theorem absorbAll_block (s : Words) {data : Bytes} (h : 64 ≤ data.length) :
    absorbAll s data = absorbAll (compress s (data.take 64)) (data.drop 64) := by
  have hturns : data.length / 64 = (data.drop 64).length / 64 + 1 := by
    rw [List.length_drop]
    omega
  rw [absorbAll, hturns, absorb, if_neg (Nat.not_lt.mpr h), absorbAll]

/-- **What is buffered may as well come first**: the bytes count, not where they were cut. -/
theorem absorbAll_append (s : Words) (x y : Bytes) :
    absorbAll s (x ++ y) = absorbAll (absorbAll s x).1 ((absorbAll s x).2 ++ y) := by
  induction hn : x.length / 64 generalizing s x with
  | zero => rw [absorbAll_short s (show x.length < 64 by omega)]
  | succ n ih =>
    have hlength : 64 ≤ x.length := by omega
    have hlonger : 64 ≤ (x ++ y).length := by
      rw [List.length_append]
      omega
    rw [absorbAll_block s hlength, absorbAll_block s hlonger, List.take_append_of_le_length hlength,
      List.drop_append_of_le_length hlength]
    refine ih _ _ ?_
    rw [List.length_drop]
    omega

theorem length_absorbAll (s : Words) (data : Bytes) :
    (absorbAll s data).2.length = data.length % 64 := by
  induction hn : data.length / 64 generalizing s data with
  | zero =>
    have hshort : data.length < 64 := by omega
    rw [absorbAll_short s hshort]
    exact (Nat.mod_eq_of_lt hshort).symm
  | succ n ih =>
    rw [absorbAll_block s (by omega), ih _ _ (by rw [List.length_drop]; omega), List.length_drop]
    omega

/-- Whole blocks are compressed one after the other. -/
theorem absorbAll_blocks (s : Hash) {n : Nat} {data : Bytes} (h : data.length = 64 * n) :
    absorbAll (ofHash s) data = (ofHash ((List.range n).foldl
      (fun s i => SecureHash.compress s (piece 512 i (bitsOf data))) s), []) := by
  induction n generalizing s data with
  | zero =>
    rw [List.length_eq_zero_iff.mp h]
    rfl
  | succ n ih =>
    have hlater : ∀ i, piece 512 (i + 1) (bitsOf data) = piece 512 i (bitsOf (data.drop 64)) := by
      intro i
      rw [piece_bitsOf 64 (i + 1), piece_bitsOf 64 i, piece, piece, List.drop_drop]
      congr 3
      omega
    have hfirst : piece 512 0 (bitsOf data) = bitsOf (data.take 64) := piece_bitsOf 64 0 data
    rw [absorbAll_block _ (by omega),
      compress_ofHash s (List.length_take_of_le (by omega)),
      ih _ (by rw [List.length_drop]; omega), List.range_succ_eq_map, List.foldl_cons,
      List.foldl_map, hfirst]
    simp only [Nat.succ_eq_add_one, hlater]

/-! ## Updates -/

/-- The hasher has taken the bytes, and is not finished. -/
structure Streams (hasher : Sha256) (message : Bytes) : Prop where
  live : hasher.finalized = false
  total : hasher.totalBytes = UInt64.ofNat message.length
  held : absorbAll initialState message = (hasher.state, hasher.buffer)

theorem Streams.empty : Streams {} [] := ⟨rfl, rfl, rfl⟩

theorem Streams.length_buffer {hasher : Sha256} {message : Bytes} (h : Streams hasher message) :
    hasher.buffer.length = message.length % 64 := by
  rw [← length_absorbAll initialState message, h.held]

/-- **An update takes its bytes**, wherever the blocks begin. -/
theorem Streams.update {hasher : Sha256} {message : Bytes} (h : Streams hasher message)
    (data : Bytes) : Streams (hasher.update data) (message ++ data) := by
  have hheld : absorbAll initialState (message ++ data)
      = absorbAll hasher.state (hasher.buffer ++ data) := by
    rw [absorbAll_append, h.held]
  have htotal : hasher.totalBytes + UInt64.ofNat data.length
      = UInt64.ofNat (message ++ data).length := by
    rw [h.total, List.length_append, UInt64.ofNat_add]
  have hshort : hasher.buffer.length < 64 := by
    rw [h.length_buffer]
    exact Nat.mod_lt _ (by decide)
  rw [Sha256.update]
  split
  · rename_i hnothing
    rw [h.live, Bool.false_or, List.isEmpty_iff] at hnothing
    rw [hnothing, List.append_nil]
    exact h
  · dsimp only
    split
    · rename_i hempty
      rw [List.isEmpty_iff.mp hempty, List.nil_append] at hheld
      exact ⟨h.live, htotal, hheld⟩
    · split
      · -- the chunk fills the block, and the rest of it starts a new one
        rename_i hfull
        refine ⟨h.live, htotal, ?_⟩
        rw [hheld, ← List.take_append_drop (min data.length (64 - hasher.buffer.length)) data,
          ← List.append_assoc, absorbAll_block _ (by rw [List.length_append, hfull]; omega),
          List.take_append_of_le_length (by omega), List.take_of_length_le (by omega),
          List.drop_append_of_le_length (by omega), List.drop_of_length_le (by omega),
          List.nil_append, List.take_append_drop]
        rfl
      · rename_i hroom
        refine ⟨h.live, htotal, ?_⟩
        have hall : min data.length (64 - hasher.buffer.length) = data.length := by
          rw [List.length_append, List.length_take] at hroom
          omega
        rw [hheld, hall, List.take_length, absorbAll_short]
        rw [hall, List.take_length, List.length_append] at hroom
        rw [List.length_append]
        omega

theorem Streams.foldl {hasher : Sha256} {message : Bytes} (h : Streams hasher message)
    (chunks : List Bytes) :
    Streams (chunks.foldl Sha256.update hasher) (message ++ chunks.flatten) := by
  induction chunks generalizing hasher message with
  | nil =>
    rw [List.flatten_nil, List.append_nil]
    exact h
  | cons chunk rest ih =>
    rw [List.foldl_cons, List.flatten_cons, ← List.append_assoc]
    exact ih (h.update chunk)

/-! ## Padding -/

/-- The padding loop of `finish`, with no bound on its turns. -/
inductive Pads : Sha256 → Sha256 → Prop
  | done {hasher : Sha256} (h : hasher.buffer.length = 56) : Pads hasher hasher
  | zero {hasher result : Sha256} (h : hasher.buffer.length ≠ 56)
      (hlater : Pads (hasher.update [0]) result) : Pads hasher result

/-- The zero bytes that fill a message up to fifty-six bytes of a block. -/
def fill (length : Nat) : Nat := (120 - length % 64) % 64

/-- **The padding loop ends**, after as many zeros as fill the block. -/
theorem Streams.padZeros {hasher : Sha256} {message : Bytes} (h : Streams hasher message)
    {turns : Nat} (hturns : fill message.length ≤ turns) :
    Streams (hasher.padZeros turns) (message ++ List.replicate (fill message.length) 0) ∧
      Pads hasher (hasher.padZeros turns) := by
  induction turns generalizing hasher message with
  | zero =>
    have hfill : fill message.length = 0 := Nat.le_zero.mp hturns
    rw [hfill, List.replicate_zero, List.append_nil, Sha256.padZeros]
    refine ⟨h, .done ?_⟩
    rw [h.length_buffer]
    rw [fill] at hfill
    omega
  | succ turns ih =>
    rw [Sha256.padZeros]
    split
    · rename_i hdone
      have hfill : fill message.length = 0 := by
        rw [h.length_buffer] at hdone
        rw [fill, hdone]
      rw [hfill, List.replicate_zero, List.append_nil]
      exact ⟨h, .done hdone⟩
    · rename_i hmore
      have hfill : fill message.length = fill (message ++ [0]).length + 1 := by
        rw [h.length_buffer] at hmore
        rw [List.length_append, List.length_singleton, fill, fill]
        omega
      obtain ⟨hstreams, hpads⟩ := ih (h.update [0]) (by omega)
      have hmessage : message ++ List.replicate (fill message.length) 0
          = message ++ [0] ++ List.replicate (fill (message ++ [0]).length) 0 := by
        rw [hfill, List.replicate_succ, List.append_assoc]
        rfl
      rw [hmessage]
      exact ⟨hstreams, .zero hmore hpads⟩

/-- The hasher that `finish` leaves. -/
def finished (hasher : Sha256) : Sha256 :=
  if hasher.finalized then hasher
  else
    let bitLength := hasher.totalBytes * 8
    { ((hasher.update [0x80]).padZeros 64).update (be64 bitLength) with finalized := true }

theorem finish_eq (hasher : Sha256) : hasher.finish = hasher.finished.state.digest := by
  rw [finish, finished]
  split <;> rfl

theorem finished_finalized (hasher : Sha256) : hasher.finished.finalized = true := by
  rw [finished]
  split
  · rename_i h
    exact h
  · rfl

/-- **A finished hasher takes no more bytes.** -/
theorem foldl_of_finalized {hasher : Sha256} (h : hasher.finalized = true) (later : List Bytes) :
    later.foldl update hasher = hasher := by
  induction later with
  | nil => rfl
  | cons data rest ih => rw [List.foldl_cons, update, h, Bool.true_or, if_pos rfl, ih]

/-! ## The digest -/

theorem bitsOf_be32 (v : UInt32) : bitsOf (be32 v) = bitsBE 32 v.toNat := by
  rw [bitsBE_add 24 8, bitsBE_add 16 8, bitsBE_add 8 8, be32]
  simp only [bitsOf_cons, bitsOf_nil, bitsBE_byte, Nat.div_div_eq_div_mul, Nat.reducePow,
    Nat.reduceMul, List.append_nil, List.append_assoc]

theorem bitsOf_be64 (v : UInt64) : bitsOf (be64 v) = bitsBE 64 v.toNat := by
  have hword : ∀ n : Nat, bitsBE 32 (UInt32.ofNat n).toNat = bitsBE 32 n := by
    intro n
    rw [UInt32.toNat_ofNat', bitsBE_mod]
  rw [be64, bitsOf_append, bitsOf_be32, bitsOf_be32, hword, hword, bitsBE_add 32 32]
  simp only [Nat.reducePow]

theorem bitsOf_digest (s : Hash) : bitsOf (ofHash s).digest.bytes = s.bits := by
  have hword : ∀ x : Word, bitsOf (be32 (UInt32.ofNat x.toNat)) = bitsBE 32 x.toNat := by
    intro x
    rw [bitsOf_be32, UInt32.toNat_ofNat', bitsBE_mod]
  simp only [Words.digest, ofHash, bitsOf_append, hword, Hash.bits, List.flatMap_cons,
    List.flatMap_nil, List.append_nil, List.append_assoc]

/-- The bytes that `finish` compresses in the end. -/
def padded (message : Bytes) : Bytes :=
  message ++ [0x80] ++ List.replicate (fill (message.length + 1)) 0
    ++ be64 (UInt64.ofNat message.length * 8)

theorem length_padded (message : Bytes) : (padded message).length % 64 = 0 := by
  have hlength : ∀ v : UInt64, (be64 v).length = 8 := fun _ => rfl
  simp only [padded, List.length_append, List.length_replicate, List.length_singleton, hlength, fill]
  omega

/-- **The padding is the one of the standard**, on messages whose length in bits is a 64-bit
number. -/
theorem bitsOf_padded {message : Bytes} (h : message.length < 2 ^ 61) :
    bitsOf (padded message) = pad (bitsOf message) := by
  have htotal : (UInt64.ofNat message.length * 8).toNat = 8 * message.length := by
    have height : (8 : UInt64).toNat = 8 := rfl
    rw [UInt64.toNat_mul, UInt64.toNat_ofNat', height]
    omega
  have hzeros : SecureHash.zeros (bitsOf message).length = 7 + 8 * fill (message.length + 1) := by
    rw [zeros_eq, length_bitsOf, fill]
    omega
  have hmarker : bitsOf [0x80] = true :: List.replicate 7 false := by decide
  have hfill : ∀ n, bitsOf (List.replicate n 0) = List.replicate (8 * n) false := by
    intro n
    induction n with
    | zero => rfl
    | succ n ih =>
      rw [List.replicate_succ, bitsOf_cons, ih, Nat.mul_succ, Nat.add_comm, List.replicate_add]
      rfl
  rw [padded, pad, bitsOf_append, bitsOf_append, bitsOf_append, hmarker, hfill, bitsOf_be64, htotal,
    hzeros, length_bitsOf, List.replicate_add]
  simp only [List.append_assoc, List.cons_append]

/-- **A stream of updates hashes to the standard's digest** of its bytes. -/
theorem finish_eq_digest {hasher : Sha256} {message : Bytes} (h : Streams hasher message)
    (hlength : message.length < 2 ^ 61) :
    bitsOf hasher.finish.bytes = digest (bitsOf message) := by
  have hfill : fill (message ++ [0x80]).length ≤ 64 := by
    rw [fill]
    omega
  have hstreams :=
    (((h.update [0x80]).padZeros hfill).1).update (be64 (UInt64.ofNat message.length * 8))
  rw [List.length_append, List.length_singleton, ← padded] at hstreams
  obtain ⟨n, hn⟩ := Nat.dvd_of_mod_eq_zero (length_padded message)
  have hheld := hstreams.held
  rw [initialState_eq, absorbAll_blocks initial hn, bitsOf_padded hlength, Prod.mk.injEq] at hheld
  have hblocks : (pad (bitsOf message)).length / 512 = n := by
    rw [← bitsOf_padded hlength, length_bitsOf, hn]
    omega
  have hstate : hasher.finished.state
      = ((((hasher.update [0x80]).padZeros 64).update
        (be64 (UInt64.ofNat message.length * 8)))).state := by
    rw [finished, if_neg (by rw [h.live]; exact Bool.false_ne_true), h.total]
  rw [finish_eq, hstate, ← hheld.1, bitsOf_digest, digest, hashBlocks, hblocks]

/-- **Streaming SHA-256 is the standard's**: of the chunks only their concatenation counts, the padding
loop ends, and updates after `finish` change nothing. -/
theorem streaming (chunks : List Bytes) (h : chunks.flatten.length < 2 ^ 61) :
    bitsOf (chunks.foldl update {}).finish.bytes = digest (bitsOf chunks.flatten) ∧
      Pads ((chunks.foldl update {}).update [0x80])
        (((chunks.foldl update {}).update [0x80]).padZeros 64) ∧
      ∀ later : List Bytes, (later.foldl update (chunks.foldl update {}).finished).finish
        = (chunks.foldl update {}).finish := by
  have hstreams := Streams.empty.foldl chunks
  rw [List.nil_append] at hstreams
  refine ⟨finish_eq_digest hstreams h, ((hstreams.update [0x80]).padZeros ?_).2, fun later => ?_⟩
  · rw [fill]
    omega
  · have hdone := finished_finalized (chunks.foldl update {})
    rw [foldl_of_finalized hdone, finish_eq, finished, if_pos hdone, ← finish_eq]

example : ([[97], [98, 99]].foldl update {}).finish.bytes.take 4 = [0xba, 0x78, 0x16, 0xbf] := by
  decide +kernel

/-- Three chunks, one of them empty. -/
theorem streaming_abc :
    [[97], [], [98, 99]].flatten.length < 2 ^ 61 ∧
      bitsOf ([[97], [], [98, 99]].foldl update {}).finish.bytes
        = digest (bitsOf [[97], [], [98, 99]].flatten) :=
  ⟨by decide, (streaming [[97], [], [98, 99]] (by decide)).1⟩

end Sha256

end FabricPartition
