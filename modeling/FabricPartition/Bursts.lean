import FabricPartition.Corruption

/-!
# Short bursts

What CRC-64 makes of a message that was changed within eight consecutive bytes.

A byte enters the checksum through the low byte of the state alone, so the bytes of a window can be
folded into the state beforehand, least significant first, and zeros read in their place
(`crc64Update_absorb`).  Eight bytes fill the state exactly: two windows of eight bytes are two states,
and the steps that follow keep states apart (`crc64Update_window`).
-/

set_option autoImplicit false

namespace FabricPartition

/-! ## Windows -/

/-- The bytes as a number, least significant first. -/
def littleEndian : Bytes → Nat
  | [] => 0
  | b :: rest => b.toNat + 256 * littleEndian rest

theorem littleEndian_lt (window : Bytes) : littleEndian window < 2 ^ (8 * window.length) := by
  induction window with
  | nil => exact Nat.one_pos
  | cons b rest ih =>
    have hb := b.toNat_lt
    have hpow : 2 ^ (8 * (rest.length + 1)) = 256 * 2 ^ (8 * rest.length) := by
      rw [Nat.mul_add, Nat.pow_add]
      omega
    rw [littleEndian, List.length_cons, hpow]
    omega

theorem littleEndian_inj {v w : Bytes} (hlength : v.length = w.length)
    (h : littleEndian v = littleEndian w) : v = w := by
  induction v generalizing w with
  | nil => exact (List.length_eq_zero_iff.mp hlength.symm).symm
  | cons b v ih =>
    rcases w with _ | ⟨c, w⟩
    · cases hlength
    have hb := b.toNat_lt
    have hc := c.toNat_lt
    rw [littleEndian, littleEndian] at h
    rw [ih (Nat.succ.inj hlength) (by omega), UInt8.toNat_inj.mp (show b.toNat = c.toNat by omega)]

/-- **A window is absorbed into the state**: its bytes may be folded in beforehand. -/
theorem crc64Update_absorb (value : Nat) (window : Bytes) :
    crc64Update value window =
      crc64Update (value ^^^ littleEndian window) (List.replicate window.length 0) := by
  induction window generalizing value with
  | nil => rw [littleEndian, Nat.xor_zero]; rfl
  | cons b rest ih =>
    have hb := b.toNat_lt
    have hlow : littleEndian (b :: rest) % 2 ^ 8 = b.toNat := by
      rw [littleEndian]
      omega
    have hhigh : littleEndian (b :: rest) >>> 8 = littleEndian rest := by
      rw [littleEndian, Nat.shiftRight_eq_div_pow]
      omega
    have hbyte : b.toNat % 2 ^ 8 = b.toNat := Nat.mod_eq_of_lt hb
    rw [crc64Update, List.foldl_cons, List.length_cons, List.replicate_succ, crc64Update,
      List.foldl_cons]
    change crc64Update _ rest = crc64Update _ (List.replicate rest.length 0)
    rw [ih]
    refine congrArg (crc64Update · _) ?_
    -- only the low byte of the window goes through the table, and the rest of it moves down
    have hzero : UInt8.toNat 0 = 0 := rfl
    rw [show 256 = 2 ^ 8 from rfl, Nat.xor_mod_two_pow, hbyte, hzero, Nat.xor_zero,
      Nat.xor_mod_two_pow, hlow, Nat.shiftRight_xor_distrib, hhigh, Nat.xor_assoc]

/-- **Different windows of at most eight bytes leave different states.** -/
theorem crc64Update_window {value : Nat} (hvalue : value < 2 ^ 64) {v w : Bytes}
    (hlength : v.length = w.length) (hshort : v.length ≤ 8)
    (h : crc64Update value v = crc64Update value w) : v = w := by
  have hlt : ∀ u : Bytes, u.length ≤ 8 → value ^^^ littleEndian u < 2 ^ 64 := fun u hu =>
    Nat.xor_lt_two_pow hvalue (Nat.lt_of_lt_of_le (littleEndian_lt u)
      (Nat.pow_le_pow_right (by decide) (by omega)))
  rw [crc64Update_absorb value v, crc64Update_absorb value w, ← hlength] at h
  have hstate := crc64_undoable.foldl_injective (hlt v hshort) (hlt w (hlength ▸ hshort)) h
  exact littleEndian_inj hlength (Nat.xor_right_injective hstate)

/-! ## Bursts and chunks -/

/-- The messages differ within eight consecutive bytes. -/
def BurstAt (start : Nat) (a b : Bytes) : Prop :=
  a.length = b.length ∧ a ≠ b ∧ ∀ i, a[i]? ≠ b[i]? → start ≤ i ∧ i < start + 8

/-- What is outside the burst is the same in both messages. -/
theorem BurstAt.outside {start : Nat} {a b : Bytes} (h : BurstAt start a b) :
    a.take start = b.take start ∧ a.drop (start + 8) = b.drop (start + 8) := by
  refine ⟨List.ext_getElem? fun i => ?_, List.ext_getElem? fun i => ?_⟩
  · rw [List.getElem?_take, List.getElem?_take]
    split
    · by_contra hne
      have := (h.2.2 i hne).1
      omega
    · rfl
  · rw [List.getElem?_drop, List.getElem?_drop]
    by_contra hne
    have := (h.2.2 _ hne).2
    omega

/-- A message around its window. -/
theorem split_window (start : Nat) (a : Bytes) :
    a = a.take start ++ ((a.drop start).take 8 ++ a.drop (start + 8)) := by
  rw [← List.drop_drop, List.take_append_drop, List.take_append_drop]

theorem BurstAt.detected {start : Nat} {a b : Bytes} (h : BurstAt start a b) :
    crc64Bytes a ≠ crc64Bytes b := by
  obtain ⟨hfront, hback⟩ := h.outside
  intro heq
  rw [crc64Bytes_eq_iff, split_window start a, split_window start b, hfront, hback,
    crc64Update_append, crc64Update_append, crc64Update_append, crc64Update_append] at heq
  have hvalid : ∀ data : Bytes, crc64Update crc64Initial data < 2 ^ 64 := fun data =>
    crc64_undoable.foldl_valid (by decide) data
  have hwindow := crc64_undoable.foldl_injective (crc64_undoable.foldl_valid (hvalid _) _)
    (crc64_undoable.foldl_valid (hvalid _) _) heq
  have hsame := crc64Update_window (hvalid _)
    (by rw [List.length_take, List.length_take, List.length_drop, List.length_drop, h.1])
    (List.length_take_le 8 _) hwindow
  refine h.2.1 ?_
  rw [split_window start a, split_window start b, hfront, hback, hsame]

/-- `Crc64::update`, a chunk at a time. -/
def crc64Chunks (chunks : List Bytes) : Nat := chunks.foldl crc64Update crc64Initial

theorem crc64Chunks_flatten (chunks : List Bytes) :
    crc64Chunks chunks = crc64Update crc64Initial chunks.flatten := by
  rw [crc64Chunks]
  generalize crc64Initial = value
  induction chunks generalizing value with
  | nil => rfl
  | cons chunk rest ih => rw [List.foldl_cons, ih, List.flatten_cons, crc64Update_append]

/-- **CRC-64 detects short bursts**, and does not depend on the chunks a message comes in. -/
theorem crc64_bursts_chunks :
    (∀ start a b, BurstAt start a b → crc64Bytes a ≠ crc64Bytes b) ∧
      ∀ chunks : List Bytes,
        UInt64.ofNat (crc64Chunks chunks ^^^ 0xFFFFFFFFFFFFFFFF) = crc64Bytes chunks.flatten :=
  ⟨fun _ _ _ h => h.detected, fun chunks => by rw [crc64Chunks_flatten, crc64Bytes]⟩

theorem crc64_burst_found :
    BurstAt 1 [0, 1, 2, 3] [0, 9, 2, 8] ∧ crc64Bytes [0, 1, 2, 3] ≠ crc64Bytes [0, 9, 2, 8] := by
  have hburst : BurstAt 1 [0, 1, 2, 3] [0, 9, 2, 8] := by
    refine ⟨rfl, by decide, fun i hi => ?_⟩
    rcases i with _ | _ | _ | _ | i
    · exact absurd rfl hi
    · decide
    · decide
    · decide
    · exact absurd rfl hi
  exact ⟨hburst, crc64_bursts_chunks.1 1 _ _ hburst⟩

end FabricPartition
