import Mathlib.Data.List.Basic
import Mathlib.Algebra.Order.BigOperators.Ring.Finset

/-!
# Cutting a stream of frames

A stream is the concatenation of the encodings of a list of items.  When it is cut at a position,
what remains is the encodings of the items that lie wholly in front of the cut (`whole`), followed by
the front part of the one item the cut falls into, if it falls into one (`remnant`).
-/

set_option autoImplicit false

namespace Frames

variable {α β : Type} (encode : α → List β)

/-- The concatenation of the encodings. -/
def stream (xs : List α) : List β := xs.flatMap encode

@[simp]
theorem stream_nil : stream encode [] = [] := rfl

@[simp]
theorem stream_cons (x : α) (xs : List α) :
    stream encode (x :: xs) = encode x ++ stream encode xs := List.flatMap_cons

@[simp]
theorem stream_append (xs ys : List α) :
    stream encode (xs ++ ys) = stream encode xs ++ stream encode ys := List.flatMap_append

/-- The items that lie wholly within the first `k` places. -/
def whole : Nat → List α → List α
  | _, [] => []
  | k, x :: xs =>
    if (encode x).length ≤ k then x :: whole (k - (encode x).length) xs else []

/-- What a cut after `k` places leaves of the item it falls into. -/
def remnant : Nat → List α → List β
  | _, [] => []
  | k, x :: xs =>
    if (encode x).length ≤ k then remnant (k - (encode x).length) xs else (encode x).take k

/-- The cut falls strictly inside an item. -/
def CutsInside (k : Nat) (xs : List α) : Prop :=
  ∃ ys x zs, xs = ys ++ x :: zs ∧ (stream encode ys).length < k ∧
    k < (stream encode ys).length + (encode x).length

theorem take_stream (k : Nat) (xs : List α) :
    (stream encode xs).take k = stream encode (whole encode k xs) ++ remnant encode k xs := by
  induction xs generalizing k with
  | nil => simp [whole, remnant]
  | cons x xs ih =>
    rw [stream_cons, whole, remnant]
    split
    · rename_i hle
      rw [List.take_append, List.take_of_length_le hle, ih, stream_cons, List.append_assoc]
    · rename_i hlt
      rw [List.take_append_of_le_length (by omega), stream_nil, List.nil_append]

theorem whole_prefix (k : Nat) (xs : List α) : whole encode k xs <+: xs := by
  induction xs generalizing k with
  | nil => exact List.prefix_rfl
  | cons x xs ih =>
    rw [whole]
    split
    · exact List.cons_prefix_cons.mpr ⟨rfl, ih _⟩
    · exact List.nil_prefix

theorem whole_of_length_le {k : Nat} {xs : List α} (h : (stream encode xs).length ≤ k) :
    whole encode k xs = xs := by
  induction xs generalizing k with
  | nil => rfl
  | cons x xs ih =>
    rw [stream_cons, List.length_append] at h
    rw [whole, if_pos (by omega), ih (by omega)]

/-- The remnant is the front of an item, and not all of it. -/
theorem remnant_cases (k : Nat) (xs : List α) :
    remnant encode k xs = [] ∨
      ∃ x ∈ xs, ∃ n < (encode x).length, remnant encode k xs = (encode x).take n := by
  induction xs generalizing k with
  | nil => exact .inl rfl
  | cons x xs ih =>
    rw [remnant]
    split
    · rcases ih (k - (encode x).length) with h | ⟨y, hy, n, hn, h⟩
      · exact .inl h
      · exact .inr ⟨y, List.mem_cons_of_mem x hy, n, hn, h⟩
    · exact .inr ⟨x, List.mem_cons_self, k, by omega, rfl⟩

/-- Something remains exactly when the cut falls inside an item. -/
theorem remnant_ne_nil_iff (k : Nat) (xs : List α) :
    remnant encode k xs ≠ [] ↔ CutsInside encode k xs := by
  induction xs generalizing k with
  | nil =>
    refine iff_of_false (fun h => h rfl) ?_
    rintro ⟨ys, x, zs, h, -⟩
    cases ys <;> cases h
  | cons x xs ih =>
    rw [remnant]
    split
    · rename_i hle
      rw [ih]
      refine ⟨?_, ?_⟩
      · rintro ⟨ys, y, zs, rfl, hlow, hhigh⟩
        refine ⟨x :: ys, y, zs, rfl, ?_, ?_⟩
        · rw [stream_cons, List.length_append]
          omega
        · rw [stream_cons, List.length_append]
          omega
      · rintro ⟨ys, y, zs, h, hlow, hhigh⟩
        cases ys with
        | nil =>
          obtain ⟨rfl, -⟩ := List.cons.inj h
          rw [stream_nil, List.length_nil] at hhigh
          omega
        | cons w ys =>
          obtain ⟨rfl, rfl⟩ := List.cons.inj h
          rw [stream_cons, List.length_append] at hlow hhigh
          exact ⟨ys, y, zs, rfl, by omega, by omega⟩
    · rename_i hlt
      have hne : (encode x).take k ≠ [] ↔ 0 < k := by
        rw [← List.length_pos_iff, List.length_take]
        omega
      rw [hne]
      refine ⟨fun hk => ⟨[], x, xs, rfl, hk, ?_⟩, ?_⟩
      · rw [stream_nil, List.length_nil]
        omega
      · rintro ⟨ys, y, zs, -, hlow, -⟩
        omega

/-- Every place of a stream lies in one of its items. -/
theorem exists_item_of_lt {k : Nat} {xs : List α} (h : k < (stream encode xs).length) :
    ∃ ys x zs n, xs = ys ++ x :: zs ∧ n < (encode x).length ∧
      k = (stream encode ys).length + n := by
  induction xs generalizing k with
  | nil => cases h
  | cons x xs ih =>
    by_cases hlt : k < (encode x).length
    · exact ⟨[], x, xs, k, rfl, hlt, (Nat.zero_add k).symm⟩
    · rw [stream_cons, List.length_append] at h
      obtain ⟨ys, y, zs, n, rfl, hn, hk⟩ := ih (k := k - (encode x).length) (by omega)
      refine ⟨x :: ys, y, zs, n, rfl, hn, ?_⟩
      rw [stream_cons, List.length_append]
      omega

end Frames
