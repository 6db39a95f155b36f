import Mathlib.Data.List.Basic
import Mathlib.Algebra.Order.BigOperators.Ring.Finset

/-!
# Checksums by folding

A checksum folds the items of a message into a state.  When a step can be undone, from the item
back to the state and from the state back to the item, two messages of one shape that differ in
exactly one item have different checksums, wherever the item is.
-/

set_option autoImplicit false

namespace Checksum

variable {σ β : Type}

/-- On the states in `valid`, a step determines each of its arguments from the other. -/
structure Undoable (valid : σ → Prop) (step : σ → β → σ) : Prop where
  keeps : ∀ s b, valid s → valid (step s b)
  state : ∀ s t b, valid s → valid t → step s b = step t b → s = t
  item : ∀ s b c, valid s → step s b = step s c → b = c

namespace Undoable

variable {valid : σ → Prop} {step : σ → β → σ}

theorem foldl_valid (h : Undoable valid step) {s : σ} (hs : valid s) (items : List β) :
    valid (items.foldl step s) := by
  induction items generalizing s with
  | nil => exact hs
  | cons b items ih => exact ih (h.keeps s b hs)

/-- The rest of a message keeps different states apart. -/
theorem foldl_injective (h : Undoable valid step) {s t : σ} (hs : valid s) (ht : valid t)
    {items : List β} (heq : items.foldl step s = items.foldl step t) : s = t := by
  induction items generalizing s t with
  | nil => exact heq
  | cons b items ih => exact h.state s t b hs ht (ih (h.keeps s b hs) (h.keeps t b ht) heq)

/-- **One changed item changes the checksum.** -/
theorem foldl_ne_of_change (h : Undoable valid step) {s : σ} (hs : valid s) (front back : List β)
    {b c : β} (hne : c ≠ b) :
    (front ++ c :: back).foldl step s ≠ (front ++ b :: back).foldl step s := by
  intro heq
  rw [List.foldl_append, List.foldl_append, List.foldl_cons, List.foldl_cons] at heq
  have hfront := h.foldl_valid hs front
  exact hne (h.item _ c b hfront
    (h.foldl_injective (h.keeps _ c hfront) (h.keeps _ b hfront) heq))

end Undoable

end Checksum
