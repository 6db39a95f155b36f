import Mathlib.Data.List.Nodup
import Mathlib.Data.List.Perm.Subperm
import Mathlib.Logic.Relation
import Mathlib.Algebra.Order.BigOperators.Ring.Finset

/-!
# Exploring a graph from a frontier

A walk over the successors of a node keeps the nodes it has visited and a frontier of nodes to visit.
`Explored` is its invariant: everything it holds is reachable from the start, and a successor of what
was visited is visited or on the frontier.  A walk that runs out of frontier has visited what is
reachable (`Explored.complete`); one that is cut short has visited a part of it (`Explored.sound`).

In a graph whose edges go down in some rank, the visited nodes and the steps to them are bounded by
the rank of the start (`Explored.length_le`, `rank_lt_of_reachable`).
-/

set_option autoImplicit false

namespace Exploration

open Relation

variable {α : Type}

/-- The nodes a walk has visited, and the frontier it will visit from. -/
structure Explored (succ : α → α → Prop) (start : α) (visited frontier : List α) : Prop where
  sound : ∀ v ∈ visited, TransGen succ start v
  pending : ∀ v ∈ frontier, TransGen succ start v
  nodup : visited.Nodup
  closed : ∀ v w, v = start ∨ v ∈ visited → succ v w → w ∈ visited ∨ w ∈ frontier

namespace Explored

variable {succ : α → α → Prop} {start v : α} {visited frontier frontier' : List α}

/-- A walk starts with the successors of the start. -/
theorem initial (frontier : List α) (h : ∀ w, w ∈ frontier ↔ succ start w) :
    Explored succ start [] frontier where
  sound v hv := by cases hv
  pending w hw := .single ((h w).mp hw)
  nodup := .nil
  closed v w hv hw := by
    rcases hv with rfl | hv
    · exact .inr ((h w).mpr hw)
    · cases hv

/-- The order of the frontier does not matter. -/
theorem reorder (h : Explored succ start visited frontier) (hperm : frontier.Perm frontier') :
    Explored succ start visited frontier' where
  sound := h.sound
  pending w hw := h.pending w (hperm.mem_iff.mpr hw)
  nodup := h.nodup
  closed v w hv hw := (h.closed v w hv hw).imp_right hperm.mem_iff.mp

/-- A visited node is dropped from the frontier. -/
theorem skip (h : Explored succ start visited (v :: frontier)) (hv : v ∈ visited) :
    Explored succ start visited frontier where
  sound := h.sound
  pending w hw := h.pending w (List.mem_cons_of_mem v hw)
  nodup := h.nodup
  closed u w hu hw := by
    rcases h.closed u w hu hw with hw | hw
    · exact .inl hw
    · rcases List.mem_cons.mp hw with rfl | hw
      · exact .inl hv
      · exact .inr hw

/-- A node is visited, and its successors join the frontier. -/
theorem visit (h : Explored succ start visited (v :: frontier)) (hv : v ∉ visited)
    (successors : List α) (hsucc : ∀ w, w ∈ successors ↔ succ v w) :
    Explored succ start (visited ++ [v]) (frontier ++ successors) where
  sound w hw := by
    rcases List.mem_append.mp hw with hw | hw
    · exact h.sound w hw
    · rw [List.mem_singleton.mp hw]
      exact h.pending v List.mem_cons_self
  pending w hw := by
    rcases List.mem_append.mp hw with hw | hw
    · exact h.pending w (List.mem_cons_of_mem v hw)
    · exact (h.pending v List.mem_cons_self).tail ((hsucc w).mp hw)
  nodup := h.nodup.append (List.nodup_singleton v) (by simpa using hv)
  closed u w hu hw := by
    have hold : u = start ∨ u ∈ visited → w ∈ visited ++ [v] ∨ w ∈ frontier ++ successors := by
      intro hu
      rcases h.closed u w hu hw with hw | hw
      · exact .inl (List.mem_append_left _ hw)
      · rcases List.mem_cons.mp hw with rfl | hw
        · exact .inl (List.mem_append_right _ (List.mem_singleton_self w))
        · exact .inr (List.mem_append_left _ hw)
    rcases hu with hu | hu
    · exact hold (.inl hu)
    · rcases List.mem_append.mp hu with hu | hu
      · exact hold (.inr hu)
      · rw [List.mem_singleton.mp hu] at hw
        exact .inr (List.mem_append_right _ ((hsucc w).mpr hw))

/-- **A walk without a frontier** has visited what is reachable. -/
theorem complete (h : Explored succ start visited []) : v ∈ visited ↔ TransGen succ start v := by
  refine ⟨h.sound v, fun hreach => ?_⟩
  induction hreach with
  | single hw => exact (h.closed _ _ (.inl rfl) hw).resolve_right List.not_mem_nil
  | tail _ hw ih => exact (h.closed _ _ (.inr ih) hw).resolve_right List.not_mem_nil

end Explored

section Ranked

variable {succ : α → α → Prop}

theorem rank_lt_of_reachable {rank : α → Nat} (hrank : ∀ v w, succ v w → rank w < rank v) {v w : α}
    (h : TransGen succ v w) : rank w < rank v := by
  induction h with
  | single hw => exact hrank _ _ hw
  | tail _ hw ih => exact Nat.lt_trans (hrank _ _ hw) ih

/-- **The visited nodes are at most as many as the rank of the start**, where ranks tell them apart. -/
theorem Explored.length_le {start : α} {visited frontier : List α}
    (h : Explored succ start visited frontier) (rank : α → Nat)
    (hrank : ∀ v w, succ v w → rank w < rank v)
    (hinj : ∀ v w, TransGen succ start v → TransGen succ start w → rank v = rank w → v = w) :
    visited.length ≤ rank start := by
  have hnodup : (visited.map rank).Nodup :=
    h.nodup.map_on fun v hv w hw heq => hinj v w (h.sound v hv) (h.sound w hw) heq
  have hsub : visited.map rank ⊆ List.range (rank start) := by
    intro n hn
    obtain ⟨v, hv, rfl⟩ := List.mem_map.mp hn
    exact List.mem_range.mpr (rank_lt_of_reachable hrank (h.sound v hv))
  have hle := (List.subperm_of_subset hnodup hsub).length_le
  rwa [List.length_map, List.length_range] at hle

end Ranked

end Exploration
