import Mathlib.Algebra.BigOperators.Group.Finset.Basic
import Mathlib.Algebra.Order.BigOperators.Ring.Finset
import Mathlib.Data.List.Perm.Subperm

/-!
# Majorities by weight

A set of voters is a majority when it has more than half of the whole weight.  Two disjoint sets
cannot both be one (`countP_majority_le_one`) — as long as weights are added up exactly.

A machine adds them up modulo a word size.  Once the whole weight does not fit the word, the majority
test loses its meaning altogether: **there are always two disjoint sets that pass it**
(`exists_two_wrapped_majorities`), whatever the single weights are.
-/

set_option autoImplicit false

namespace Majority

variable {α : Type}

/-- A list without repetition weighs no more than a list that holds all its weight. -/
theorem sum_le_of_support {w : α → ℕ} {table members : List α} (hmembers : members.Nodup)
    (htable : table.Nodup) (h : ∀ x ∈ members, w x ≠ 0 → x ∈ table) :
    (members.map w).sum ≤ (table.map w).sum := by
  classical
  rw [← List.sum_toFinset w hmembers, ← List.sum_toFinset w htable]
  exact Finset.sum_le_sum_of_ne_zero fun x hx hw =>
    List.mem_toFinset.mpr (h x (List.mem_toFinset.mp hx) hw)

/-- **Disjoint majorities do not coexist**: of several lists that together weigh no more than the
total, one at most has more than half of it. -/
theorem countP_majority_le_one {w : α → ℕ} {total : ℕ} {parts : List (List α)}
    (h : (parts.flatten.map w).sum ≤ total) :
    parts.countP (fun part => decide (total < 2 * (part.map w).sum)) ≤ 1 := by
  have hcount : ∀ ps : List (List α),
      ps.countP (fun part => decide (total < 2 * (part.map w).sum)) * (total + 1)
        ≤ 2 * (ps.flatten.map w).sum := by
    intro ps
    induction ps with
    | nil => simp
    | cons part rest ih =>
      rw [List.countP_cons, List.flatten_cons, List.map_append, List.sum_append, Nat.add_mul]
      split
      · rename_i hpart
        rw [decide_eq_true_iff] at hpart
        omega
      · omega
  have hbound := hcount parts
  by_contra hmany
  have htwo : 2 * (total + 1)
      ≤ parts.countP (fun part => decide (total < 2 * (part.map w).sum)) * (total + 1) :=
    Nat.mul_le_mul_right _ (by omega)
  omega

/-! ## Majorities that wrap -/

/-- A list that outweighs a threshold, of entries that do not double it, has a prefix that doubles the
threshold without passing twice that. -/
theorem exists_light_prefix {w : α → ℕ} {d : ℕ} (xs : List α) (hlight : ∀ x ∈ xs, 2 * w x ≤ d)
    (h : d < 2 * (xs.map w).sum) :
    ∃ pre post, xs = pre ++ post ∧ d < 2 * (pre.map w).sum ∧ (pre.map w).sum ≤ d := by
  induction xs using List.reverseRecOn with
  | nil => exact absurd h (by simp)
  | append_singleton xs x ih =>
    by_cases hshorter : d < 2 * (xs.map w).sum
    · obtain ⟨pre, post, rfl, hpre⟩ := ih (fun y hy => hlight y (by simp [hy])) hshorter
      exact ⟨pre, post ++ [x], by simp, hpre⟩
    · have hx := hlight x (by simp)
      rw [List.map_append, List.sum_append, List.map_singleton, List.sum_singleton] at h
      refine ⟨xs ++ [x], [], by simp, ?_, ?_⟩ <;>
        rw [List.map_append, List.sum_append, List.map_singleton, List.sum_singleton] <;> omega

/-- **A total that wraps has two disjoint majorities**, each by its own wrapped weight. -/
theorem exists_two_wrapped_majorities {w : α → ℕ} {size : ℕ} (hsize : 0 < size) (xs : List α)
    (hfits : ∀ x ∈ xs, w x < size) (htotal : size ≤ (xs.map w).sum) :
    ∃ left right : List α, (left ++ right).Subperm xs ∧
      (xs.map w).sum % size < 2 * ((left.map w).sum % size) ∧
      (xs.map w).sum % size < 2 * ((right.map w).sum % size) := by
  generalize hd : (xs.map w).sum % size = d
  have hdlt : d < size := hd ▸ Nat.mod_lt _ hsize
  have hdle : d + size ≤ (xs.map w).sum := by
    have hdiv := Nat.div_add_mod (xs.map w).sum size
    have hone : size * 1 ≤ size * ((xs.map w).sum / size) :=
      Nat.mul_le_mul_left _ ((Nat.one_le_div_iff hsize).mpr htotal)
    omega
  -- an entry is heavy when it is a majority by itself
  have hperm : List.Perm ((xs.filter fun x => decide (d < 2 * w x)) ++
      xs.filter fun x => !decide (d < 2 * w x)) xs := List.filter_append_perm _ xs
  have hheavy : ∀ x ∈ xs.filter fun x => decide (d < 2 * w x), d < 2 * w x ∧ w x < size :=
    fun x hx => ⟨by simpa using (List.mem_filter.mp hx).2, hfits x (List.mem_filter.mp hx).1⟩
  have hlight : ∀ x ∈ xs.filter fun x => !decide (d < 2 * w x), 2 * w x ≤ d :=
    fun x hx => by simpa using (List.mem_filter.mp hx).2
  have hsum := (hperm.map w).sum_eq
  rw [List.map_append, List.sum_append] at hsum
  generalize xs.filter (fun x => decide (d < 2 * w x)) = heavy at hperm hheavy hsum
  generalize xs.filter (fun x => !decide (d < 2 * w x)) = light at hperm hlight hsum
  have hmod : ∀ {n : ℕ}, n < size → n % size = n := Nat.mod_eq_of_lt
  rcases heavy with _ | ⟨x, _ | ⟨y, rest⟩⟩
  · -- two prefixes of the light entries
    rw [List.map_nil, List.sum_nil, Nat.zero_add] at hsum
    obtain ⟨left, others, rfl, hleft, hleft'⟩ := exists_light_prefix light hlight (by omega)
    rw [List.map_append, List.sum_append] at hsum
    obtain ⟨right, rest, rfl, hright, hright'⟩ := exists_light_prefix others
      (fun x hx => hlight x (List.mem_append_right _ hx)) (by omega)
    refine ⟨left, right, ?_, ?_, ?_⟩
    · rw [List.nil_append, ← List.append_assoc] at hperm
      exact (List.sublist_append_left _ rest).subperm.trans hperm.subperm
    · rwa [hmod (by omega)]
    · rwa [hmod (by omega)]
  · -- the heavy entry, and a prefix of the light ones
    obtain ⟨hx, hxlt⟩ := hheavy x List.mem_cons_self
    rw [List.map_singleton, List.sum_singleton] at hsum
    obtain ⟨right, rest, rfl, hright, hright'⟩ := exists_light_prefix light hlight (by omega)
    refine ⟨[x], right, ?_, ?_, ?_⟩
    · rw [← List.append_assoc] at hperm
      exact (List.sublist_append_left _ rest).subperm.trans hperm.subperm
    · rwa [List.map_singleton, List.sum_singleton, hmod hxlt]
    · rwa [hmod (by omega)]
  · -- two heavy entries
    obtain ⟨hx, hxlt⟩ := hheavy x List.mem_cons_self
    obtain ⟨hy, hylt⟩ := hheavy y (List.mem_cons_of_mem _ List.mem_cons_self)
    refine ⟨[x], [y], ?_, ?_, ?_⟩
    · exact (List.sublist_append_left [x, y] (rest ++ light)).subperm.trans hperm.subperm
    · rwa [List.map_singleton, List.sum_singleton, hmod hxlt]
    · rwa [List.map_singleton, List.sum_singleton, hmod hylt]

end Majority
