import Mathlib.Data.List.Sort
import Mathlib.Data.Prod.Lex
import Mathlib.Algebra.Order.BigOperators.Ring.Finset

/-!
# Sorted lists and their runs

What an imperative program does with a sorted array: search it (`lowerBound?`), cut it into runs of
equal keys (`groupRuns`), drop repetitions (`unique`), and slice it by a table of offsets
(`offsets`, `slice`).  Each operation is the linear walk an implementation performs; over a sorted
list each has a simple meaning:

* `lowerBound?_eq_find?`: the search finds the first entry with the key;
* `mem_groupRuns`: the run of a key is the filter of the list at that key;
* `mem_unique`, `unique_pairwise_lt`: `unique` is the set of the list, in order;
* `slice_eq_filter`: the slice of a source is the filter of the list at that source.
-/

set_option autoImplicit false

namespace SortedList

variable {α κ : Type} [LinearOrder κ]

/-- A list is sorted by a key. -/
def SortedBy (key : α → κ) (l : List α) : Prop := l.Pairwise fun a b => key a ≤ key b

theorem sortedBy_insertionSort (key : α → κ) (l : List α) :
    SortedBy key (l.insertionSort fun a b => key a ≤ key b) := by
  have : Std.Total (fun a b : α => key a ≤ key b) := ⟨fun a b => le_total (key a) (key b)⟩
  have : IsTrans α (fun a b : α => key a ≤ key b) := ⟨fun _ _ _ => le_trans⟩
  exact List.pairwise_insertionSort _ _

/-- Sorted and with no two neighbours of one key is strictly sorted. -/
theorem SortedBy.pairwise_lt {key : α → κ} {l : List α} (h : SortedBy key l)
    (hne : l.IsChain fun a b => key a ≠ key b) : l.Pairwise fun a b => key a < key b := by
  have hlt : l.IsChain fun a b => key a < key b := by
    induction l with
    | nil => exact List.IsChain.nil
    | cons a l ih =>
      cases l with
      | nil => exact List.IsChain.singleton a
      | cons b rest =>
        rw [List.isChain_cons_cons] at hne ⊢
        have hab : key a ≤ key b := List.rel_of_pairwise_cons h List.mem_cons_self
        exact ⟨lt_of_le_of_ne hab hne.1, ih (List.Pairwise.of_cons h) hne.2⟩
  have htrans : IsTrans α fun a b => key a < key b := ⟨fun _ _ _ => lt_trans⟩
  exact hlt.pairwise

/-! ## Searching -/

/-- The entry a lower-bound search lands on, if it has the key. -/
def lowerBound? (key : α → κ) (l : List α) (k : κ) : Option α :=
  (l.dropWhile fun x => decide (key x < k)).head?.filter fun x => decide (key x = k)

theorem lowerBound?_eq_find? {key : α → κ} {l : List α} (h : SortedBy key l) (k : κ) :
    lowerBound? key l k = l.find? fun x => decide (key x = k) := by
  induction l with
  | nil => rfl
  | cons x xs ih =>
    have hxs : SortedBy key xs := List.Pairwise.of_cons h
    unfold lowerBound? at ih ⊢
    rw [List.dropWhile_cons, List.find?_cons]
    by_cases hlt : key x < k
    · rw [if_pos (by simpa using hlt), ih hxs]
      simp [ne_of_lt hlt]
    · rw [if_neg (by simpa using hlt)]
      by_cases heq : key x = k
      · simp [heq]
      · -- everything from here on lies strictly above the key
        have habove : ∀ y ∈ xs, key y ≠ k := by
          intro y hy hyk
          have hle := List.rel_of_pairwise_cons h hy
          exact heq (le_antisymm (hyk ▸ hle) (not_lt.mp hlt))
        have hnone : xs.find? (fun y => decide (key y = k)) = none :=
          List.find?_eq_none.mpr (by simpa using habove)
        simp [heq, hnone]

/-! ## Runs of equal keys -/

/-- The maximal runs of entries with one key, each with its key. -/
def groupRuns (key : α → κ) : List α → List (κ × List α)
  | [] => []
  | x :: xs =>
    match groupRuns key xs with
    | [] => [(key x, [x])]
    | (k, run) :: rest =>
      if k = key x then (k, x :: run) :: rest else (key x, [x]) :: (k, run) :: rest

/-- What the runs of a sorted list are: their keys increase, and each is a filter. -/
structure RunsOf (key : α → κ) (l : List α) (runs : List (κ × List α)) : Prop where
  keys_lt : (runs.map Prod.fst).Pairwise (· < ·)
  mem_iff : ∀ k run, (k, run) ∈ runs ↔ run = l.filter (fun x => decide (key x = k)) ∧ run ≠ []

theorem runsOf_groupRuns {key : α → κ} {l : List α} (h : SortedBy key l) :
    RunsOf key l (groupRuns key l) := by
  induction l with
  | nil =>
    refine ⟨List.Pairwise.nil, ?_⟩
    simp [groupRuns]
  | cons x xs ih =>
    have hx : ∀ y ∈ xs, key x ≤ key y := fun y hy => List.rel_of_pairwise_cons h hy
    obtain ⟨hkeys, hmem⟩ := ih (List.Pairwise.of_cons h)
    -- every key among the later runs is the key of a later entry
    have hle : ∀ k run, (k, run) ∈ groupRuns key xs → key x ≤ k := by
      intro k run hkr
      obtain ⟨hrun, hne⟩ := (hmem k run).mp hkr
      obtain ⟨y, hy⟩ := List.exists_mem_of_ne_nil run hne
      rw [hrun, List.mem_filter, decide_eq_true_eq] at hy
      exact hy.2 ▸ hx y hy.1
    have hfilter : ∀ k, (x :: xs).filter (fun y => decide (key y = k))
        = if key x = k then x :: xs.filter (fun y => decide (key y = k))
          else xs.filter (fun y => decide (key y = k)) := by
      intro k
      by_cases hk : key x = k <;> simp [hk]
    rw [groupRuns]
    cases hg : groupRuns key xs with
    | nil =>
      have hempty : ∀ k, xs.filter (fun y => decide (key y = k)) = [] := by
        intro k
        by_contra hne
        have := (hmem k _).mpr ⟨rfl, hne⟩
        rw [hg] at this
        exact List.not_mem_nil this
      refine ⟨by simp, fun k run => ?_⟩
      rw [hfilter k, hempty k]
      by_cases hk : key x = k <;> simp [hk] <;> grind
    | cons kr rest =>
      obtain ⟨k₀, run₀⟩ := kr
      rw [hg] at hkeys hmem hle
      have hk₀ := hle k₀ run₀ List.mem_cons_self
      have hrest : ∀ k run, (k, run) ∈ rest → k₀ < k := by
        intro k run hkr
        exact List.rel_of_pairwise_cons hkeys (List.mem_map_of_mem hkr)
      have hrun₀ := (hmem k₀ run₀).mp List.mem_cons_self
      dsimp only
      by_cases heq : k₀ = key x
      · rw [if_pos heq]
        refine ⟨hkeys, fun k run => ?_⟩
        rw [hfilter k, List.mem_cons, Prod.mk.injEq]
        by_cases hk : key x = k
        · rw [if_pos hk]
          have hkk : k = k₀ := hk ▸ heq.symm
          subst hkk
          rw [← hrun₀.1]
          constructor
          · rintro (⟨-, rfl⟩ | hkr)
            · exact ⟨rfl, List.cons_ne_nil _ _⟩
            · exact absurd (hrest _ _ hkr) (lt_irrefl _)
          · rintro ⟨rfl, -⟩
            exact .inl ⟨rfl, rfl⟩
        · rw [if_neg hk, ← hmem k run, List.mem_cons, Prod.mk.injEq]
          have hne : k ≠ k₀ := fun he => hk (he ▸ heq.symm)
          simp [hne]
      · rw [if_neg heq]
        have hlt : key x < k₀ := lt_of_le_of_ne hk₀ (Ne.symm heq)
        refine ⟨?_, fun k run => ?_⟩
        · refine List.Pairwise.cons ?_ hkeys
          intro k hk
          rcases List.mem_cons.mp hk with rfl | hk
          · exact hlt
          · obtain ⟨kr, hkr, rfl⟩ := List.mem_map.mp hk
            exact hlt.trans (hrest kr.1 kr.2 hkr)
        · rw [hfilter k, List.mem_cons, hmem k run, Prod.mk.injEq]
          by_cases hk : key x = k
          · rw [if_pos hk]
            have hempty : xs.filter (fun y => decide (key y = k)) = [] := by
              by_contra hne
              have hin := (hmem k _).mpr ⟨rfl, hne⟩
              rcases List.mem_cons.mp hin with hin | hin
              · rw [Prod.mk.injEq] at hin
                exact heq (hin.1 ▸ hk.symm)
              · exact absurd (hrest _ _ hin) (not_lt.mpr (hk ▸ hk₀))
            rw [hempty]
            constructor
            · rintro (⟨-, rfl⟩ | ⟨rfl, hne⟩)
              · exact ⟨rfl, List.cons_ne_nil _ _⟩
              · exact absurd rfl hne
            · rintro ⟨rfl, -⟩
              exact .inl ⟨hk.symm, rfl⟩
          · rw [if_neg hk]
            simp [Ne.symm hk]

theorem mem_groupRuns {key : α → κ} {l : List α} (h : SortedBy key l) {k : κ} {run : List α} :
    (k, run) ∈ groupRuns key l ↔ run = l.filter (fun x => decide (key x = k)) ∧ run ≠ [] :=
  (runsOf_groupRuns h).mem_iff k run

theorem groupRuns_sortedBy {key : α → κ} {l : List α} (h : SortedBy key l) :
    (groupRuns key l).Pairwise fun a b => a.1 < b.1 :=
  List.pairwise_map.mp (runsOf_groupRuns h).keys_lt

/-- The run of a key, looked up among the runs of a sorted list, is a filter of it. -/
theorem find?_groupRuns {key : α → κ} {l : List α} (h : SortedBy key l) (k : κ) :
    ((groupRuns key l).find? fun kr => decide (kr.1 = k))
      = if l.any (fun x => decide (key x = k)) then
          some (k, l.filter fun x => decide (key x = k))
        else none := by
  by_cases hany : l.any (fun x => decide (key x = k)) = true
  · rw [if_pos hany]
    obtain ⟨x, hx, hk⟩ := List.any_eq_true.mp hany
    have hne : l.filter (fun x => decide (key x = k)) ≠ [] :=
      List.ne_nil_of_mem (List.mem_filter.mpr ⟨hx, hk⟩)
    have hmem := (mem_groupRuns h).mpr ⟨rfl, hne⟩
    cases hf : (groupRuns key l).find? fun kr => decide (kr.1 = k) with
    | none =>
      have := List.find?_eq_none.mp hf _ hmem
      simp at this
    | some kr =>
      have hk' : kr.1 = k := by simpa using List.find?_some hf
      have hkr := List.mem_of_find?_eq_some hf
      have := ((mem_groupRuns h).mp (show (kr.1, kr.2) ∈ groupRuns key l from hkr)).1
      rw [hk'] at this
      rw [← hk', Option.some.injEq]
      exact Prod.ext rfl (by rw [this, hk'])
  · rw [if_neg hany]
    refine List.find?_eq_none.mpr ?_
    rintro ⟨k', run⟩ hkr hk
    obtain ⟨hrun, hne⟩ := (mem_groupRuns h).mp hkr
    obtain ⟨y, hy⟩ := List.exists_mem_of_ne_nil run hne
    rw [hrun, List.mem_filter] at hy
    refine hany (List.any_eq_true.mpr ⟨y, hy.1, ?_⟩)
    simp only [decide_eq_true_eq] at hk hy ⊢
    exact hy.2.trans hk

/-! ## Dropping repetitions -/

/-- Keep the first entry of each run of equal entries. -/
def unique (l : List κ) : List κ := (groupRuns id l).map Prod.fst

theorem unique_pairwise_lt {l : List κ} (h : l.Pairwise (· ≤ ·)) : (unique l).Pairwise (· < ·) :=
  (@runsOf_groupRuns κ κ _ id l h).keys_lt

theorem mem_unique {l : List κ} (h : l.Pairwise (· ≤ ·)) {k : κ} : k ∈ unique l ↔ k ∈ l := by
  have hruns : ∀ run, (k, run) ∈ groupRuns id l ↔ _ := fun run =>
    (@runsOf_groupRuns κ κ _ id l h).mem_iff k run
  unfold unique
  simp only [List.mem_map, Prod.exists, exists_and_right, exists_eq_right]
  constructor
  · rintro ⟨run, hrun⟩
    obtain ⟨hrun, hne⟩ := (hruns run).mp hrun
    obtain ⟨y, hy⟩ := List.exists_mem_of_ne_nil run hne
    rw [hrun, List.mem_filter, decide_eq_true_eq, id_eq] at hy
    exact hy.2 ▸ hy.1
  · intro hk
    refine ⟨_, (hruns _).mpr ⟨rfl, ?_⟩⟩
    exact List.ne_nil_of_mem (List.mem_filter.mpr ⟨hk, by simp⟩)

/-! ## Slicing by offsets -/

/-- The running sums of a list, starting with the initial value. -/
def prefixSums : Nat → List Nat → List Nat
  | acc, [] => [acc]
  | acc, x :: xs => acc :: prefixSums (acc + x) xs

theorem prefixSums_getD (xs : List Nat) :
    ∀ (acc i : Nat), i ≤ xs.length → (prefixSums acc xs).getD i 0 = acc + (xs.take i).sum := by
  induction xs with
  | nil =>
    intro acc i hi
    obtain rfl : i = 0 := by simpa using hi
    simp [prefixSums]
  | cons x xs ih =>
    intro acc i hi
    cases i with
    | zero => simp [prefixSums]
    | succ i =>
      have := ih (acc + x) i (by simpa using hi)
      simp only [prefixSums, List.getD_cons_succ, List.take_succ_cons, List.sum_cons]
      omega

/-- The offset table of a list sorted by source: where the entries of each source start, and at the
end where the last ones stop. -/
def offsets (key : α → Nat) (count : Nat) (l : List α) : List Nat :=
  prefixSums 0 ((List.range count).map fun s => l.countP fun x => key x == s)

/-- The entries between the offsets of a source and of the next one. -/
def slice (key : α → Nat) (count : Nat) (l : List α) (s : Nat) : List α :=
  let first := (offsets key count l).getD s 0
  let last := (offsets key count l).getD (s + 1) 0
  (l.drop first).take (last - first)

theorem sum_countP_range (key : α → Nat) (l : List α) (s : Nat) :
    ((List.range s).map fun r => l.countP fun x => key x == r).sum
      = l.countP fun x => decide (key x < s) := by
  induction s with
  | zero => simp
  | succ s ih =>
    rw [List.range_succ, List.map_append, List.sum_append, ih]
    clear ih
    induction l with
    | nil => simp
    | cons x xs ih =>
      simp only [List.map_cons, List.map_nil, List.sum_cons, List.sum_nil, List.countP_cons] at ih ⊢
      by_cases h1 : key x < s
      · have h2 : key x ≠ s := by omega
        have h3 : key x < s + 1 := by omega
        simp only [h1, h2, h3, decide_true, beq_iff_eq, if_true, if_false]
        omega
      · by_cases h2 : key x = s
        · simp only [h2, lt_irrefl, decide_false, Bool.false_eq_true, if_false, beq_self_eq_true,
            Nat.lt_succ_self, decide_true, if_true]
          omega
        · have h3 : ¬ key x < s + 1 := by omega
          simp only [h1, h2, h3, decide_false, beq_iff_eq, Bool.false_eq_true, if_false]
          omega

theorem offsets_getD (key : α → Nat) {count : Nat} (l : List α) {s : Nat} (hs : s ≤ count) :
    (offsets key count l).getD s 0 = l.countP fun x => decide (key x < s) := by
  rw [offsets, prefixSums_getD _ _ _ (by simpa using hs), ← sum_countP_range, Nat.zero_add,
    ← List.map_take, List.take_range, Nat.min_eq_left hs]

theorem slice_eq_filter {key : α → Nat} {count : Nat} {l : List α} (h : SortedBy key l) {s : Nat}
    (hs : s < count) : slice key count l s = l.filter fun x => key x == s := by
  unfold slice
  rw [offsets_getD key l (Nat.le_of_lt hs), offsets_getD key l hs]
  induction l with
  | nil => simp
  | cons x xs ih =>
    have hxs := ih (List.Pairwise.of_cons h)
    dsimp only at hxs ⊢
    simp only [List.countP_cons, decide_eq_true_eq, List.filter_cons, beq_iff_eq]
    -- the head lies before the slice, in it, or past it, and then so does everything after it
    rcases Nat.lt_trichotomy (key x) s with hlt | heq | hgt
    · rw [if_pos hlt, if_pos (show key x < s + 1 by omega), if_neg (show ¬ key x = s by omega),
        List.drop_succ_cons, Nat.add_sub_add_right]
      exact hxs
    · have hnone : xs.countP (fun y => decide (key y < s)) = 0 := by
        rw [List.countP_eq_zero]
        intro y hy
        have := List.rel_of_pairwise_cons h hy
        simp only [decide_eq_true_eq]
        omega
      rw [hnone] at hxs ⊢
      rw [if_neg (show ¬ key x < s by omega), if_pos (show key x < s + 1 by omega), if_pos heq]
      simpa using hxs
    · have hnone : ∀ m, m ≤ s + 1 → m ≤ key x → xs.countP (fun y => decide (key y < m)) = 0 := by
        intro m _ hm
        rw [List.countP_eq_zero]
        intro y hy
        have := List.rel_of_pairwise_cons h hy
        simp only [decide_eq_true_eq]
        omega
      rw [hnone s (by omega) (by omega), hnone (s + 1) le_rfl (by omega)] at hxs ⊢
      rw [if_neg (show ¬ key x < s by omega), if_neg (show ¬ key x < s + 1 by omega),
        if_neg (show ¬ key x = s by omega)]
      simpa using hxs

end SortedList
