import FabricPartition.Resolution
import Mathlib.Algebra.BigOperators.Group.Finset.Basic
import Mathlib.Algebra.BigOperators.Intervals
import Mathlib.Algebra.Order.BigOperators.Ring.Finset
import Mathlib.Data.Finset.Prod

/-!
# Exact pair accounting

The counters of a snapshot are closed forms over rows, coverage counts, expired keys and component
sizes.  This module shows each of them to be the number it stands for: how many of the `n (n - 1)`
ordered pairs resolve one way, cross a component boundary, and so on.

The counting is done source by source.  `others n s` are the targets of a source, `ctx.targets s`
the observed ones among them; `Regular` says how a pair resolves on either side of that split, and
every closed form is the cardinality of a filter of `others n s`, cut along it.  The no-underflow
facts fall out of the same cardinalities, because every subtrahend counts a part of what its
minuend counts.
-/

set_option autoImplicit false

namespace FabricPartition

open SortedList Finset

/-! ## Counting lists by finite sets -/

/-- The targets of a source: every other index. -/
def others (n s : Nat) : Finset Nat := (range n).erase s

theorem mem_others {n s t : Nat} : t ∈ others n s ↔ t < n ∧ t ≠ s := by
  rw [others, mem_erase, mem_range, and_comm]

theorem card_others {n s : Nat} (hs : s < n) : (others n s).card = n - 1 := by
  rw [others, card_erase_of_mem (mem_range.mpr hs), card_range]

theorem countP_eq_card {α : Type} [DecidableEq α] {l : List α} (h : l.Nodup) (p : α → Bool) :
    l.countP p = (l.toFinset.filter fun x => p x = true).card := by
  rw [List.countP_eq_length_filter, ← List.toFinset_card_of_nodup (h.filter _),
    List.toFinset_filter]

/-- Cutting a count along a set. -/
theorem card_filter_split {S T : Finset Nat} (p : Nat → Prop) [DecidablePred p] :
    (S.filter p).card = (S.filter fun t => t ∈ T ∧ p t).card
      + (S.filter fun t => t ∉ T ∧ p t).card := by
  rw [← card_filter_add_card_filter_not (s := S.filter p) (fun t => t ∈ T), filter_filter,
    filter_filter]
  simp only [and_comm]

/-- The keys of one source, counted by their targets. -/
theorem countP_keys {keys : List PairKey} (hkeys : keys.Nodup) {n s : Nat}
    (hlt : ∀ k ∈ keys, keyTarget k < n) (p : Nat → Prop) [DecidablePred p] :
    keys.countP (fun k => keySource k == s && decide (p (keyTarget k)))
      = ((range n).filter fun t => pairKey s t ∈ keys ∧ p t).card := by
  rw [countP_eq_card hkeys]
  refine card_bij (fun k _ => keyTarget k) ?_ ?_ ?_
  · intro k hk
    simp only [mem_filter, List.mem_toFinset, Bool.and_eq_true, beq_iff_eq, decide_eq_true_eq] at hk
    obtain ⟨hk, rfl, hp⟩ := hk
    exact mem_filter.mpr ⟨mem_range.mpr (hlt k hk), by rwa [pairKey_eta], hp⟩
  · intro k hk k' hk' heq
    simp only [mem_filter, Bool.and_eq_true, beq_iff_eq] at hk hk'
    rw [← pairKey_eta k, ← pairKey_eta k', hk.2.1, hk'.2.1, heq]
  · intro t ht
    simp only [mem_filter] at ht
    refine ⟨pairKey s t, ?_, rfl⟩
    simp [ht.2.1, ht.2.2]

theorem sumOver_eq_sum (n : Nat) (f : Nat → Nat) :
    ResolutionContext.sumOver n f = ∑ s ∈ range n, f s := by
  induction n with
  | zero => rfl
  | succ n ih =>
    have hsucc : ResolutionContext.sumOver (n + 1) f = ResolutionContext.sumOver n f + f n := by
      simp [ResolutionContext.sumOver, List.range_succ]
    rw [hsucc, ih, sum_range_succ]

/-! ## The rows of a regular context -/

namespace ResolutionContext

/-- The observed targets of a source. -/
def targets (ctx : ResolutionContext) (s : Nat) : Finset Nat :=
  ((ctx.ordered.row s).map OrderedRow.target).toFinset

namespace Regular

variable {ctx : ResolutionContext} {n : Nat} (h : ctx.Regular n) {s t : Nat} (hs : s < n)

include h

theorem row_nodup (hs : s < n) : ((ctx.ordered.row s).map OrderedRow.target).Nodup :=
  List.pairwise_map.mpr ((h.row_lt s hs).imp fun h => Nat.ne_of_lt h)

theorem targets_subset (hs : s < n) : ctx.targets s ⊆ others n s := by
  intro t ht
  obtain ⟨r, hr, rfl⟩ := List.mem_map.mp (List.mem_toFinset.mp ht)
  exact mem_others.mpr (h.row_mem s hs r hr)

omit h in
theorem notMem_targets_iff : t ∉ ctx.targets s ↔ ∀ r ∈ ctx.ordered.row s, r.target ≠ t := by
  simp [targets]

theorem countP_row (hs : s < n) (p : Nat → Prop) [DecidablePred p] :
    (ctx.ordered.row s).countP (fun r => decide (p r.target))
      = ((others n s).filter fun t => t ∈ ctx.targets s ∧ p t).card := by
  have hmap : (ctx.ordered.row s).countP (fun r => decide (p r.target))
      = ((ctx.ordered.row s).map OrderedRow.target).countP fun t => decide (p t) := by
    rw [List.countP_map]
    rfl
  rw [hmap, countP_eq_card (h.row_nodup hs)]
  congr 1
  ext t
  simp only [mem_filter, decide_eq_true_eq]
  constructor
  · rintro ⟨ht, hp⟩
    exact ⟨h.targets_subset hs ht, ht, hp⟩
  · rintro ⟨-, ht, hp⟩
    exact ⟨ht, hp⟩

theorem observedTargets_eq (hs : s < n) : ctx.observedTargets s = (ctx.targets s).card := by
  rw [observedTargets, targets, List.toFinset_card_of_nodup (h.row_nodup hs), List.length_map]

theorem observedTargets_le (hs : s < n) : ctx.observedTargets s ≤ n - 1 := by
  rw [h.observedTargets_eq hs, ← card_others hs]
  exact card_le_card (h.targets_subset hs)

/-- The unobserved pairs of a source. -/
theorem unobserved_eq (hs : s < n) :
    ctx.unobserved n s = ((others n s).filter fun t => t ∉ ctx.targets s).card := by
  have hsdiff : ((others n s).filter fun t => t ∉ ctx.targets s) = others n s \ ctx.targets s := by
    ext t
    simp
  rw [unobserved, h.observedTargets_eq hs, hsdiff, card_sdiff_of_subset (h.targets_subset hs),
    card_others hs]

theorem staleOnlyTargets_eq (hs : s < n) :
    ctx.staleOnlyTargets s = ((others n s).filter fun t =>
      t ∉ ctx.targets s ∧ pairKey s t ∈ ctx.stale.keys).card := by
  have hnodup : ctx.stale.keys.Nodup := h.stale_lt.imp fun h => ne_of_lt h
  have hcount := countP_keys (n := n) (s := s) hnodup (fun k hk => (h.stale_mem k hk).2.1)
    fun t => t ∉ ctx.targets s
  have hfun : ctx.staleOnlyTargets s = ctx.stale.keys.countP
      (fun k => keySource k == s && decide (keyTarget k ∉ ctx.targets s)) := by
    refine List.countP_congr fun k _ => ?_
    simp only [Bool.and_eq_true, beq_iff_eq, decide_eq_true_eq]
    refine and_congr_right fun hk => ?_
    rw [hk, h.lookup_none s hs, notMem_targets_iff]
  rw [hfun, hcount]
  congr 1
  ext t
  simp only [mem_filter, mem_range, mem_others]
  constructor
  · rintro ⟨ht, hk, hnot⟩
    exact ⟨⟨ht, Ne.symm (h.stale_mem _ hk).2.2⟩, hnot, hk⟩
  · rintro ⟨⟨ht, -⟩, hnot, hk⟩
    exact ⟨ht, hk, hnot⟩

theorem staleOnlyTargets_le (hs : s < n) : ctx.staleOnlyTargets s ≤ ctx.unobserved n s := by
  rw [h.staleOnlyTargets_eq hs, h.unobserved_eq hs]
  exact card_le_card fun t ht => by
    simp only [mem_filter] at ht ⊢
    exact ⟨ht.1, ht.2.1⟩

/-! ## The tally of a source -/

omit h in
/-- How many pairs of a source resolve one way. -/
def resolvedCount (ctx : ResolutionContext) (n s : Nat) (r : PairResolution) : Nat :=
  ((others n s).filter fun t => ctx.resolveOrdered s t = r).card

theorem rowCount_eq (hs : s < n) (r : PairResolution) :
    ctx.rowCount s r = ((others n s).filter fun t =>
      t ∈ ctx.targets s ∧ ctx.resolveOrdered s t = r).card := by
  rw [← h.countP_row hs fun t => ctx.resolveOrdered s t = r]
  exact List.countP_congr fun row _ => by simp

theorem resolvedCount_split (hs : s < n) (r : PairResolution) :
    resolvedCount ctx n s r = ctx.rowCount s r
      + ((others n s).filter fun t => t ∉ ctx.targets s ∧ ctx.resolveOrdered s t = r).card := by
  rw [h.rowCount_eq hs]
  exact card_filter_split _

/-- An observed pair never resolves stale or unknown. -/
theorem rowCount_unresolved (hs : s < n) {r : PairResolution} (hr : r = .stale ∨ r = .unknown) :
    ctx.rowCount s r = 0 := by
  rw [rowCount, List.countP_eq_zero]
  intro row hrow hres
  have := h.resolve_observed s hs row hrow
  rw [beq_iff_eq] at hres
  rw [hres] at this
  rcases hr with rfl | rfl <;> simp at this

/-- The unobserved pairs of a covered source all resolve unreachable. -/
theorem unobserved_covered (hs : s < n) (hc : ctx.covering s ≠ 0) (r : PairResolution) :
    ((others n s).filter fun t => t ∉ ctx.targets s ∧ ctx.resolveOrdered s t = r).card
      = if r = .unreachable then ctx.unobserved n s else 0 := by
  have hres : ∀ t, t ∉ ctx.targets s → ctx.resolveOrdered s t = .unreachable := fun t ht =>
    h.resolve_covered s hs t (notMem_targets_iff.mp ht) hc
  split
  · rename_i hr
    subst hr
    rw [h.unobserved_eq hs]
    congr 1
    exact filter_congr fun t _ => ⟨fun ht => ht.1, fun ht => ⟨ht, hres t ht⟩⟩
  · rename_i hr
    rw [card_eq_zero, filter_eq_empty_iff]
    rintro t - ⟨ht, hrt⟩
    exact hr (hrt.symm.trans (hres t ht))

/-- The unobserved pairs of an uncovered source resolve stale or unknown. -/
theorem unobserved_uncovered (hs : s < n) (hc : ctx.covering s = 0) (r : PairResolution) :
    ((others n s).filter fun t => t ∉ ctx.targets s ∧ ctx.resolveOrdered s t = r).card
      = if r = .stale then ctx.staleOnlyTargets s
        else if r = .unknown then ctx.unobserved n s - ctx.staleOnlyTargets s else 0 := by
  have hres : ∀ t, t ∉ ctx.targets s → ctx.resolveOrdered s t
      = if pairKey s t ∈ ctx.stale.keys then .stale else .unknown := fun t ht =>
    h.resolve_uncovered s hs t (notMem_targets_iff.mp ht) hc
  by_cases hstale : r = .stale
  · subst hstale
    rw [if_pos rfl, h.staleOnlyTargets_eq hs]
    congr 1
    refine filter_congr fun t _ => and_congr_right fun ht => ?_
    rw [hres t ht]
    split <;> simp [*]
  · rw [if_neg hstale]
    by_cases hunknown : r = .unknown
    · subst hunknown
      rw [if_pos rfl, h.staleOnlyTargets_eq hs, h.unobserved_eq hs, ← card_sdiff_of_subset]
      · congr 1
        ext t
        simp only [mem_filter, mem_sdiff, not_and]
        constructor
        · rintro ⟨ht, hnot, hr⟩
          refine ⟨⟨ht, hnot⟩, fun _ _ hk => ?_⟩
          rw [hres t hnot, if_pos hk] at hr
          cases hr
        · rintro ⟨⟨ht, hnot⟩, hk⟩
          refine ⟨ht, hnot, ?_⟩
          rw [hres t hnot, if_neg (hk ht hnot)]
      · intro t ht
        simp only [mem_filter] at ht ⊢
        exact ⟨ht.1, ht.2.1⟩
    · rw [if_neg hunknown, card_eq_zero, filter_eq_empty_iff]
      rintro t - ⟨ht, hrt⟩
      rw [hres t ht] at hrt
      split at hrt
      · exact hstale hrt.symm
      · exact hunknown hrt.symm

/-- **The tally of a source is the classification of its pairs.** -/
theorem tallySource_eq (hs : s < n) :
    ctx.tallySource n s = ⟨resolvedCount ctx n s .reachable, resolvedCount ctx n s .unreachable,
      resolvedCount ctx n s .conflicting, resolvedCount ctx n s .stale,
      resolvedCount ctx n s .unknown⟩ := by
  have hstale := h.rowCount_unresolved hs (.inl rfl)
  have hunknown := h.rowCount_unresolved hs (.inr rfl)
  simp only [h.resolvedCount_split hs]
  by_cases hc : ctx.covering s = 0
  · rw [tallySource, if_neg (not_not.mpr hc)]
    simp [h.unobserved_uncovered hs hc, hunknown]
  · rw [tallySource, if_pos hc]
    simp [h.unobserved_covered hs hc, hunknown]

omit h in
/-- Every pair of a source is classified, once. -/
theorem resolvedCount_sum (ctx : ResolutionContext) (hs : s < n) :
    resolvedCount ctx n s .reachable + resolvedCount ctx n s .unreachable
      + resolvedCount ctx n s .conflicting + resolvedCount ctx n s .stale
      + resolvedCount ctx n s .unknown = n - 1 := by
  have hfive : ∀ t, ctx.resolveOrdered s t ≠ .asymmetric := by
    intro t
    rw [resolveOrdered]
    split_ifs <;> simp
  rw [← card_others hs]
  simp only [resolvedCount, card_filter]
  rw [← sum_add_distrib, ← sum_add_distrib, ← sum_add_distrib, ← sum_add_distrib, card_eq_sum_ones]
  refine sum_congr rfl fun t _ => ?_
  have := hfive t
  cases hr : ctx.resolveOrdered s t <;> simp_all

/-! ## Reverse directions -/

theorem resolve_eq_unknown_iff (hs : s < n) (t : Nat) :
    ctx.resolveOrdered s t = .unknown ↔
      ctx.covering s = 0 ∧ t ∉ ctx.targets s ∧ pairKey s t ∉ ctx.stale.keys := by
  by_cases ht : t ∈ ctx.targets s
  · obtain ⟨r, hr, rfl⟩ := List.mem_map.mp (List.mem_toFinset.mp ht)
    have := h.resolve_observed s hs r hr
    constructor
    · intro hu
      simp [hu] at this
    · exact fun hu => absurd ht hu.2.1
  · by_cases hc : ctx.covering s = 0
    · rw [h.resolve_uncovered s hs t (notMem_targets_iff.mp ht) hc]
      by_cases hk : pairKey s t ∈ ctx.stale.keys <;> simp [hk, hc, ht]
    · rw [h.resolve_covered s hs t (notMem_targets_iff.mp ht) hc]
      simp [hc]

theorem mem_reverseKeys (hs : s < n) :
    pairKey s t ∈ ctx.reverseKeys n ↔
      t < n ∧ ctx.covering t = 0 ∧ (s ∈ ctx.targets t ∨ pairKey t s ∈ ctx.stale.keys) := by
  rw [reverseKeys, mem_unique (List.pairwise_insertionSort _ _),
    (List.perm_insertionSort _ _).mem_iff, List.mem_append, List.mem_flatMap]
  have hfresh : (∃ a ∈ (List.range n).filter (fun source => ctx.covering source == 0),
      pairKey s t ∈ (ctx.ordered.row a).map fun row => pairKey row.target a) ↔
      t < n ∧ ctx.covering t = 0 ∧ s ∈ ctx.targets t := by
    constructor
    · rintro ⟨a, ha, hk⟩
      obtain ⟨row, hrow, heq⟩ := List.mem_map.mp hk
      obtain ⟨rfl, rfl⟩ := pairKey_inj.mp heq
      simp only [List.mem_filter, List.mem_range, beq_iff_eq] at ha
      exact ⟨ha.1, ha.2, List.mem_toFinset.mpr (List.mem_map_of_mem hrow)⟩
    · rintro ⟨htn, hc, hmem⟩
      obtain ⟨row, hrow, rfl⟩ := List.mem_map.mp (List.mem_toFinset.mp hmem)
      refine ⟨t, ?_, List.mem_map.mpr ⟨row, hrow, rfl⟩⟩
      simp [htn, hc]
  have hstale : pairKey s t ∈ (ctx.stale.keys.filter fun key =>
      ctx.covering (keySource key) == 0).map (fun key => pairKey (keyTarget key) (keySource key)) ↔
      t < n ∧ ctx.covering t = 0 ∧ pairKey t s ∈ ctx.stale.keys := by
    constructor
    · intro hrev
      obtain ⟨k, hmem, heq⟩ := List.mem_map.mp hrev
      obtain ⟨rfl, rfl⟩ := pairKey_inj.mp heq
      obtain ⟨hk, hc⟩ := List.mem_filter.mp hmem
      exact ⟨(h.stale_mem k hk).1, beq_iff_eq.mp hc, by rw [pairKey_eta]; exact hk⟩
    · rintro ⟨-, hc, hk⟩
      refine List.mem_map.mpr ⟨pairKey t s, ?_, rfl⟩
      simp [hk, hc]
  rw [hfresh, hstale, ← and_or_left, ← and_or_left]

omit h in
theorem reverseKeys_nodup (ctx : ResolutionContext) (n : Nat) : (ctx.reverseKeys n).Nodup :=
  (unique_pairwise_lt (List.pairwise_insertionSort _ _)).imp fun h => ne_of_lt h

theorem reverseTouch_eq (hs : s < n) :
    ctx.reverseTouch n s = ((others n s).filter fun t => ctx.covering t = 0
      ∧ (s ∈ ctx.targets t ∨ pairKey t s ∈ ctx.stale.keys)).card := by
  have hcount : ctx.reverseTouch n s = (ctx.reverseKeys n).countP
      (fun k => keySource k == s && decide (keyTarget k < n)) := by
    refine List.countP_congr fun k hk => ?_
    simp only [beq_iff_eq, Bool.and_eq_true, decide_eq_true_eq, iff_self_and]
    intro hks
    rw [← pairKey_eta k, hks, h.mem_reverseKeys hs] at hk
    exact hk.1
  -- a source never touches itself
  have hself : ∀ t, t < n → (s ∈ ctx.targets t ∨ pairKey t s ∈ ctx.stale.keys) → t ≠ s := by
    rintro t htn (hm | hk) rfl
    · exact (mem_others.mp (h.targets_subset htn hm)).2 rfl
    · exact (h.stale_mem _ hk).2.2 rfl
  rw [hcount, countP_eq_card (reverseKeys_nodup ctx n)]
  refine card_bij (fun k _ => keyTarget k) ?_ ?_ ?_
  · intro k hk
    simp only [mem_filter, List.mem_toFinset, Bool.and_eq_true, beq_iff_eq] at hk
    obtain ⟨hk, hks, -⟩ := hk
    rw [← pairKey_eta k, hks, h.mem_reverseKeys hs] at hk
    exact mem_filter.mpr ⟨mem_others.mpr ⟨hk.1, hself _ hk.1 hk.2.2⟩, hk.2⟩
  · intro k hk k' hk' heq
    simp only [mem_filter, Bool.and_eq_true, beq_iff_eq] at hk hk'
    rw [← pairKey_eta k, ← pairKey_eta k', hk.2.1, hk'.2.1, heq]
  · intro t ht
    simp only [mem_filter, mem_others] at ht
    refine ⟨pairKey s t, ?_, rfl⟩
    have := (h.mem_reverseKeys hs).mpr ⟨ht.1.1, ht.2⟩
    simp [this, ht.1.1]

omit h in
theorem coveredSourceTotal_eq (ctx : ResolutionContext) (hs : s < n) :
    ctx.coveredSourceTotal n = ((others n s).filter fun t => ctx.covering t ≠ 0).card
      + if ctx.covering s ≠ 0 then 1 else 0 := by
  have hcard : ctx.coveredSourceTotal n = ((range n).filter fun t => ctx.covering t ≠ 0).card := by
    rw [coveredSourceTotal, countP_eq_card List.nodup_range]
    congr 1
    ext t
    simp
  rw [hcard, ← insert_erase (mem_range.mpr hs), filter_insert]
  split
  · rw [card_insert_of_notMem (by simp)]
    rfl
  · rfl

/-- The reverse directions of a source that do not resolve unknown. -/
theorem nonUnknownReverse_eq (hs : s < n) :
    ctx.nonUnknownReverse n s
      = ((others n s).filter fun t => ctx.resolveOrdered t s ≠ .unknown).card := by
  rw [nonUnknownReverse, coveredSourceTotal_eq ctx hs, Nat.add_sub_cancel, h.reverseTouch_eq hs,
    ← card_union_of_disjoint]
  · congr 1
    ext t
    simp only [mem_union, mem_filter, mem_others]
    constructor
    · rintro (⟨ht, hc⟩ | ⟨ht, -, hm⟩)
      · refine ⟨ht, fun hu => hc ((h.resolve_eq_unknown_iff ht.1 s).mp hu).1⟩
      · refine ⟨ht, fun hu => ?_⟩
        obtain ⟨-, h1, h2⟩ := (h.resolve_eq_unknown_iff ht.1 s).mp hu
        exact hm.elim h1 h2
    · rintro ⟨ht, hu⟩
      by_cases hc : ctx.covering t = 0
      · refine .inr ⟨ht, hc, ?_⟩
        by_contra hno
        rw [not_or] at hno
        exact hu ((h.resolve_eq_unknown_iff ht.1 s).mpr ⟨hc, hno⟩)
      · exact .inl ⟨ht, hc⟩
  · rw [disjoint_filter]
    rintro t - hc ⟨hc', -⟩
    exact hc hc'

theorem nonUnknownReverse_le (hs : s < n) : ctx.nonUnknownReverse n s ≤ n - 1 := by
  rw [h.nonUnknownReverse_eq hs, ← card_others hs]
  exact card_filter_le _ _

theorem reverse_unknown_eq (hs : s < n) :
    (n - 1) - ctx.nonUnknownReverse n s
      = ((others n s).filter fun t => ctx.resolveOrdered t s = .unknown).card := by
  have hsplit := card_filter_add_card_filter_not (s := others n s)
    (fun t => ctx.resolveOrdered t s = .unknown)
  rw [card_others hs] at hsplit
  simp only [h.nonUnknownReverse_eq hs, ne_eq]
  omega

omit h in
/-- The guarded decrements of the asymmetry loop. -/
theorem foldl_decrement {α : Type} (l : List α) (p q : α → Prop) [DecidablePred p] [DecidablePred q]
    (value : Nat) :
    l.foldl (fun value x => if ¬ p x then value else if q x ∧ value > 0 then value - 1 else value)
        value
      = value - l.countP fun x => decide (p x ∧ q x) := by
  induction l generalizing value with
  | nil => rfl
  | cons x l ih =>
    rw [List.foldl_cons, ih, List.countP_cons]
    by_cases hp : p x <;> by_cases hq : q x <;> by_cases hv : value > 0 <;>
      simp only [hp, hq, hv, and_self, and_true, and_false, not_true_eq_false, not_false_eq_true,
        decide_true, decide_false, Bool.false_eq_true, if_true, if_false] <;>
      omega

/-- The determined pairs of a source whose reverse is unknown. -/
theorem asymmetricFrom_eq (hs : s < n) :
    ctx.asymmetricFrom n s = ((others n s).filter fun t =>
      (ctx.resolveOrdered s t).isProven = true ∧ ctx.resolveOrdered t s = .unknown).card := by
  by_cases hc : ctx.covering s = 0
  · rw [asymmetricFrom, if_neg (not_not.mpr hc)]
    have hrow := h.countP_row hs fun t =>
      (ctx.resolveOrdered s t).isProven = true ∧ ctx.resolveOrdered t s = .unknown
    have hfun : (ctx.ordered.row s).countP (fun row =>
        (ctx.resolveOrdered s row.target == .reachable
          || ctx.resolveOrdered s row.target == .unreachable)
          && ctx.resolveOrdered row.target s == .unknown)
        = (ctx.ordered.row s).countP fun row => decide ((ctx.resolveOrdered s row.target).isProven
            = true ∧ ctx.resolveOrdered row.target s = .unknown) := by
      refine List.countP_congr fun row _ => ?_
      rw [decide_eq_true_eq, Bool.and_eq_true, beq_iff_eq]
      rfl
    rw [hfun, hrow]
    congr 1
    -- outside the row an uncovered source has proven nothing
    refine filter_congr fun t _ => and_iff_right_of_imp fun hp => ?_
    by_contra ht
    have hres := h.resolve_uncovered s hs t (notMem_targets_iff.mp ht) hc
    rw [hres] at hp
    split at hp
    · exact absurd hp.1 (by decide)
    · exact absurd hp.1 (by decide)
  · rw [asymmetricFrom, if_pos hc, h.reverse_unknown_eq hs]
    have hfold := foldl_decrement (ctx.ordered.row s)
      (fun row => ctx.resolveOrdered row.target s = .unknown)
      (fun row => ctx.resolveOrdered s row.target = .conflicting)
      ((others n s).filter fun t => ctx.resolveOrdered t s = .unknown).card
    rw [hfold, h.countP_row hs fun t =>
      ctx.resolveOrdered t s = .unknown ∧ ctx.resolveOrdered s t = .conflicting,
      ← card_sdiff_of_subset]
    · congr 1
      ext t
      simp only [mem_sdiff, mem_filter, mem_others, not_and]
      constructor
      · rintro ⟨⟨ht, hu⟩, hno⟩
        refine ⟨ht, ?_, hu⟩
        by_cases hm : t ∈ ctx.targets s
        · obtain ⟨r, hr, rfl⟩ := List.mem_map.mp (List.mem_toFinset.mp hm)
          rcases h.resolve_observed s hs r hr with hres | hres | hres
          · rw [hres]; rfl
          · rw [hres]; rfl
          · exact absurd hres (hno ht hm hu)
        · rw [h.resolve_covered s hs t (notMem_targets_iff.mp hm) hc]
          rfl
      · rintro ⟨ht, hp, hu⟩
        refine ⟨⟨ht, hu⟩, fun _ _ _ hconf => ?_⟩
        rw [hconf] at hp
        exact absurd hp (by decide)
    · intro t ht
      simp only [mem_filter] at ht ⊢
      exact ⟨ht.1, ht.2.2.1⟩

/-- Every reachable pair stands in its source's row, with the reachable flag. -/
theorem mem_targets_of_reachable (hs : s < n) (hr : ctx.resolveOrdered s t = .reachable) :
    t ∈ ctx.targets s := by
  by_contra ht
  by_cases hc : ctx.covering s = 0
  · rw [h.resolve_uncovered s hs t (notMem_targets_iff.mp ht) hc] at hr
    split at hr <;> cases hr
  · rw [h.resolve_covered s hs t (notMem_targets_iff.mp ht) hc] at hr
    cases hr

theorem contradictoryFrom_eq (hs : s < n) :
    ctx.contradictoryFrom s = ((others n s).filter fun t =>
      ctx.resolveOrdered s t = .reachable ∧ ctx.resolveOrdered t s = .unreachable).card := by
  have hrow := h.countP_row hs fun t =>
    ctx.resolveOrdered s t = .reachable ∧ ctx.resolveOrdered t s = .unreachable
  have hfun : ctx.contradictoryFrom s = (ctx.ordered.row s).countP fun row =>
      decide (ctx.resolveOrdered s row.target = .reachable
        ∧ ctx.resolveOrdered row.target s = .unreachable) := by
    refine List.countP_congr fun row hrow => ?_
    simp only [Bool.and_eq_true, beq_iff_eq, decide_eq_true_eq, and_assoc]
    exact and_iff_right_of_imp fun hres => h.flags_of_reachable s hs row hrow hres.1
  rw [hfun, hrow]
  congr 1
  exact filter_congr fun t _ =>
    and_iff_right_of_imp fun hres => h.mem_targets_of_reachable hs hres.1

/-! ## Proven edges -/

theorem mem_edgesFrom (hs : s < n) {e : PairKey} :
    e ∈ ctx.edgesFrom s ↔ ∃ t, t < n ∧ t ≠ s ∧ ctx.resolveOrdered s t = .reachable
      ∧ ctx.resolveOrdered t s = .reachable ∧ e = pairKey (min s t) (max s t) := by
  rw [edgesFrom, List.mem_filterMap]
  constructor
  · rintro ⟨row, hrow, heq⟩
    split at heq
    · rename_i hcond
      simp only [Bool.and_eq_true, beq_iff_eq] at hcond
      obtain ⟨h1, h2⟩ := h.row_mem s hs row hrow
      exact ⟨row.target, h1, h2, hcond.1.2, hcond.2, (Option.some.inj heq).symm⟩
    · cases heq
  · rintro ⟨t, -, -, hr, hr', rfl⟩
    obtain ⟨row, hrow, rfl⟩ :=
      List.mem_map.mp (List.mem_toFinset.mp (h.mem_targets_of_reachable hs hr))
    refine ⟨row, hrow, ?_⟩
    simp [h.flags_of_reachable s hs row hrow hr, hr, hr']

/-- The proven edges are the unordered pairs that resolve reachable both ways. -/
theorem mem_provenEdges {e : Nat × Nat} :
    e ∈ ctx.provenEdges n ↔ e.1 < e.2 ∧ e.2 < n ∧ ctx.resolveOrdered e.1 e.2 = .reachable
      ∧ ctx.resolveOrdered e.2 e.1 = .reachable := by
  have hmem : e ∈ ctx.provenEdges n ↔ ∃ s < n, toLex e ∈ ctx.edgesFrom s := by
    rw [provenEdges, List.mem_map]
    constructor
    · rintro ⟨k, hk, rfl⟩
      rw [mem_unique (List.pairwise_insertionSort _ _), (List.perm_insertionSort _ _).mem_iff,
        List.mem_flatMap] at hk
      simpa using hk
    · intro hex
      refine ⟨toLex e, ?_, rfl⟩
      rw [mem_unique (List.pairwise_insertionSort _ _), (List.perm_insertionSort _ _).mem_iff,
        List.mem_flatMap]
      simpa using hex
  rw [hmem]
  constructor
  · rintro ⟨s, hs, he⟩
    obtain ⟨t, htn, hts, h1, h2, heq⟩ := (h.mem_edgesFrom hs).mp he
    have he1 : e.1 = min s t := congrArg (fun k => (ofLex k).1) heq
    have he2 : e.2 = max s t := congrArg (fun k => (ofLex k).2) heq
    rw [he1, he2]
    rcases Nat.lt_or_gt_of_ne hts with hlt | hlt
    · rw [min_eq_right (Nat.le_of_lt hlt), max_eq_left (Nat.le_of_lt hlt)]
      exact ⟨hlt, hs, h2, h1⟩
    · rw [min_eq_left (Nat.le_of_lt hlt), max_eq_right (Nat.le_of_lt hlt)]
      exact ⟨hlt, htn, h1, h2⟩
  · rintro ⟨hlt, he2, h1, h2⟩
    refine ⟨e.1, by omega, (h.mem_edgesFrom (by omega)).mpr ⟨e.2, he2, by omega, h1, h2, ?_⟩⟩
    rw [min_eq_left (Nat.le_of_lt hlt), max_eq_right (Nat.le_of_lt hlt)]
    rfl

omit h in
theorem provenEdges_nodup (ctx : ResolutionContext) (n : Nat) : (ctx.provenEdges n).Nodup := by
  rw [provenEdges]
  refine List.Nodup.map ofLex.injective ?_
  exact (unique_pairwise_lt (List.pairwise_insertionSort _ _)).imp fun h => ne_of_lt h

theorem provenEdges_length :
    (ctx.provenEdges n).length = ∑ s ∈ range n, ((others n s).filter fun t => s < t
      ∧ ctx.resolveOrdered s t = .reachable ∧ ctx.resolveOrdered t s = .reachable).card := by
  rw [← List.toFinset_card_of_nodup (provenEdges_nodup ctx n), ← card_sigma]
  refine card_bij (fun e _ => ⟨e.1, e.2⟩) ?_ ?_ ?_
  · intro e he
    obtain ⟨h1, h2, h3, h4⟩ := h.mem_provenEdges.mp (List.mem_toFinset.mp he)
    simp only [mem_sigma, mem_range, mem_filter, mem_others]
    exact ⟨by omega, ⟨h2, by omega⟩, h1, h3, h4⟩
  · rintro ⟨a, b⟩ - ⟨c, d⟩ - heq
    simpa using heq
  · rintro ⟨a, b⟩ hab
    simp only [mem_sigma, mem_range, mem_filter, mem_others] at hab
    refine ⟨(a, b), List.mem_toFinset.mpr (h.mem_provenEdges.mpr ?_), rfl⟩
    exact ⟨hab.2.2.1, hab.2.1.1, hab.2.2.2⟩

end Regular

end ResolutionContext

/-! ## Canonical labels -/

theorem representatives_spec (root : Nat → Nat) (indices : List Nat) :
    ∀ (sets : DisjointSet) (representative : List (Option Nat)),
      (∀ i, (sets.find i).1 = root i) → (∀ i ∈ indices, root i < representative.length) →
      (∀ i, ((representatives indices (sets, representative)).1.find i).1 = root i)
        ∧ ∀ r, r < representative.length →
          (representatives indices (sets, representative)).2.getD r none
            = (representative.getD r none).or (indices.find? fun i => decide (root i = r)) := by
  induction indices with
  | nil =>
    intro sets representative hroot _
    exact ⟨hroot, fun r _ => by simp [representatives]⟩
  | cons i rest ih =>
    intro sets representative hroot hlen
    have hkeep : ∀ j, ((sets.find i).2.find j).1 = root j := fun j =>
      ((sets.find_sameRoots i).find_eq j).trans (hroot j)
    have hi := hlen i List.mem_cons_self
    have hrest : ∀ j ∈ rest, root j < representative.length := fun j hj =>
      hlen j (List.mem_cons_of_mem _ hj)
    rw [representatives]
    simp only [hroot i, List.find?_cons]
    cases hrep : representative.getD (root i) none with
    | some x =>
      obtain ⟨h1, h2⟩ := ih (sets.find i).2 representative hkeep hrest
      refine ⟨h1, fun r hr => ?_⟩
      rw [h2 r hr]
      by_cases hir : root i = r
      · subst hir
        rw [hrep]
        rfl
      · simp [hir]
    | none =>
      obtain ⟨h1, h2⟩ := ih (sets.find i).2 (representative.set (root i) (some i)) hkeep
        (by simpa using hrest)
      refine ⟨h1, fun r hr => ?_⟩
      rw [h2 r (by simpa using hr)]
      by_cases hir : root i = r
      · subst hir
        rw [hrep]
        simp [List.getD_eq_getElem?_getD, hi]
      · simp [hir, List.getD_eq_getElem?_getD, List.getElem?_set_ne hir]

theorem canonicalLabels_eq (root : Nat → Nat) (representative : List (Option Nat))
    (indices : List Nat) : ∀ sets : DisjointSet, (∀ i, (sets.find i).1 = root i) →
      canonicalLabels representative indices sets
        = indices.map fun i => (representative.getD (root i) none).getD 0 := by
  induction indices with
  | nil => exact fun _ _ => rfl
  | cons i rest ih =>
    intro sets hroot
    have hkeep : ∀ j, ((sets.find i).2.find j).1 = root j := fun j =>
      ((sets.find_sameRoots i).find_eq j).trans (hroot j)
    rw [canonicalLabels, List.map_cons]
    simp only [hroot i, ih _ hkeep]

/-- What the labelling of a graph is: a label for each index, and one label exactly for connected
indices, namely the smallest index of the component. -/
structure CanonicalLabels (n : Nat) (edges : List (Nat × Nat)) (labels : List Nat) : Prop where
  length_eq : labels.length = n
  eq_iff : ∀ i < n, ∀ j < n, labels.getD i 0 = labels.getD j 0 ↔
    Relation.EqvGen (DisjointSet.EdgeOf edges) i j
  label_lt : ∀ i < n, labels.getD i 0 < n
  label_label : ∀ i < n, labels.getD (labels.getD i 0) 0 = labels.getD i 0
  label_le : ∀ i < n, labels.getD i 0 ≤ i

/-- **Two indices get the same label exactly when the edges connect them.** -/
theorem componentLabels_canonical {n : Nat} {edges : List (Nat × Nat)}
    (hedges : ∀ e ∈ edges, e.1 < n ∧ e.2 < n) :
    CanonicalLabels n edges (componentLabels n edges) := by
  generalize hsets : (DisjointSet.ofCount n).uniteAll edges = sets
  let root : Nat → Nat := fun i => (sets.find i).1
  have hroot : ∀ i, (sets.find i).1 = root i := fun _ => rfl
  have hsize : sets.size = n := by
    rw [← hsets, DisjointSet.uniteAll_size]
    simp [DisjointSet.ofCount, DisjointSet.size]
  have hlt : ∀ i, i < n → root i < n := by
    intro i hi
    have := (sets.find_leads i).lt_size (by rw [hsize]; exact hi)
    rwa [hsize] at this
  have hsame : ∀ i j, root i = root j ↔ Relation.EqvGen (DisjointSet.EdgeOf edges) i j := by
    intro i j
    rw [← DisjointSet.same_uniteAll hedges, hsets]
    exact sets.find_eq_iff i j
  obtain ⟨hkeep, hrep⟩ := representatives_spec root (List.range n) sets (List.replicate n none)
    hroot (fun i hi => by simpa using hlt i (List.mem_range.mp hi))
  have hlabels : componentLabels n edges = (List.range n).map fun i =>
      ((List.range n).find? fun j => decide (root j = root i)).getD 0 := by
    rw [componentLabels, hsets]
    dsimp only
    rw [canonicalLabels_eq root _ _ _ hkeep]
    refine List.map_congr_left fun i hi => ?_
    have hi' := hlt i (List.mem_range.mp hi)
    rw [hrep (root i) (by simpa using hi')]
    simp [List.getD_eq_getElem?_getD, hi']
  have hget : ∀ i, i < n → (componentLabels n edges).getD i 0
      = ((List.range n).find? fun j => decide (root j = root i)).getD 0 := by
    intro i hi
    rw [hlabels, List.getD_eq_getElem?_getD, List.getElem?_map, List.getElem?_range hi]
    rfl
  -- the label of an index is an index with the same root, and no index before it has that root
  have hfound : ∀ i, i < n → ∃ k, (componentLabels n edges).getD i 0 = k ∧ k < n ∧ root k = root i
      ∧ k ≤ i := by
    intro i hi
    rw [hget i hi]
    cases hf : (List.range n).find? (fun j => decide (root j = root i)) with
    | none =>
      have := List.find?_eq_none.mp hf i (List.mem_range.mpr hi)
      simp at this
    | some k =>
      refine ⟨k, rfl, List.mem_range.mp (List.mem_of_find?_eq_some hf), ?_, ?_⟩
      · simpa using List.find?_some hf
      · by_contra hgt
        have := (List.find?_range_eq_some.mp hf).2.2 i (by omega)
        simp at this
  refine ⟨?_, ?_, ?_, ?_, ?_⟩
  · rw [hlabels, List.length_map, List.length_range]
  · intro i hi j hj
    rw [← hsame]
    constructor
    · intro heq
      obtain ⟨k, hk, -, hki, -⟩ := hfound i hi
      obtain ⟨k', hk', -, hkj, -⟩ := hfound j hj
      rw [← hki, ← hkj, ← hk, ← hk', heq]
    · intro heq
      rw [hget i hi, hget j hj, heq]
  · intro i hi
    obtain ⟨k, hk, hkn, -⟩ := hfound i hi
    rw [hk]
    exact hkn
  · intro i hi
    obtain ⟨k, hk, hkn, hki, -⟩ := hfound i hi
    rw [hk, hget k hkn, hki, ← hget i hi, hk]
  · intro i hi
    obtain ⟨k, hk, -, -, hle⟩ := hfound i hi
    rw [hk]
    exact hle

/-! ## Component sizes and crossing pairs -/

section Crossing

variable {n : Nat} {edges : List (Nat × Nat)} {labels : List Nat}
  (hl : CanonicalLabels n edges labels)

include hl

theorem count_label_eq (label : Nat) :
    labels.count label = ((range n).filter fun t => labels.getD t 0 = label).card := by
  have hmap : labels = (List.range n).map fun i => labels.getD i 0 := by
    refine List.ext_getElem? fun i => ?_
    by_cases hi : i < n
    · have hi' : i < labels.length := by rw [hl.length_eq]; exact hi
      simp [List.getElem?_range hi, List.getD_eq_getElem?_getD, hi']
    · rw [List.getElem?_eq_none (by rw [hl.length_eq]; omega), List.getElem?_eq_none (by simp; omega)]
  conv_lhs => rw [hmap]
  rw [List.count_eq_countP, List.countP_map, countP_eq_card List.nodup_range]
  congr 1
  ext t
  simp

theorem labelSizes_getD {label : Nat} (h : label < n) :
    (labelSizes n labels).getD label 0
      = ((range n).filter fun t => labels.getD t 0 = label).card := by
  rw [labelSizes, List.getD_eq_getElem?_getD, List.getElem?_map, List.getElem?_range h,
    ← count_label_eq hl]
  rfl

/-- The component set of an index, without the index itself. -/
theorem card_same_label {s : Nat} (hs : s < n) :
    ((others n s).filter fun t => labels.getD t 0 = labels.getD s 0).card
      = (labelSizes n labels).getD (labels.getD s 0) 0 - 1 := by
  rw [labelSizes_getD hl (hl.label_lt s hs), others, filter_erase, card_erase_of_mem]
  simp [hs]

theorem labelSizes_pos {s : Nat} (hs : s < n) :
    1 ≤ (labelSizes n labels).getD (labels.getD s 0) 0 := by
  rw [labelSizes_getD hl (hl.label_lt s hs), Nat.one_le_iff_ne_zero, card_ne_zero]
  exact ⟨s, mem_filter.mpr ⟨mem_range.mpr hs, rfl⟩⟩

theorem labelSizes_le {s : Nat} (hs : s < n) :
    (labelSizes n labels).getD (labels.getD s 0) 0 ≤ n := by
  rw [labelSizes_getD hl (hl.label_lt s hs)]
  calc ((range n).filter fun t => labels.getD t 0 = labels.getD s 0).card
      ≤ (range n).card := card_filter_le _ _
    _ = n := card_range n

/-- The pairs inside components, added up by component, are the pairs with equal labels. -/
theorem withinComponentPairs_eq :
    withinComponentPairs (labelSizes n labels) = ∑ s ∈ range n, ((others n s).filter fun t =>
      labels.getD t 0 = labels.getD s 0).card := by
  have hsum : withinComponentPairs (labelSizes n labels) = ∑ label ∈ range n,
      (labelSizes n labels).getD label 0 * ((labelSizes n labels).getD label 0 - 1) := by
    rw [← sumOver_eq_sum, withinComponentPairs, ResolutionContext.sumOver]
    congr 1
    have hsizes : labelSizes n labels = (List.range n).map fun l => (labelSizes n labels).getD l 0 := by
      rw [labelSizes]
      refine List.map_congr_left fun l hmem => ?_
      rw [List.getD_eq_getElem?_getD, List.getElem?_map,
        List.getElem?_range (List.mem_range.mp hmem)]
      rfl
    conv_lhs => rw [hsizes]
    rw [List.map_map]
    rfl
  have hmaps : ∀ s ∈ range n, labels.getD s 0 ∈ range n := fun s hs =>
    mem_range.mpr (hl.label_lt s (mem_range.mp hs))
  rw [hsum, ← sum_fiberwise_of_maps_to hmaps fun s =>
    ((others n s).filter fun t => labels.getD t 0 = labels.getD s 0).card]
  refine sum_congr rfl fun label hlabel => ?_
  have hterm : ∀ s ∈ (range n).filter (fun s => labels.getD s 0 = label),
      ((others n s).filter fun t => labels.getD t 0 = labels.getD s 0).card
        = (labelSizes n labels).getD label 0 - 1 := by
    intro s hs
    simp only [mem_filter, mem_range] at hs
    rw [card_same_label hl hs.1, hs.2]
  rw [sum_congr rfl hterm, sum_const_nat fun _ _ => rfl, ← labelSizes_getD hl (mem_range.mp hlabel)]

omit hl in
/-- All pairs of one source are inside its component set or cross its boundary. -/
theorem card_cross_add_same {s : Nat} (hs : s < n) :
    ((others n s).filter fun t => labels.getD t 0 ≠ labels.getD s 0).card
      + ((others n s).filter fun t => labels.getD t 0 = labels.getD s 0).card = n - 1 := by
  rw [← card_others hs, Nat.add_comm]
  exact card_filter_add_card_filter_not _

theorem cross_add_within :
    (∑ s ∈ range n, ((others n s).filter fun t => labels.getD t 0 ≠ labels.getD s 0).card)
      + withinComponentPairs (labelSizes n labels) = n * (n - 1) := by
  rw [withinComponentPairs_eq hl, ← sum_add_distrib,
    sum_const_nat fun s hs => card_cross_add_same (mem_range.mp hs), card_range]

theorem outside_eq {s : Nat} (hs : s < n) :
    ResolutionContext.outside n labels (labelSizes n labels) s
      = ((others n s).filter fun t => labels.getD t 0 ≠ labels.getD s 0).card := by
  have h1 := @card_cross_add_same n labels s hs
  have h2 := labelSizes_pos hl hs
  have h3 := labelSizes_le hl hs
  rw [card_same_label hl hs] at h1
  rw [ResolutionContext.outside]
  omega

variable {ctx : ResolutionContext} (h : ctx.Regular n)

include h

omit hl in
theorem exceptionsOutside_eq (labels : List Nat) {s : Nat} (hs : s < n) :
    ctx.exceptionsOutside labels s = ((others n s).filter fun t => t ∈ ctx.targets s
      ∧ (ctx.resolveOrdered s t ≠ .unreachable ∧ labels.getD t 0 ≠ labels.getD s 0)).card := by
  rw [← h.countP_row hs fun t =>
    ctx.resolveOrdered s t ≠ .unreachable ∧ labels.getD t 0 ≠ labels.getD s 0]
  refine List.countP_congr fun row _ => ?_
  simp

theorem exceptionsOutside_le {s : Nat} (hs : s < n) :
    ctx.exceptionsOutside labels s
      ≤ ResolutionContext.outside n labels (labelSizes n labels) s := by
  rw [exceptionsOutside_eq h labels hs, outside_eq hl hs]
  refine card_le_card fun t ht => ?_
  simp only [mem_filter] at ht ⊢
  exact ⟨ht.1, ht.2.2.2⟩

/-- The crossing pairs of a source that are proven unreachable. -/
theorem crossUnreachable_eq {s : Nat} (hs : s < n) :
    ctx.crossUnreachable n labels (labelSizes n labels) s = ((others n s).filter fun t =>
      labels.getD t 0 ≠ labels.getD s 0 ∧ ctx.resolveOrdered s t = .unreachable).card := by
  by_cases hc : ctx.covering s = 0
  · rw [ResolutionContext.crossUnreachable, if_neg (not_not.mpr hc)]
    have hrow := h.countP_row hs fun t =>
      labels.getD t 0 ≠ labels.getD s 0 ∧ ctx.resolveOrdered s t = .unreachable
    have hfun : (ctx.ordered.row s).countP (fun row =>
        ctx.resolveOrdered s row.target == .unreachable
          && labels.getD row.target 0 != labels.getD s 0)
        = (ctx.ordered.row s).countP fun row => decide (labels.getD row.target 0 ≠ labels.getD s 0
            ∧ ctx.resolveOrdered s row.target = .unreachable) := by
      refine List.countP_congr fun row _ => ?_
      simp [and_comm]
    rw [hfun, hrow]
    congr 1
    -- an uncovered source proves a pair unreachable only by observing it
    refine filter_congr fun t _ => and_iff_right_of_imp fun hp => ?_
    by_contra ht
    have hres := h.resolve_uncovered s hs t (ResolutionContext.Regular.notMem_targets_iff.mp ht) hc
    rw [hres] at hp
    split at hp <;> exact absurd hp.2 (by decide)
  · rw [ResolutionContext.crossUnreachable, if_pos hc, exceptionsOutside_eq h labels hs,
      outside_eq hl hs, ← card_sdiff_of_subset]
    · congr 1
      ext t
      simp only [mem_sdiff, mem_filter, not_and, not_not]
      constructor
      · rintro ⟨⟨ht, hne⟩, hno⟩
        refine ⟨ht, hne, ?_⟩
        by_cases hm : t ∈ ctx.targets s
        · by_contra hu
          exact hne (hno ht hm hu)
        · exact h.resolve_covered s hs t (ResolutionContext.Regular.notMem_targets_iff.mp hm) hc
      · rintro ⟨ht, hne, hu⟩
        exact ⟨⟨ht, hne⟩, fun _ _ hnu => absurd hu hnu⟩
    · intro t ht
      simp only [mem_filter] at ht ⊢
      exact ⟨ht.1, ht.2.2.2⟩

theorem crossUnreachable_le {s : Nat} (hs : s < n) :
    ctx.crossUnreachable n labels (labelSizes n labels) s
      ≤ ((others n s).filter fun t => labels.getD t 0 ≠ labels.getD s 0).card := by
  rw [crossUnreachable_eq hl h hs]
  refine card_le_card fun t ht => ?_
  simp only [mem_filter] at ht ⊢
  exact ⟨ht.1, ht.2.1⟩

end Crossing

/-! ## The pair-by-pair reference -/

/-- A usable edge: both directions of the pair resolve reachable. -/
def Link (roster : ComponentRoster) (rule : ComponentId → ComponentId → PairResolution)
    (a b : ComponentId) : Prop :=
  a ∈ roster.components ∧ b ∈ roster.components ∧ a ≠ b
    ∧ joinDirections (rule a b) (rule b a) = .reachable

/-- Two components are joined by a path of usable edges. -/
def Connected (roster : ComponentRoster) (rule : ComponentId → ComponentId → PairResolution) :
    ComponentId → ComponentId → Prop :=
  Relation.EqvGen (Link roster rule)

/-- The ordered pairs of the fabric. -/
def ComponentRoster.pairs (roster : ComponentRoster) : Finset (ComponentId × ComponentId) :=
  roster.components.toFinset.offDiag

open Classical in
/-- How many ordered pairs of the fabric have a property. -/
noncomputable def ComponentRoster.pairCount (roster : ComponentRoster)
    (p : ComponentId → ComponentId → Prop) : Nat :=
  (roster.pairs.filter fun e => p e.1 e.2).card

/-- Every counter, obtained by classifying all ordered pairs one by one with a rule. -/
noncomputable def referenceCounters (roster : ComponentRoster)
    (rule : ComponentId → ComponentId → PairResolution) : PairCounters where
  orderedPairs := roster.pairs.card
  orderedReachable := roster.pairCount fun a b => rule a b = .reachable
  orderedUnreachable := roster.pairCount fun a b => rule a b = .unreachable
  orderedConflicting := roster.pairCount fun a b => rule a b = .conflicting
  orderedStale := roster.pairCount fun a b => rule a b = .stale
  orderedUnknown := roster.pairCount fun a b => rule a b = .unknown
  orderedAsymmetric := roster.pairCount fun a b =>
    (rule a b).isProven = true ∧ rule b a = .unknown
  orderedContradictory := roster.pairCount fun a b =>
    rule a b = .reachable ∧ rule b a = .unreachable
  undirectedReachable := roster.pairCount fun a b =>
    a < b ∧ joinDirections (rule a b) (rule b a) = .reachable
  crossComponentOrdered := roster.pairCount fun a b => ¬ Connected roster rule a b
  crossComponentUnreachable := roster.pairCount fun a b =>
    ¬ Connected roster rule a b ∧ rule a b = .unreachable
  crossComponentIndeterminate := roster.pairCount fun a b =>
    ¬ Connected roster rule a b ∧ rule a b ≠ .unreachable

/-- The decomposition is confirmed: every pair that crosses a boundary is proven unreachable. -/
def ReferenceConfirmed (roster : ComponentRoster)
    (rule : ComponentId → ComponentId → PairResolution) : Prop :=
  ∀ a ∈ roster.components, ∀ b ∈ roster.components, a ≠ b → ¬ Connected roster rule a b →
    rule a b = .unreachable

theorem joinDirections_eq_reachable_iff {f r : PairResolution} :
    joinDirections f r = .reachable ↔ f = .reachable ∧ r = .reachable := by
  cases f <;> cases r <;> decide

section Transfer

variable {roster : ComponentRoster}

theorem ComponentRoster.getElem?_at {i : Nat} (hi : i < roster.size) :
    roster.components[i]? = some (roster.at i) := by
  rw [ComponentRoster.at, List.getD_eq_getElem?_getD, List.getElem?_eq_getElem hi]
  rfl

theorem ComponentRoster.at_mem {i : Nat} (hi : i < roster.size) :
    roster.at i ∈ roster.components :=
  List.mem_of_getElem? (ComponentRoster.getElem?_at hi)

theorem ComponentRoster.exists_at {c : ComponentId} (hc : c ∈ roster.components) :
    ∃ i < roster.size, roster.at i = c := by
  obtain ⟨i, hi, hget⟩ := List.mem_iff_getElem.mp hc
  refine ⟨i, hi, ?_⟩
  rw [ComponentRoster.at, List.getD_eq_getElem?_getD, List.getElem?_eq_getElem hi, hget]
  rfl

theorem ComponentRoster.at_lt_iff {i j : Nat} (hi : i < roster.size) (hj : j < roster.size) :
    roster.at i < roster.at j ↔ i < j := by
  have hmono : ∀ {i j : Nat}, i < j → j < roster.size → roster.at i < roster.at j := by
    intro i j hij hj
    have hi : i < roster.size := hij.trans hj
    have := List.pairwise_iff_getElem.mp roster.sorted i j hi hj hij
    simpa [ComponentRoster.at, List.getD_eq_getElem?_getD, List.getElem?_eq_getElem hi,
      List.getElem?_eq_getElem hj] using this
  constructor
  · intro h
    by_contra hge
    rcases Nat.lt_or_eq_of_le (Nat.le_of_not_lt hge) with hlt | heq
    · exact lt_asymm h (hmono hlt hi)
    · rw [heq] at h
      exact lt_irrefl _ h
  · exact fun h => hmono h hj

theorem ComponentRoster.at_inj {i j : Nat} (hi : i < roster.size) (hj : j < roster.size) :
    roster.at i = roster.at j ↔ i = j := by
  constructor
  · intro h
    rcases Nat.lt_trichotomy i j with hlt | heq | hlt
    · exact absurd h (ne_of_lt ((ComponentRoster.at_lt_iff hi hj).mpr hlt))
    · exact heq
    · exact absurd h.symm (ne_of_lt ((ComponentRoster.at_lt_iff hj hi).mpr hlt))
  · rintro rfl
    rfl

/-- Counting pairs of components is counting pairs of indices, source by source. -/
theorem ComponentRoster.pairCount_eq (p : ComponentId → ComponentId → Prop)
    (q : Nat → Nat → Prop) [∀ s, DecidablePred (q s)]
    (hpq : ∀ s < roster.size, ∀ t < roster.size, s ≠ t → (p (roster.at s) (roster.at t) ↔ q s t)) :
    roster.pairCount p = ∑ s ∈ range roster.size, ((others roster.size s).filter (q s)).card := by
  classical
  rw [ComponentRoster.pairCount, ← card_sigma]
  symm
  refine card_bij (fun e _ => (roster.at e.1, roster.at e.2)) ?_ ?_ ?_
  · rintro ⟨s, t⟩ he
    simp only [mem_sigma, mem_range, mem_filter, mem_others] at he
    obtain ⟨hs, ⟨ht, hne⟩, hq⟩ := he
    simp only [mem_filter, ComponentRoster.pairs, mem_offDiag, List.mem_toFinset]
    refine ⟨⟨at_mem hs, at_mem ht, fun h => hne ((at_inj hs ht).mp h).symm⟩, ?_⟩
    exact (hpq s hs t ht (Ne.symm hne)).mpr hq
  · rintro ⟨s, t⟩ he ⟨s', t'⟩ he' heq
    simp only [mem_sigma, mem_range, mem_filter, mem_others] at he he'
    rw [Prod.mk.injEq, at_inj he.1 he'.1, at_inj he.2.1.1 he'.2.1.1] at heq
    rw [heq.1, heq.2]
  · rintro ⟨a, b⟩ hab
    simp only [mem_filter, ComponentRoster.pairs, mem_offDiag, List.mem_toFinset] at hab
    obtain ⟨⟨ha, hb, hne⟩, hp⟩ := hab
    obtain ⟨s, hs, rfl⟩ := exists_at ha
    obtain ⟨t, ht, rfl⟩ := exists_at hb
    have hst : s ≠ t := fun h => hne (by rw [h])
    refine ⟨⟨s, t⟩, ?_, rfl⟩
    simp only [mem_sigma, mem_range, mem_filter, mem_others]
    exact ⟨hs, ⟨ht, Ne.symm hst⟩, (hpq s hs t ht hst).mp hp⟩

theorem ComponentRoster.card_pairs : roster.pairs.card = roster.size * (roster.size - 1) := by
  rw [ComponentRoster.pairs, offDiag_card, List.toFinset_card_of_nodup roster.nodup]
  exact (Nat.mul_sub_one _ _).symm

variable {ctx : ResolutionContext} {rule : ComponentId → ComponentId → PairResolution}
  (h : ctx.Regular roster.size)
  (hrule : ∀ s < roster.size, ∀ t < roster.size,
    ctx.resolveOrdered s t = rule (roster.at s) (roster.at t))

include h hrule

/-- The edges of the source connect what the usable edges of the reference connect. -/
theorem eqvGen_edges_iff {i j : Nat} (hi : i < roster.size) (hj : j < roster.size) :
    Relation.EqvGen (DisjointSet.EdgeOf (ctx.provenEdges roster.size)) i j ↔
      Connected roster rule (roster.at i) (roster.at j) := by
  constructor
  · intro hgen
    clear hi hj
    induction hgen with
    | rel i j hij =>
      obtain ⟨hlt, hj, h1, h2⟩ := h.mem_provenEdges.mp hij
      have hi : i < roster.size := hlt.trans hj
      refine .rel _ _ ⟨ComponentRoster.at_mem hi, ComponentRoster.at_mem hj, ?_, ?_⟩
      · exact ne_of_lt ((ComponentRoster.at_lt_iff hi hj).mpr hlt)
      · rw [joinDirections_eq_reachable_iff, ← hrule i hi j hj, ← hrule j hj i hi]
        exact ⟨h1, h2⟩
    | refl i => exact .refl _
    | symm i j _ ih => exact ih.symm
    | trans i j k _ _ ih1 ih2 => exact ih1.trans _ _ _ ih2
  · -- a path of components is a path of indices, unless it is empty
    suffices hpath : ∀ a b, Connected roster rule a b → a = b ∨ ∃ i < roster.size, ∃ j < roster.size,
        roster.at i = a ∧ roster.at j = b
          ∧ Relation.EqvGen (DisjointSet.EdgeOf (ctx.provenEdges roster.size)) i j by
      intro hcon
      rcases hpath _ _ hcon with heq | ⟨i', hi', j', hj', h1, h2, hgen⟩
      · rw [(ComponentRoster.at_inj hi hj).mp heq]
        exact .refl _
      · rw [← (ComponentRoster.at_inj hi' hi).mp h1, ← (ComponentRoster.at_inj hj' hj).mp h2]
        exact hgen
    intro a b hcon
    induction hcon with
    | rel a b hab =>
      obtain ⟨ha, hb, hne, hjoin⟩ := hab
      obtain ⟨i, hi, rfl⟩ := ComponentRoster.exists_at ha
      obtain ⟨j, hj, rfl⟩ := ComponentRoster.exists_at hb
      rw [joinDirections_eq_reachable_iff, ← hrule i hi j hj, ← hrule j hj i hi] at hjoin
      refine .inr ⟨i, hi, j, hj, rfl, rfl, ?_⟩
      rcases Nat.lt_trichotomy i j with hlt | heq | hlt
      · exact .rel _ _ (h.mem_provenEdges.mpr ⟨hlt, hj, hjoin.1, hjoin.2⟩)
      · exact absurd (by rw [heq]) hne
      · exact .symm _ _ (.rel _ _ (h.mem_provenEdges.mpr ⟨hlt, hi, hjoin.2, hjoin.1⟩))
    | refl a => exact .inl rfl
    | symm a b _ ih =>
      rcases ih with rfl | ⟨i, hi, j, hj, h1, h2, hgen⟩
      · exact .inl rfl
      · exact .inr ⟨j, hj, i, hi, h2, h1, hgen.symm⟩
    | trans a b c _ _ ih1 ih2 =>
      rcases ih1 with rfl | ⟨i, hi, j, hj, h1, h2, hgen⟩
      · exact ih2
      · rcases ih2 with rfl | ⟨j', hj', k, hk, h3, h4, hgen'⟩
        · exact .inr ⟨i, hi, j, hj, h1, h2, hgen⟩
        · obtain rfl := (ComponentRoster.at_inj hj hj').mp (h2.trans h3.symm)
          exact .inr ⟨i, hi, k, hk, h1, h4, hgen.trans _ _ _ hgen'⟩

end Transfer

/-! ## The counters are exact -/

/-- Every subtraction of the closed forms, with the reason it cannot wrap: the subtrahend is at most
the minuend. -/
structure ExactSubtractions (ctx : ResolutionContext) (n : Nat) (labels sizes : List Nat) :
    Prop where
  /-- `total - 1`. -/
  total : 1 ≤ n
  /-- `pairs_from_source - observed`. -/
  observed : ∀ s < n, ctx.observedTargets s ≤ n - 1
  /-- `unobserved - stale_only_targets[index]`. -/
  staleOnly : ∀ s < n, ctx.staleOnlyTargets s ≤ ctx.unobserved n s
  /-- `value - 1`, whenever the size is not zero; a zero size is also the factor of the product. -/
  size : ∀ value ∈ sizes, value = 0 ∨ 1 ≤ value
  /-- `all_pairs - within_component_pairs`. -/
  within : withinComponentPairs sizes ≤ n * (n - 1)
  /-- `total - component_sizes[home]`. -/
  home : ∀ s < n, sizes.getD (labels.getD s 0) 0 ≤ n
  /-- `outside - exceptions_outside`. -/
  exceptions : ∀ s < n, ctx.exceptionsOutside labels s ≤ ResolutionContext.outside n labels sizes s
  /-- `cross_component_ordered - cross_unreachable`. -/
  cross : ResolutionContext.sumOver n (ctx.crossUnreachable n labels sizes)
    ≤ n * (n - 1) - withinComponentPairs sizes
  /-- `covered_source_total - (covered ? 1 : 0)`. -/
  covered : ∀ s < n, (if ctx.covering s ≠ 0 then 1 else 0) ≤ ctx.coveredSourceTotal n
  /-- `pairs_from_source - non_unknown_reverse`. -/
  reverse : ∀ s < n, ctx.nonUnknownReverse n s ≤ n - 1

section Exact

variable {roster : ComponentRoster} {ctx : ResolutionContext}
  {rule : ComponentId → ComponentId → PairResolution} (h : ctx.Regular roster.size)
  (hrule : ∀ s < roster.size, ∀ t < roster.size,
    ctx.resolveOrdered s t = rule (roster.at s) (roster.at t))

include h

theorem provenEdges_lt : ∀ e ∈ ctx.provenEdges roster.size, e.1 < roster.size ∧ e.2 < roster.size := by
  intro e he
  obtain ⟨h1, h2, -⟩ := h.mem_provenEdges.mp he
  exact ⟨h1.trans h2, h2⟩

theorem exactSubtractions (hne : roster.size ≠ 0) :
    ExactSubtractions ctx roster.size (componentLabels roster.size (ctx.provenEdges roster.size))
      (labelSizes roster.size
        (componentLabels roster.size (ctx.provenEdges roster.size))) := by
  have hl := componentLabels_canonical (provenEdges_lt h)
  have hwithin := cross_add_within hl
  refine ⟨by omega, fun s => h.observedTargets_le, fun s => h.staleOnlyTargets_le, ?_, by omega,
    fun s => labelSizes_le hl, fun s => exceptionsOutside_le hl h, ?_, ?_,
    fun s => h.nonUnknownReverse_le⟩
  · intro value _
    omega
  · have hle : ResolutionContext.sumOver roster.size (ctx.crossUnreachable roster.size
        (componentLabels roster.size (ctx.provenEdges roster.size)) (labelSizes roster.size
        (componentLabels roster.size (ctx.provenEdges roster.size))))
        ≤ ∑ s ∈ range roster.size, ((others roster.size s).filter fun t =>
          (componentLabels roster.size (ctx.provenEdges roster.size)).getD t 0
            ≠ (componentLabels roster.size (ctx.provenEdges roster.size)).getD s 0).card := by
      rw [sumOver_eq_sum]
      exact sum_le_sum fun s hs => crossUnreachable_le hl h (mem_range.mp hs)
    omega
  · intro s hs
    rw [ResolutionContext.Regular.coveredSourceTotal_eq ctx hs]
    exact Nat.le_add_left _ _

include hrule

omit h in
theorem sum_tally_eq (r : PairResolution) (field : SourceTally → Nat)
    (hfield : ∀ s < roster.size, field (ctx.tallySource roster.size s)
      = ResolutionContext.Regular.resolvedCount ctx roster.size s r) :
    ResolutionContext.sumOver roster.size (fun s => field (ctx.tallySource roster.size s))
      = roster.pairCount fun a b => rule a b = r := by
  rw [sumOver_eq_sum, ComponentRoster.pairCount_eq _ (fun s t => ctx.resolveOrdered s t = r)]
  · exact sum_congr rfl fun s hs => hfield s (mem_range.mp hs)
  · intro s hs t ht _
    rw [hrule s hs t ht]

/-- **The counters of the source are those of the pair-by-pair classification.** -/
theorem counters_eq_reference :
    ctx.counters roster.size (ctx.provenEdges roster.size)
        (componentLabels roster.size (ctx.provenEdges roster.size))
        (labelSizes roster.size (componentLabels roster.size (ctx.provenEdges roster.size)))
      = referenceCounters roster rule := by
  have hl := componentLabels_canonical (provenEdges_lt h)
  have hconn : ∀ s < roster.size, ∀ t < roster.size,
      (componentLabels roster.size (ctx.provenEdges roster.size)).getD t 0
          = (componentLabels roster.size (ctx.provenEdges roster.size)).getD s 0 ↔
        Connected roster rule (roster.at s) (roster.at t) := by
    intro s hs t ht
    rw [← eqvGen_edges_iff h hrule hs ht, ← hl.eq_iff s hs t ht, eq_comm]
  generalize componentLabels roster.size (ctx.provenEdges roster.size) = labels at hl hconn
  have htally := fun s (hs : s < roster.size) => h.tallySource_eq hs
  have hcross : roster.size * (roster.size - 1) - withinComponentPairs (labelSizes roster.size labels)
      = roster.pairCount fun a b => ¬ Connected roster rule a b := by
    have hwithin := cross_add_within hl
    rw [ComponentRoster.pairCount_eq _ (fun s t => labels.getD t 0 ≠ labels.getD s 0)]
    · omega
    · intro s hs t ht _
      rw [← hconn s hs t ht]
  have hcrossU : ResolutionContext.sumOver roster.size
      (ctx.crossUnreachable roster.size labels (labelSizes roster.size labels))
      = roster.pairCount fun a b => ¬ Connected roster rule a b ∧ rule a b = .unreachable := by
    rw [sumOver_eq_sum, ComponentRoster.pairCount_eq _ (fun s t =>
      labels.getD t 0 ≠ labels.getD s 0 ∧ ctx.resolveOrdered s t = .unreachable)]
    · exact sum_congr rfl fun s hs => crossUnreachable_eq hl h (mem_range.mp hs)
    · intro s hs t ht _
      rw [← hconn s hs t ht, hrule s hs t ht]
  have hindet : (roster.pairCount fun a b => ¬ Connected roster rule a b)
      - (roster.pairCount fun a b => ¬ Connected roster rule a b ∧ rule a b = .unreachable)
      = roster.pairCount fun a b => ¬ Connected roster rule a b ∧ rule a b ≠ .unreachable := by
    classical
    have hsplit := card_filter_add_card_filter_not
      (s := roster.pairs.filter fun e => ¬ Connected roster rule e.1 e.2)
      (fun e => rule e.1 e.2 = .unreachable)
    simp only [filter_filter] at hsplit
    simp only [ComponentRoster.pairCount, ne_eq]
    omega
  rw [ResolutionContext.counters, referenceCounters]
  congr 1
  · exact ComponentRoster.card_pairs.symm
  · exact sum_tally_eq hrule .reachable SourceTally.reachable fun s hs => by rw [htally s hs]
  · exact sum_tally_eq hrule .unreachable SourceTally.unreachable fun s hs => by rw [htally s hs]
  · exact sum_tally_eq hrule .conflicting SourceTally.conflicting fun s hs => by rw [htally s hs]
  · exact sum_tally_eq hrule .stale SourceTally.stale fun s hs => by rw [htally s hs]
  · exact sum_tally_eq hrule .unknown SourceTally.unknown fun s hs => by rw [htally s hs]
  · rw [sumOver_eq_sum, ComponentRoster.pairCount_eq _ (fun s t =>
      (ctx.resolveOrdered s t).isProven = true ∧ ctx.resolveOrdered t s = .unknown)]
    · exact sum_congr rfl fun s hs => h.asymmetricFrom_eq (mem_range.mp hs)
    · intro s hs t ht _
      rw [hrule s hs t ht, hrule t ht s hs]
  · rw [sumOver_eq_sum, ComponentRoster.pairCount_eq _ (fun s t =>
      ctx.resolveOrdered s t = .reachable ∧ ctx.resolveOrdered t s = .unreachable)]
    · exact sum_congr rfl fun s hs => h.contradictoryFrom_eq (mem_range.mp hs)
    · intro s hs t ht _
      rw [hrule s hs t ht, hrule t ht s hs]
  · rw [h.provenEdges_length, ComponentRoster.pairCount_eq _ (fun s t => s < t
      ∧ ctx.resolveOrdered s t = .reachable ∧ ctx.resolveOrdered t s = .reachable)]
    intro s hs t ht _
    rw [joinDirections_eq_reachable_iff, hrule s hs t ht, hrule t ht s hs,
      ComponentRoster.at_lt_iff hs ht]
  · rw [hcross, hcrossU, hindet]

end Exact

theorem referenceConfirmed_iff {roster : ComponentRoster}
    {rule : ComponentId → ComponentId → PairResolution} :
    (referenceCounters roster rule).crossComponentIndeterminate = 0 ↔
      ReferenceConfirmed roster rule := by
  classical
  simp only [referenceCounters, ComponentRoster.pairCount, card_eq_zero, filter_eq_empty_iff,
    ComponentRoster.pairs, Prod.forall, mem_offDiag, List.mem_toFinset, ReferenceConfirmed]
  constructor
  · intro h a ha b hb hne hcon
    by_contra hu
    exact h a b ⟨ha, hb, hne⟩ ⟨hcon, hu⟩
  · rintro h a b ⟨ha, hb, hne⟩ ⟨hcon, hu⟩
    exact hu (h a ha b hb hne hcon)

/-- The rule an evidence set is classified by, at an evaluation tick. -/
noncomputable def evidenceRule (roster : ComponentRoster) (evidence : List ReachabilityEvidence)
    (policy : Option PartitionPolicy) (tick : UInt64) : ComponentId → ComponentId → PairResolution :=
  resolutionRule (freshOf roster (policyAge policy) tick evidence)
    (expiredOf roster (policyAge policy) tick evidence)

/-- The snapshot of a roster that is set and has components, with its intermediate values named. -/
theorem buildReachabilitySnapshot_eq {roster : ComponentRoster} (hset : roster.set = true)
    (hne : roster.size ≠ 0) (evidence : List ReachabilityEvidence)
    (policy : Option PartitionPolicy) (tick : UInt64) (limits : Limits) :
    let ctx := evidenceContext roster (policyAge policy) tick limits evidence
    let snapshot := buildReachabilitySnapshot roster evidence policy tick limits
    snapshot.edges = ctx.provenEdges roster.size
      ∧ snapshot.componentOf = componentLabels roster.size snapshot.edges
      ∧ snapshot.componentSizes = labelSizes roster.size snapshot.componentOf
      ∧ snapshot.counters = ctx.counters roster.size snapshot.edges snapshot.componentOf
          snapshot.componentSizes
      ∧ snapshot.confirmed = (snapshot.counters.crossComponentIndeterminate == 0) := by
  dsimp only
  rw [buildReachabilitySnapshot, if_neg (by simp [hset]), if_neg hne]
  exact ⟨rfl, rfl, rfl, rfl, rfl⟩

/-- **Exact pair accounting.**  On a non-empty roster and any evidence in ledger form, every counter
of the snapshot and its confirmed flag are what classifying the ordered pairs one by one gives; the
five categories add up to all of them; and no subtraction of the closed forms wraps, except the
predecessor of an empty size slot, which is multiplied by that zero. -/
theorem snapshot_accounting_exact (roster : ComponentRoster) (evidence : List ReachabilityEvidence)
    (policy : Option PartitionPolicy) (tick : UInt64) (limits : Limits) (hset : roster.set = true)
    (hne : roster.size ≠ 0) (hform : ∀ b ∈ evidence, LedgerForm roster b) :
    let snapshot := buildReachabilitySnapshot roster evidence policy tick limits
    let rule := evidenceRule roster evidence policy tick
    let c := snapshot.counters
    c = referenceCounters roster rule
      ∧ (snapshot.confirmed = true ↔ ReferenceConfirmed roster rule)
      ∧ c.orderedReachable + c.orderedUnreachable + c.orderedConflicting + c.orderedStale
          + c.orderedUnknown = roster.size * (roster.size - 1)
      ∧ ExactSubtractions (evidenceContext roster (policyAge policy) tick limits evidence)
          roster.size snapshot.componentOf snapshot.componentSizes := by
  dsimp only
  have hctx := @evidenceContext_regular roster (policyAge policy) tick limits evidence hform
  have hrule : ∀ s < roster.size, ∀ t < roster.size,
      (evidenceContext roster (policyAge policy) tick limits evidence).resolveOrdered s t
        = evidenceRule roster evidence policy tick (roster.at s) (roster.at t) :=
    fun s hs t ht => resolveOrdered_eq_rule hform hs ht
  obtain ⟨hedges, hlabels, hsizes, hcounters, hconfirmed⟩ :=
    buildReachabilitySnapshot_eq hset hne evidence policy tick limits
  rw [hedges] at hlabels hcounters
  rw [hlabels] at hsizes hcounters
  rw [hsizes] at hcounters
  have href := counters_eq_reference hctx hrule
  rw [hcounters] at hconfirmed
  refine ⟨by rw [hcounters, href], ?_, ?_, ?_⟩
  · rw [hconfirmed, href, beq_iff_eq]
    exact referenceConfirmed_iff
  · rw [hcounters]
    simp only [ResolutionContext.counters, sumOver_eq_sum, ← sum_add_distrib]
    calc ∑ s ∈ range roster.size, _
        = ∑ _s ∈ range roster.size, (roster.size - 1) := by
          refine sum_congr rfl fun s hs => ?_
          rw [hctx.tallySource_eq (mem_range.mp hs)]
          exact ResolutionContext.Regular.resolvedCount_sum _ (mem_range.mp hs)
      _ = roster.size * (roster.size - 1) := by
          rw [sum_const_nat fun _ _ => rfl, card_range]
  · rw [hlabels, hsizes]
    exact exactSubtractions hctx hne

/-! ## A fabric of two components

Two components that reach each other: one component set, so the size table has an empty slot. -/

/-- The two components. -/
def pairMember (name : String) (h : isValidId 96 (ascii name) = true) : ComponentId :=
  TextId.fromValidated (ascii name) h

theorem isValidId_topology : isValidId 96 (ascii "topology") = true := by decide

theorem isValidId_a : isValidId 96 (ascii "a") = true := by decide

theorem isValidId_b : isValidId 96 (ascii "b") = true := by decide

/-- The roster of the two components. -/
def pairRoster : ComponentRoster where
  id := TextId.fromValidated (ascii "topology") isValidId_topology
  components := [pairMember "a" isValidId_a, pairMember "b" isValidId_b]
  set := true
  sorted := by decide
  nonNil := by decide

/-- Each of the two observes that it reaches the other. -/
def pairEvidence : ReachabilityEvidence where
  id := TextId.fromValidated (ascii "evidence") (by decide)
  sequence := ⟨1⟩
  publisher := TextId.fromValidated (ascii "publisher") (by decide)
  publisherBoot := default
  topologyGeneration := .zero
  generation := ⟨1⟩
  validityTicks := 10
  provenance := .nil
  observations :=
    [⟨pairMember "a" isValidId_a, pairMember "b" isValidId_b, .reachable⟩,
      ⟨pairMember "b" isValidId_b, pairMember "a" isValidId_a, .reachable⟩]

theorem pairEvidence_ledgerForm : ∀ b ∈ [pairEvidence], LedgerForm pairRoster b := by
  intro b hb
  rw [List.mem_singleton.mp hb]
  exact ⟨by decide, by decide, by decide, by decide, by decide, by decide⟩

theorem snapshot_accounting_exact_pair :
    (buildReachabilitySnapshot pairRoster [pairEvidence] none 0 defaultLimits).counters
      = referenceCounters pairRoster (evidenceRule pairRoster [pairEvidence] none 0) :=
  (snapshot_accounting_exact pairRoster [pairEvidence] none 0 defaultLimits rfl (by decide)
    pairEvidence_ledgerForm).1

/-- The size table of the two components is `[2, 0]`: the loop over it computes `0 - 1`. -/
theorem componentSizes_has_empty_slot :
    (∀ b ∈ [pairEvidence], LedgerForm pairRoster b)
      ∧ ¬ ∀ value ∈ (buildReachabilitySnapshot pairRoster [pairEvidence] none 0
          defaultLimits).componentSizes, 1 ≤ value :=
  ⟨pairEvidence_ledgerForm, by decide +kernel⟩

end FabricPartition
