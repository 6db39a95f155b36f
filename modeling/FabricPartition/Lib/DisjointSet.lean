import Mathlib.Data.List.Basic
import Mathlib.Logic.Relation
import Mathlib.Algebra.Order.BigOperators.Ring.Finset
import Mathlib.Data.Finset.Card

/-!
# Disjoint sets over an index range

A union-find forest over the indices `0, …, n - 1` with union by rank and path halving, written the
way an imperative implementation stores it: a list of parents and a list of ranks.

The forest carries its own invariant — parents stay in range, and the rank grows strictly from a
node to its parent — so a cyclic forest cannot be built, and the `find` loop, which is fuelled by
the number of nodes, always has enough fuel (`find_leads`).

What a forest means is the relation `Same`: two nodes lead to one root.  The three operations are
specified by what they do to it:

* `same_ofCount`: in a fresh forest it is equality;
* `find_sameRoots`: `find` does not change it, although it rewrites parents;
* `same_unite`: `unite` joins exactly the two classes it is given.

`same_uniteAll` folds the last one over a list of edges: **after uniting a list of edges, two nodes
have the same root exactly when the edges connect them**.  `find_eq_iff_united` says the same of any
sequence of calls, searches among them, and `RankPaid.two_pow_rankOf_le` keeps the ranks logarithmic,
so that a rank fits a byte.
-/

set_option autoImplicit false

/-- A node's parent in a raw parent list; a node outside the list is its own parent. -/
def parentIn (parent : List Nat) (v : Nat) : Nat := parent.getD v v

/-- A node's rank in a raw rank list. -/
def rankIn (rank : List Nat) (v : Nat) : Nat := rank.getD v 0

/-- A union-find forest. -/
structure DisjointSet where
  parent : List Nat
  rank : List Nat
  /-- Parents are nodes. -/
  parent_lt : ∀ v, v < parent.length → parentIn parent v < parent.length
  /-- Every node has a rank. -/
  rank_length : rank.length = parent.length
  /-- Ranks grow towards the root. -/
  rank_lt : ∀ v, parentIn parent v ≠ v → rankIn rank v < rankIn rank (parentIn parent v)

namespace DisjointSet

theorem parentIn_set (parent : List Nat) (v p u : Nat) (hv : v < parent.length) :
    parentIn (parent.set v p) u = if u = v then p else parentIn parent u := by
  unfold parentIn
  by_cases h : u = v
  · subst h
    simp [List.getD_eq_getElem?_getD, hv]
  · simp [List.getD_eq_getElem?_getD, h, List.getElem?_set_ne (Ne.symm h)]

theorem rankIn_set (rank : List Nat) (v r u : Nat) (hv : v < rank.length) :
    rankIn (rank.set v r) u = if u = v then r else rankIn rank u := by
  unfold rankIn
  by_cases h : u = v
  · subst h
    simp [List.getD_eq_getElem?_getD, hv]
  · simp [List.getD_eq_getElem?_getD, h, List.getElem?_set_ne (Ne.symm h)]

theorem parentIn_of_le {parent : List Nat} {v : Nat} (h : parent.length ≤ v) :
    parentIn parent v = v := by
  simp [parentIn, List.getD_eq_getElem?_getD, h]

/-- The number of nodes. -/
def size (ds : DisjointSet) : Nat := ds.parent.length

/-- The parent of a node. -/
def parentOf (ds : DisjointSet) (v : Nat) : Nat := parentIn ds.parent v

/-- The rank of a node. -/
def rankOf (ds : DisjointSet) (v : Nat) : Nat := rankIn ds.rank v

theorem lt_size_of_parentOf_ne {ds : DisjointSet} {v : Nat} (h : ds.parentOf v ≠ v) :
    v < ds.size := by
  by_contra hge
  exact h (parentIn_of_le (Nat.not_lt.mp hge))

theorem rankOf_lt {ds : DisjointSet} {v : Nat} (h : ds.parentOf v ≠ v) :
    ds.rankOf v < ds.rankOf (ds.parentOf v) :=
  ds.rank_lt v h

/-! ## The operations -/

/-- A fresh forest: every node is its own root. -/
def ofCount (n : Nat) : DisjointSet where
  parent := List.range n
  rank := List.replicate n 0
  parent_lt v hv := by
    have hv' : v < n := by simpa using hv
    simp [parentIn, List.getD_eq_getElem?_getD, hv']
  rank_length := by simp
  rank_lt v h := by
    refine absurd ?_ h
    unfold parentIn
    by_cases hv : v < n <;> simp [List.getD_eq_getElem?_getD, hv]

/-- One halving step: a node is re-attached to its grandparent. -/
def halve (ds : DisjointSet) (v : Nat) (h : ds.parentOf v ≠ v) : DisjointSet where
  parent := ds.parent.set v (ds.parentOf (ds.parentOf v))
  rank := ds.rank
  parent_lt u hu := by
    have hv : v < ds.parent.length := lt_size_of_parentOf_ne h
    rw [List.length_set] at hu ⊢
    rw [parentIn_set _ _ _ _ hv]
    split
    · exact ds.parent_lt _ (ds.parent_lt _ hv)
    · exact ds.parent_lt _ hu
  rank_length := by rw [List.length_set]; exact ds.rank_length
  rank_lt u hu := by
    have hv : v < ds.parent.length := lt_size_of_parentOf_ne h
    rw [parentIn_set _ _ _ _ hv] at hu ⊢
    split at hu <;> rename_i huv
    · subst huv
      rw [if_pos rfl]
      have h1 := ds.rank_lt u h
      by_cases h2 : ds.parentOf (ds.parentOf u) = ds.parentOf u
      · rw [h2]
        exact h1
      · exact h1.trans (ds.rank_lt _ h2)
    · rw [if_neg huv]
      exact ds.rank_lt u hu

/-- The `find` loop with path halving, with a bound on its rounds. -/
def findLoop : Nat → DisjointSet → Nat → Nat × DisjointSet
  | 0, ds, v => (v, ds)
  | fuel + 1, ds, v =>
    if h : ds.parentOf v = v then (v, ds)
    else findLoop fuel (ds.halve v h) (ds.parentOf (ds.parentOf v))

/-- Find the root of a node, halving the path to it. -/
def find (ds : DisjointSet) (v : Nat) : Nat × DisjointSet := findLoop ds.size ds v

/-- Attach one root below another whose rank is not smaller; equal ranks raise the winner's. -/
def link (ds : DisjointSet) (root child : Nat) (hroot : ds.parentOf root = root)
    (hlt : root < ds.size ∧ child < ds.size) (hne : root ≠ child)
    (hchild : ds.parentOf child = child) (hrank : ds.rankOf child ≤ ds.rankOf root) :
    DisjointSet where
  parent := ds.parent.set child root
  rank := if ds.rankOf root = ds.rankOf child then ds.rank.set root (ds.rankOf root + 1) else ds.rank
  parent_lt u hu := by
    rw [List.length_set] at hu ⊢
    rw [parentIn_set _ _ _ _ hlt.2]
    split
    · exact hlt.1
    · exact ds.parent_lt _ hu
  rank_length := by
    rw [List.length_set]
    split
    · rw [List.length_set]
      exact ds.rank_length
    · exact ds.rank_length
  rank_lt u hu := by
    have hr : root < ds.rank.length := by rw [ds.rank_length]; exact hlt.1
    rw [parentIn_set _ _ _ _ hlt.2] at hu ⊢
    -- whatever the new ranks are, only the root's has grown, and it beats the child's
    have hgrow : ∀ w, rankIn (if ds.rankOf root = ds.rankOf child then
        ds.rank.set root (ds.rankOf root + 1) else ds.rank) w
        = if w = root ∧ ds.rankOf root = ds.rankOf child then ds.rankOf root + 1
          else ds.rankOf w := by
      intro w
      by_cases heq : ds.rankOf root = ds.rankOf child
      · simp only [heq, if_true, and_true]
        rw [rankIn_set _ _ _ _ hr]
        rfl
      · simp only [heq, if_false, and_false]
        rfl
    rw [hgrow, hgrow]
    by_cases huc : u = child
    · subst huc
      simp only [if_true, hne.symm, false_and, if_false]
      split
      · omega
      · rename_i h
        simp only [true_and] at h
        omega
    · rw [if_neg huc] at hu ⊢
      have hur : u ≠ root := by
        rintro rfl
        exact hu hroot
      have := ds.rank_lt u hu
      simp only [hur, false_and, if_false]
      change ds.rankOf u < _
      split
      · rename_i h
        have hp : parentIn ds.parent u = root := h.1
        rw [hp] at this
        exact Nat.lt_succ_of_lt this
      · exact this

/-! ## Where a node leads -/

/-- The parent pointers lead from a node to a root. -/
inductive Leads (ds : DisjointSet) : Nat → Nat → Prop
  | root {v : Nat} (h : ds.parentOf v = v) : Leads ds v v
  | step {v r : Nat} (h : ds.parentOf v ≠ v) (t : Leads ds (ds.parentOf v) r) : Leads ds v r

namespace Leads

variable {ds : DisjointSet} {v r s : Nat}

theorem isRoot (h : Leads ds v r) : ds.parentOf r = r := by
  induction h with
  | root h => exact h
  | step _ _ ih => exact ih

theorem unique (hr : Leads ds v r) (hs : Leads ds v s) : r = s := by
  induction hr with
  | root h =>
    cases hs with
    | root _ => rfl
    | step h' _ => exact absurd h h'
  | step h _ ih =>
    cases hs with
    | root h' => exact absurd h' h
    | step _ t => exact ih t

theorem lt_size (h : Leads ds v r) (hv : v < ds.size) : r < ds.size := by
  induction h with
  | root _ => exact hv
  | step _ _ ih => exact ih (ds.parent_lt _ hv)

theorem of_root (hr : Leads ds r s) (h : ds.parentOf r = r) : s = r :=
  (unique (root h) hr).symm

end Leads

/-- How many nodes are ranked above a node: it decreases on every step towards the root. -/
def above (ds : DisjointSet) (v : Nat) : Nat :=
  ((Finset.range ds.size).filter fun u => ds.rankOf v < ds.rankOf u).card

theorem above_parentOf_lt {ds : DisjointSet} {v : Nat} (h : ds.parentOf v ≠ v) :
    ds.above (ds.parentOf v) < ds.above v := by
  have hlt := rankOf_lt h
  apply Finset.card_lt_card
  rw [Finset.ssubset_iff_of_subset]
  · refine ⟨ds.parentOf v, ?_, ?_⟩
    · simp only [Finset.mem_filter, Finset.mem_range]
      exact ⟨ds.parent_lt _ (lt_size_of_parentOf_ne h), hlt⟩
    · simp
  · intro u
    simp only [Finset.mem_filter]
    rintro ⟨hu, hr⟩
    exact ⟨hu, hlt.trans hr⟩

theorem above_lt_size {ds : DisjointSet} {v : Nat} (h : ds.parentOf v ≠ v) :
    ds.above v < ds.size := by
  have hv := lt_size_of_parentOf_ne h
  calc ds.above v < (Finset.range ds.size).card := by
        apply Finset.card_lt_card
        refine (Finset.filter_ssubset).mpr ⟨v, Finset.mem_range.mpr hv, lt_irrefl _⟩
    _ = ds.size := Finset.card_range _

theorem exists_leads (ds : DisjointSet) (v : Nat) : ∃ r, Leads ds v r := by
  -- the climb is well founded: `above` decreases
  induction h : ds.above v using Nat.strong_induction_on generalizing v with
  | _ n ih =>
    by_cases hv : ds.parentOf v = v
    · exact ⟨v, .root hv⟩
    · obtain ⟨r, hr⟩ := ih _ (h ▸ above_parentOf_lt hv) (ds.parentOf v) rfl
      exact ⟨r, .step hv hr⟩

/-! ## Halving and finding keep every root -/

theorem halve_parentOf (ds : DisjointSet) {v : Nat} (h : ds.parentOf v ≠ v) (u : Nat) :
    (ds.halve v h).parentOf u = if u = v then ds.parentOf (ds.parentOf v) else ds.parentOf u :=
  parentIn_set _ _ _ _ (lt_size_of_parentOf_ne h)

theorem halve_size (ds : DisjointSet) {v : Nat} (h : ds.parentOf v ≠ v) :
    (ds.halve v h).size = ds.size :=
  List.length_set ..

theorem halve_above (ds : DisjointSet) {v : Nat} (h : ds.parentOf v ≠ v) (u : Nat) :
    (ds.halve v h).above u = ds.above u := by
  unfold above
  rw [halve_size]
  rfl

theorem grandparent_ne {ds : DisjointSet} {v : Nat} (h : ds.parentOf v ≠ v) :
    ds.parentOf (ds.parentOf v) ≠ v := by
  intro he
  have h1 := rankOf_lt h
  by_cases h2 : ds.parentOf (ds.parentOf v) = ds.parentOf v
  · exact h (h2.symm.trans he)
  · have h3 := rankOf_lt h2
    rw [he] at h3
    omega

theorem Leads.halve {ds : DisjointSet} {v u r : Nat} (h : ds.parentOf v ≠ v) (hu : Leads ds u r) :
    Leads (ds.halve v h) u r := by
  induction hu with
  | @root u hroot =>
    refine .root ?_
    rw [halve_parentOf, if_neg]
    · exact hroot
    · rintro rfl
      exact h hroot
  | @step u r hstep _ ih =>
    by_cases huv : u = v
    · subst huv
      have hp : (ds.halve u h).parentOf u = ds.parentOf (ds.parentOf u) := by
        rw [halve_parentOf, if_pos rfl]
      refine .step (by rw [hp]; exact grandparent_ne h) ?_
      rw [hp]
      -- the grandparent is where the parent's own first step leads
      have hpp : (ds.halve u h).parentOf (ds.parentOf u) = ds.parentOf (ds.parentOf u) := by
        rw [halve_parentOf, if_neg h]
      cases ih with
      | root hr =>
        rw [hpp] at hr
        rw [hr]
        exact .root (hpp.trans hr)
      | step _ t => rwa [hpp] at t
    · have hp : (ds.halve v h).parentOf u = ds.parentOf u := by
        rw [halve_parentOf, if_neg huv]
      refine .step (by rw [hp]; exact hstep) ?_
      rw [hp]
      exact ih

/-- Two forests over the same nodes in which every node leads to the same root. -/
def SameRoots (ds ds' : DisjointSet) : Prop :=
  ds'.size = ds.size ∧ ∀ u r, Leads ds' u r ↔ Leads ds u r

theorem SameRoots.refl (ds : DisjointSet) : SameRoots ds ds := ⟨rfl, fun _ _ => Iff.rfl⟩

theorem SameRoots.trans {a b c : DisjointSet} (h : SameRoots a b) (h' : SameRoots b c) :
    SameRoots a c :=
  ⟨h'.1.trans h.1, fun u r => (h'.2 u r).trans (h.2 u r)⟩

theorem sameRoots_halve (ds : DisjointSet) {v : Nat} (h : ds.parentOf v ≠ v) :
    SameRoots ds (ds.halve v h) := by
  refine ⟨halve_size ds h, fun u r => ⟨fun hu => ?_, Leads.halve h⟩⟩
  obtain ⟨s, hs⟩ := exists_leads ds u
  have := (Leads.halve h hs).unique hu
  exact this ▸ hs

theorem findLoop_spec (fuel : Nat) (ds : DisjointSet) (v : Nat)
    (hfuel : ds.parentOf v ≠ v → ds.above v < fuel) :
    Leads ds v (findLoop fuel ds v).1 ∧ SameRoots ds (findLoop fuel ds v).2 := by
  induction fuel generalizing ds v with
  | zero =>
    have hv : ds.parentOf v = v := by
      by_contra h
      exact Nat.not_lt_zero _ (hfuel h)
    exact ⟨.root hv, SameRoots.refl ds⟩
  | succ fuel ih =>
    rw [findLoop]
    by_cases hv : ds.parentOf v = v
    · rw [dif_pos hv]
      exact ⟨.root hv, SameRoots.refl ds⟩
    · rw [dif_neg hv]
      have hpar := above_parentOf_lt hv
      have hsame := sameRoots_halve ds hv
      obtain ⟨hlead, hkeep⟩ := ih (ds.halve v hv) (ds.parentOf (ds.parentOf v)) (by
        intro hne
        rw [halve_above]
        have hv1 := hfuel hv
        by_cases hp : ds.parentOf (ds.parentOf v) = ds.parentOf v
        · rw [hp]
          omega
        · have := above_parentOf_lt hp
          omega)
      refine ⟨?_, hsame.trans hkeep⟩
      have hlead' := (hsame.2 _ _).mp hlead
      refine .step hv ?_
      by_cases hp : ds.parentOf (ds.parentOf v) = ds.parentOf v
      · rw [hp] at hlead' ⊢
        exact hlead'
      · exact .step hp hlead'

/-- `find` returns the root of the node. -/
theorem find_leads (ds : DisjointSet) (v : Nat) : Leads ds v (ds.find v).1 :=
  (findLoop_spec ds.size ds v fun h => above_lt_size h).1

/-- `find` only rewrites paths. -/
theorem find_sameRoots (ds : DisjointSet) (v : Nat) : SameRoots ds (ds.find v).2 :=
  (findLoop_spec ds.size ds v fun h => above_lt_size h).2

/-! ## Uniting -/

/-- Hang the root of lower rank below the other one.  On two distinct roots of the forest, which is
what `unite` calls it with, the guard is only the test that they differ. -/
def attach (ds : DisjointSet) (a b : Nat) : DisjointSet :=
  if h : (a < ds.size ∧ b < ds.size) ∧ ds.parentOf a = a ∧ ds.parentOf b = b ∧ a ≠ b then
    if hr : ds.rankOf a < ds.rankOf b then
      ds.link b a h.2.2.1 ⟨h.1.2, h.1.1⟩ h.2.2.2.symm h.2.1 (Nat.le_of_lt hr)
    else ds.link a b h.2.1 h.1 h.2.2.2 h.2.2.1 (Nat.le_of_not_lt hr)
  else ds

/-- Join the classes of two nodes. -/
def unite (ds : DisjointSet) (a b : Nat) : DisjointSet :=
  let (ra, ds) := ds.find a
  let (rb, ds) := ds.find b
  ds.attach ra rb

/-- Join the ends of every edge of a list. -/
def uniteAll (ds : DisjointSet) (edges : List (Nat × Nat)) : DisjointSet :=
  edges.foldl (fun ds e => ds.unite e.1 e.2) ds

/-- Two nodes lead to one root. -/
def Same (ds : DisjointSet) (u v : Nat) : Prop := ∃ r, Leads ds u r ∧ Leads ds v r

namespace Same

variable {ds : DisjointSet} {u v w : Nat}

theorem refl (ds : DisjointSet) (u : Nat) : Same ds u u := by
  obtain ⟨r, hr⟩ := exists_leads ds u
  exact ⟨r, hr, hr⟩

theorem symm (h : Same ds u v) : Same ds v u := by
  obtain ⟨r, hu, hv⟩ := h
  exact ⟨r, hv, hu⟩

theorem trans (h : Same ds u v) (h' : Same ds v w) : Same ds u w := by
  obtain ⟨r, hu, hv⟩ := h
  obtain ⟨s, hv', hw⟩ := h'
  cases hv.unique hv'
  exact ⟨r, hu, hw⟩

end Same

theorem SameRoots.same_iff {ds ds' : DisjointSet} (h : SameRoots ds ds') (u v : Nat) :
    Same ds' u v ↔ Same ds u v := by
  simp only [Same, h.2]

/-- Two nodes are in the same class exactly when `find` returns one root for them. -/
theorem find_eq_iff (ds : DisjointSet) (u v : Nat) :
    (ds.find u).1 = (ds.find v).1 ↔ Same ds u v := by
  constructor
  · intro h
    exact ⟨_, find_leads ds u, h ▸ find_leads ds v⟩
  · rintro ⟨r, hu, hv⟩
    rw [(find_leads ds u).unique hu, (find_leads ds v).unique hv]

/-- A root is found again after any number of other searches. -/
theorem SameRoots.find_eq {ds ds' : DisjointSet} (h : SameRoots ds ds') (u : Nat) :
    (ds'.find u).1 = (ds.find u).1 :=
  ((h.2 _ _).mp (find_leads ds' u)).unique (find_leads ds u)

section Link

variable {ds : DisjointSet} {root child : Nat} (hroot : ds.parentOf root = root)
  (hlt : root < ds.size ∧ child < ds.size) (hne : root ≠ child)
  (hchild : ds.parentOf child = child) (hrank : ds.rankOf child ≤ ds.rankOf root)

include hroot hlt hne hchild hrank

theorem link_parentOf (u : Nat) :
    (ds.link root child hroot hlt hne hchild hrank).parentOf u
      = if u = child then root else ds.parentOf u :=
  parentIn_set _ _ _ _ hlt.2

theorem link_leads {u r : Nat} (h : Leads ds u r) :
    Leads (ds.link root child hroot hlt hne hchild hrank) u (if r = child then root else r) := by
  have hroot' : (ds.link root child hroot hlt hne hchild hrank).parentOf root = root := by
    rw [link_parentOf, if_neg hne]
    exact hroot
  induction h with
  | @root u hu =>
    by_cases huc : u = child
    · rw [if_pos huc]
      have hp : (ds.link root child hroot hlt hne hchild hrank).parentOf u = root := by
        rw [link_parentOf, if_pos huc]
      refine .step ?_ ?_
      · rw [hp, huc]
        exact hne
      · rw [hp]
        exact .root hroot'
    · rw [if_neg huc]
      refine .root ?_
      rw [link_parentOf, if_neg huc]
      exact hu
  | @step u r hu _ ih =>
    have huc : u ≠ child := by
      rintro rfl
      exact hu hchild
    have hp : (ds.link root child hroot hlt hne hchild hrank).parentOf u = ds.parentOf u := by
      rw [link_parentOf, if_neg huc]
    refine .step ?_ ?_
    · rw [hp]
      exact hu
    · rw [hp]
      exact ih

theorem same_link (u v : Nat) :
    Same (ds.link root child hroot hlt hne hchild hrank) u v ↔
      Same ds u v ∨ (Same ds u root ∧ Same ds v child) ∨ (Same ds u child ∧ Same ds v root) := by
  obtain ⟨r, hr⟩ := exists_leads ds u
  obtain ⟨s, hs⟩ := exists_leads ds v
  have hr' := link_leads hroot hlt hne hchild hrank hr
  have hs' := link_leads hroot hlt hne hchild hrank hs
  have hsame : ∀ {x y a b : Nat}, Leads ds x a → Leads ds y b → (Same ds x y ↔ a = b) := by
    intro x y a b ha hb
    constructor
    · rintro ⟨c, hx, hy⟩
      rw [ha.unique hx, hb.unique hy]
    · rintro rfl
      exact ⟨a, ha, hb⟩
  have hnew : Same (ds.link root child hroot hlt hne hchild hrank) u v ↔
      (if r = child then root else r) = (if s = child then root else s) := by
    constructor
    · rintro ⟨c, hu, hv⟩
      rw [hr'.unique hu, hs'.unique hv]
    · intro h
      exact ⟨_, hr', h ▸ hs'⟩
  rw [hnew, hsame hr hs, hsame hr (.root hroot), hsame hs (.root hchild), hsame hr (.root hchild),
    hsame hs (.root hroot)]
  by_cases h1 : r = child <;> by_cases h2 : s = child <;> simp only [h1, h2, if_true, if_false] <;>
    grind

end Link

theorem link_size {ds : DisjointSet} {root child : Nat} (h1 h2 h3 h4 h5) :
    (ds.link root child h1 h2 h3 h4 h5).size = ds.size :=
  List.length_set ..

theorem attach_size (ds : DisjointSet) (a b : Nat) : (ds.attach a b).size = ds.size := by
  unfold attach
  split
  · split <;> exact link_size ..
  · rfl

theorem same_attach {ds : DisjointSet} {a b : Nat} (hlt : a < ds.size ∧ b < ds.size)
    (ha : ds.parentOf a = a) (hb : ds.parentOf b = b) (u v : Nat) :
    Same (ds.attach a b) u v ↔
      Same ds u v ∨ (Same ds u a ∧ Same ds v b) ∨ (Same ds u b ∧ Same ds v a) := by
  unfold attach
  by_cases hab : a = b
  · subst hab
    rw [dif_neg (by simp)]
    constructor
    · exact .inl
    · rintro (h | ⟨h, h'⟩ | ⟨h, h'⟩)
      · exact h
      · exact h.trans h'.symm
      · exact h.trans h'.symm
  · rw [dif_pos ⟨hlt, ha, hb, hab⟩]
    split
    · rw [same_link]
      tauto
    · exact same_link ..

theorem unite_size (ds : DisjointSet) (a b : Nat) : (ds.unite a b).size = ds.size := by
  unfold unite
  rw [attach_size, (find_sameRoots _ b).1, (find_sameRoots ds a).1]

/-- `unite` joins exactly the two classes it is given. -/
theorem same_unite {ds : DisjointSet} {a b : Nat} (ha : a < ds.size) (hb : b < ds.size)
    (u v : Nat) :
    Same (ds.unite a b) u v ↔
      Same ds u v ∨ (Same ds u a ∧ Same ds v b) ∨ (Same ds u b ∧ Same ds v a) := by
  have h1 := find_sameRoots ds a
  have h2 := find_sameRoots (ds.find a).2 b
  have h12 := h1.trans h2
  have hla : Leads ((ds.find a).2.find b).2 a (ds.find a).1 := (h12.2 _ _).mpr (find_leads ds a)
  have hlb : Leads ((ds.find a).2.find b).2 b ((ds.find a).2.find b).1 :=
    (h2.2 _ _).mpr (find_leads _ b)
  have hroot : ∀ x, Same ds x (ds.find a).1 ↔ Same ds x a := by
    intro x
    have ha' : Same ds (ds.find a).1 a :=
      ⟨_, .root (find_leads ds a).isRoot, find_leads ds a⟩
    exact ⟨fun h => h.trans ha', fun h => h.trans ha'.symm⟩
  have hroot' : ∀ x, Same ds x ((ds.find a).2.find b).1 ↔ Same ds x b := by
    intro x
    have hb' : Same ds ((ds.find a).2.find b).1 b :=
      (h12.same_iff _ _).mp ⟨_, .root hlb.isRoot, hlb⟩
    exact ⟨fun h => h.trans hb', fun h => h.trans hb'.symm⟩
  unfold unite
  rw [same_attach ⟨hla.lt_size (by rw [h12.1]; exact ha), hlb.lt_size (by rw [h12.1]; exact hb)⟩
    hla.isRoot hlb.isRoot]
  simp only [h12.same_iff, hroot, hroot']

theorem same_ofCount (n u v : Nat) : Same (ofCount n) u v ↔ u = v := by
  have hroot : ∀ x, Leads (ofCount n) x x := by
    intro x
    refine .root ?_
    unfold parentOf parentIn ofCount
    by_cases hx : x < n <;> simp [List.getD_eq_getElem?_getD, hx]
  constructor
  · rintro ⟨r, hu, hv⟩
    rw [(hroot u).unique hu, (hroot v).unique hv]
  · rintro rfl
    exact Same.refl _ _

/-- The edges of a list, read as a relation. -/
def EdgeOf (edges : List (Nat × Nat)) (u v : Nat) : Prop := (u, v) ∈ edges

/-- **After uniting a list of edges, two nodes have the same root exactly when the edges connect
them.** -/
theorem same_uniteAll {n : Nat} {edges : List (Nat × Nat)}
    (hedges : ∀ e ∈ edges, e.1 < n ∧ e.2 < n) (u v : Nat) :
    Same ((ofCount n).uniteAll edges) u v ↔ Relation.EqvGen (EdgeOf edges) u v := by
  -- the fold invariant: the forest's classes are the connectivity classes of the edges so far
  suffices h : ∀ (rest done : List (Nat × Nat)) (ds : DisjointSet), ds.size = n →
      (∀ e ∈ rest, e.1 < n ∧ e.2 < n) →
      (∀ u v, Same ds u v ↔ Relation.EqvGen (EdgeOf done) u v) →
      ∀ u v, Same (ds.uniteAll rest) u v ↔ Relation.EqvGen (EdgeOf (done ++ rest)) u v by
    refine h edges [] _ (by simp [ofCount, size]) hedges (fun u v => ?_) u v
    rw [same_ofCount]
    constructor
    · rintro rfl
      exact .refl _
    · intro h
      induction h with
      | rel x y h => exact absurd h List.not_mem_nil
      | refl x => rfl
      | symm x y _ ih => exact ih.symm
      | trans x y z _ _ ih1 ih2 => exact ih1.trans ih2
  intro rest
  induction rest with
  | nil =>
    intro done ds _ _ h u v
    rw [List.append_nil]
    exact h u v
  | cons e rest ih =>
    intro done ds hsize hlt h u v
    have he := hlt e List.mem_cons_self
    have hstep : ∀ u v, Same (ds.unite e.1 e.2) u v ↔
        Relation.EqvGen (EdgeOf (done ++ [e])) u v := by
      intro u v
      rw [same_unite (by omega) (by omega)]
      have hmono : ∀ {x y}, Same ds x y → Relation.EqvGen (EdgeOf (done ++ [e])) x y := by
        intro x y hxy
        exact Relation.EqvGen.mono (fun a b hab => List.mem_append_left _ hab) _ _ ((h x y).mp hxy)
      have hedge : Relation.EqvGen (EdgeOf (done ++ [e])) e.1 e.2 :=
        .rel _ _ (List.mem_append_right _ (List.mem_singleton.mpr rfl))
      constructor
      · rintro (hs | ⟨h1, h2⟩ | ⟨h1, h2⟩)
        · exact hmono hs
        · exact ((hmono h1).trans _ _ _ hedge).trans _ _ _ (hmono h2.symm)
        · exact ((hmono h1).trans _ _ _ (hedge.symm _ _)).trans _ _ _ (hmono h2.symm)
      · intro hgen
        have hs1 := Same.refl ds e.1
        have hs2 := Same.refl ds e.2
        rw [← same_unite (by omega) (by omega)]
        induction hgen with
        | rel x y hxy =>
          rw [same_unite (by omega) (by omega)]
          rcases List.mem_append.mp hxy with hxy | hxy
          · exact .inl ((h x y).mpr (.rel _ _ hxy))
          · cases List.mem_singleton.mp hxy
            exact .inr (.inl ⟨hs1, hs2⟩)
        | refl x => exact Same.refl _ _
        | symm x y _ ih => exact ih.symm
        | trans x y z _ _ ih1 ih2 => exact ih1.trans ih2
    have := ih (done ++ [e]) (ds.unite e.1 e.2) (by rw [unite_size, hsize])
      (fun e' he' => hlt e' (List.mem_cons_of_mem _ he')) hstep u v
    rwa [List.append_assoc] at this

theorem uniteAll_size (ds : DisjointSet) (edges : List (Nat × Nat)) :
    (ds.uniteAll edges).size = ds.size := by
  induction edges generalizing ds with
  | nil => rfl
  | cons e rest ih =>
    change ((ds.unite e.1 e.2).uniteAll rest).size = ds.size
    rw [ih, unite_size]

/-! ## Any sequence of calls -/

/-- The loop has ended before the bound on its rounds is reached: a larger bound changes nothing. -/
theorem findLoop_eq_find (fuel : Nat) (ds : DisjointSet) (v : Nat) (hfuel : ds.size ≤ fuel) :
    findLoop fuel ds v = ds.find v := by
  suffices h : ∀ (fuel fuel' : Nat) (ds : DisjointSet) (v : Nat),
      (ds.parentOf v ≠ v → ds.above v < fuel) → (ds.parentOf v ≠ v → ds.above v < fuel') →
      findLoop fuel ds v = findLoop fuel' ds v from
    h _ _ _ _ (fun hv => (above_lt_size hv).trans_le hfuel) fun hv => above_lt_size hv
  intro fuel
  induction fuel with
  | zero =>
    intro fuel' ds v h h'
    have hv : ds.parentOf v = v := by
      by_contra hne
      exact Nat.not_lt_zero _ (h hne)
    rcases fuel' with _ | fuel'
    · rfl
    · rw [findLoop, findLoop, dif_pos hv]
  | succ fuel ih =>
    intro fuel' ds v h h'
    by_cases hv : ds.parentOf v = v
    · rcases fuel' with _ | fuel' <;> simp only [findLoop, hv, dif_pos]
    · rcases fuel' with _ | fuel'
      · exact absurd (h' hv) (Nat.not_lt_zero _)
      · rw [findLoop, findLoop, dif_neg hv, dif_neg hv]
        have hhalf : (ds.halve v hv).parentOf (ds.parentOf (ds.parentOf v))
            ≠ ds.parentOf (ds.parentOf v) →
            (ds.halve v hv).above (ds.parentOf (ds.parentOf v)) < ds.above v := by
          intro hne
          rw [halve_above]
          have hfirst := above_parentOf_lt hv
          by_cases hp : ds.parentOf (ds.parentOf v) = ds.parentOf v
          · rw [hp]
            exact hfirst
          · exact (above_parentOf_lt hp).trans hfirst
        refine ih fuel' _ _ (fun hne => ?_) fun hne => ?_
        · have := hhalf hne
          have := h hv
          omega
        · have := hhalf hne
          have := h' hv
          omega

/-- A call on a forest. -/
inductive Access
  | find (v : Nat)
  | unite (a b : Nat)
  deriving DecidableEq

/-- The nodes a call names are below a bound. -/
def Access.Below (n : Nat) : Access → Prop
  | .find v => v < n
  | .unite a b => a < n ∧ b < n

instance (n : Nat) (call : Access) : Decidable (call.Below n) := by
  cases call <;> unfold Access.Below <;> infer_instance

/-- The pair a call unites, if it is one to unite. -/
def Access.united : Access → Option (Nat × Nat)
  | .find _ => none
  | .unite a b => some (a, b)

/-- The forest after a call. -/
def access (ds : DisjointSet) : Access → DisjointSet
  | .find v => (ds.find v).2
  | .unite a b => ds.unite a b

/-- The forest after a sequence of calls. -/
def accessAll (ds : DisjointSet) (calls : List Access) : DisjointSet := calls.foldl access ds

theorem access_size (ds : DisjointSet) (call : Access) : (ds.access call).size = ds.size := by
  rcases call with v | ⟨a, b⟩
  · exact (find_sameRoots ds v).1
  · exact unite_size ds a b

theorem accessAll_size (ds : DisjointSet) (calls : List Access) :
    (ds.accessAll calls).size = ds.size := by
  induction calls generalizing ds with
  | nil => rfl
  | cons call rest ih => exact (ih (ds.access call)).trans (access_size ds call)

/-- Searches change no class: a sequence of calls leaves the classes its unions alone leave. -/
theorem same_accessAll {n : Nat} {calls : List Access} (hcalls : ∀ call ∈ calls, call.Below n)
    {ds ds' : DisjointSet} (hsize : ds.size = n) (hsize' : ds'.size = n)
    (hsame : ∀ u v, Same ds u v ↔ Same ds' u v) (u v : Nat) :
    Same (ds.accessAll calls) u v ↔ Same (ds'.uniteAll (calls.filterMap Access.united)) u v := by
  induction calls generalizing ds ds' with
  | nil => exact hsame u v
  | cons call rest ih =>
    have hbelow := hcalls call List.mem_cons_self
    have hrest := fun call hcall => hcalls call (List.mem_cons_of_mem _ hcall)
    rcases call with w | ⟨a, b⟩
    · rw [List.filterMap_cons_none rfl]
      refine ih hrest ((find_sameRoots ds w).1.trans hsize) hsize' fun u v => ?_
      exact ((find_sameRoots ds w).same_iff u v).trans (hsame u v)
    · rw [show (Access.unite a b :: rest).filterMap Access.united
        = (a, b) :: rest.filterMap Access.united from rfl]
      refine ih hrest ((unite_size ds a b).trans hsize) ((unite_size ds' a b).trans hsize')
        fun u v => ?_
      show Same (ds.unite a b) u v ↔ Same (ds'.unite a b) u v
      rw [same_unite (hbelow.1.trans_eq hsize.symm) (hbelow.2.trans_eq hsize.symm),
        same_unite (hbelow.1.trans_eq hsize'.symm) (hbelow.2.trans_eq hsize'.symm)]
      simp only [hsame]

/-- **After any sequence of calls, two nodes have the same root exactly when the united pairs connect
them.** -/
theorem find_eq_iff_united {n : Nat} {calls : List Access} (hcalls : ∀ call ∈ calls, call.Below n)
    (u v : Nat) :
    (((ofCount n).accessAll calls).find u).1 = (((ofCount n).accessAll calls).find v).1 ↔
      Relation.EqvGen (EdgeOf (calls.filterMap Access.united)) u v := by
  have hsize : (ofCount n).size = n := by simp [ofCount, size]
  rw [find_eq_iff, same_accessAll hcalls hsize hsize fun _ _ => Iff.rfl]
  refine same_uniteAll (fun e he => ?_) u v
  obtain ⟨call, hcall, hunited⟩ := List.mem_filterMap.mp he
  have hbelow := hcalls call hcall
  rcases call with w | ⟨a, b⟩
  · cases hunited
  · cases hunited
    exact hbelow

/-! ## Ranks stay small -/

/-- Each root has enough nodes to its name to pay for its rank. -/
def RankPaid (ds : DisjointSet) : Prop :=
  ∃ mass : Nat → Nat, (∀ r < ds.size, ds.parentOf r = r → 2 ^ ds.rankOf r ≤ mass r) ∧
    ∑ v ∈ Finset.range ds.size, mass v ≤ ds.size

theorem rankPaid_ofCount (n : Nat) : RankPaid (ofCount n) := by
  refine ⟨fun _ => 1, fun r _ _ => ?_, ?_⟩
  · have hrank : (ofCount n).rankOf r = 0 := by
      unfold rankOf rankIn ofCount
      by_cases hr : r < n <;> simp [List.getD_eq_getElem?_getD, hr]
    rw [hrank, Nat.pow_zero]
  · exact le_of_eq (by simp)

theorem RankPaid.halve {ds : DisjointSet} (hp : ds.RankPaid) {v : Nat} (h : ds.parentOf v ≠ v) :
    (ds.halve v h).RankPaid := by
  obtain ⟨mass, hroots, hsum⟩ := hp
  refine ⟨mass, fun r hr hroot => ?_, ?_⟩
  · rw [halve_size] at hr
    rw [halve_parentOf] at hroot
    split at hroot
    · rename_i hrv
      exact absurd (hroot.trans hrv) (grandparent_ne h)
    · exact hroots r hr hroot
  · rw [halve_size]
    exact hsum

theorem RankPaid.findLoop (fuel : Nat) {ds : DisjointSet} (hp : ds.RankPaid) (v : Nat) :
    (findLoop fuel ds v).2.RankPaid := by
  induction fuel generalizing ds v with
  | zero => exact hp
  | succ fuel ih =>
    rw [DisjointSet.findLoop]
    split
    · exact hp
    · exact ih (hp.halve _) _

/-- The winner takes over what the loser had. -/
theorem RankPaid.link {ds : DisjointSet} (hp : ds.RankPaid) {root child : Nat}
    (hroot : ds.parentOf root = root) (hlt : root < ds.size ∧ child < ds.size) (hne : root ≠ child)
    (hchild : ds.parentOf child = child) (hrank : ds.rankOf child ≤ ds.rankOf root) :
    (ds.link root child hroot hlt hne hchild hrank).RankPaid := by
  obtain ⟨mass, hroots, hsum⟩ := hp
  have hmroot := hroots root hlt.1 hroot
  have hmchild := hroots child hlt.2 hchild
  have hrankOf : ∀ w, (ds.link root child hroot hlt hne hchild hrank).rankOf w
      = if w = root ∧ ds.rankOf root = ds.rankOf child then ds.rankOf root + 1
        else ds.rankOf w := by
    intro w
    show rankIn (if ds.rankOf root = ds.rankOf child then
      ds.rank.set root (ds.rankOf root + 1) else ds.rank) w = _
    by_cases heq : ds.rankOf root = ds.rankOf child
    · simp only [heq, if_true, and_true]
      rw [rankIn_set _ _ _ _ (by rw [ds.rank_length]; exact hlt.1)]
      rfl
    · simp only [heq, if_false, and_false]
      rfl
  refine ⟨fun w => if w = child then 0 else if w = root then mass root + mass child else mass w,
    fun r hr hr' => ?_, ?_⟩
  · rw [link_size] at hr
    rw [link_parentOf] at hr'
    have hrc : r ≠ child := by
      rintro rfl
      rw [if_pos rfl] at hr'
      exact hne hr'
    rw [if_neg hrc] at hr'
    dsimp only
    rw [if_neg hrc, hrankOf]
    by_cases hrr : r = root
    · subst hrr
      rw [if_pos rfl]
      split
      · rename_i htie
        rw [← htie.2] at hmchild
        rw [Nat.pow_succ]
        omega
      · omega
    · rw [if_neg hrr, if_neg fun h => hrr h.1]
      exact hroots r hr hr'
  · rw [link_size]
    refine le_trans (le_of_eq ?_) hsum
    have hc : child ∈ Finset.range ds.size := Finset.mem_range.mpr hlt.2
    have hr : root ∈ (Finset.range ds.size).erase child :=
      Finset.mem_erase.mpr ⟨hne, Finset.mem_range.mpr hlt.1⟩
    rw [← Finset.add_sum_erase _ _ hc, ← Finset.add_sum_erase _ _ hr,
      ← Finset.add_sum_erase (Finset.range ds.size) mass hc, ← Finset.add_sum_erase _ mass hr,
      if_pos rfl, if_neg hne, if_pos rfl]
    have hothers : ∀ w ∈ ((Finset.range ds.size).erase child).erase root,
        (if w = child then 0 else if w = root then mass root + mass child else mass w)
          = mass w := by
      intro w hw
      obtain ⟨hwr, hw⟩ := Finset.mem_erase.mp hw
      rw [if_neg (Finset.mem_erase.mp hw).1, if_neg hwr]
    rw [Finset.sum_congr rfl hothers, Nat.zero_add, Nat.add_comm (mass root), Nat.add_assoc]

theorem RankPaid.attach {ds : DisjointSet} (hp : ds.RankPaid) (a b : Nat) :
    (ds.attach a b).RankPaid := by
  unfold DisjointSet.attach
  split
  · split <;> exact hp.link ..
  · exact hp

theorem RankPaid.access {ds : DisjointSet} (hp : ds.RankPaid) (call : Access) :
    (ds.access call).RankPaid := by
  rcases call with v | ⟨a, b⟩
  · exact hp.findLoop _ v
  · exact RankPaid.attach (RankPaid.findLoop _ (RankPaid.findLoop _ hp a) b) _ _

theorem rankPaid_accessAll (n : Nat) (calls : List Access) :
    ((ofCount n).accessAll calls).RankPaid := by
  suffices h : ∀ ds : DisjointSet, ds.RankPaid → (ds.accessAll calls).RankPaid from
    h _ (rankPaid_ofCount n)
  induction calls with
  | nil => exact fun ds hp => hp
  | cons call rest ih => exact fun ds hp => ih _ (hp.access call)

/-- A rank is at most the binary logarithm of the number of nodes. -/
theorem RankPaid.two_pow_rankOf_le {ds : DisjointSet} (hp : ds.RankPaid) {v : Nat}
    (hv : v < ds.size) : 2 ^ ds.rankOf v ≤ ds.size := by
  obtain ⟨mass, hroots, hsum⟩ := hp
  obtain ⟨r, hr⟩ := exists_leads ds v
  have hle : ds.rankOf v ≤ ds.rankOf r := by
    clear hv
    induction hr with
    | root _ => exact Nat.le_refl _
    | step h _ ih => exact (Nat.le_of_lt (rankOf_lt h)).trans ih
  have hrlt := hr.lt_size hv
  calc 2 ^ ds.rankOf v ≤ 2 ^ ds.rankOf r := Nat.pow_le_pow_right (by omega) hle
    _ ≤ mass r := hroots r hrlt hr.isRoot
    _ ≤ ∑ v ∈ Finset.range ds.size, mass v :=
        Finset.single_le_sum (fun _ _ => Nat.zero_le _) (Finset.mem_range.mpr hrlt)
    _ ≤ ds.size := hsum

end DisjointSet
