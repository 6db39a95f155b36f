import Mathlib.Data.List.Basic
import Mathlib.Data.List.Nodup
import Mathlib.Logic.Relation

/-!
# Flooding a graph from every node

The nodes of a graph are numbered.  A flood starts from a node without a label: the node is labelled,
and as long as there are nodes on the frontier, one of them is taken off and its neighbours without a
label get the same label and join the frontier.  Flooding from every node in order that has no label by
then labels the connected components.

* `Flooding` — the invariant of one flood, and `flood_spec`, what it does to the labels;
* `Flooded` — the invariant of the loop over the starts;
* `floodAll_flooded` — two nodes get the same label exactly when a path joins them, and the labels
  follow the order of the smallest nodes of the components.
-/

set_option autoImplicit false

namespace Flood

open Relation

/-- The labels of the nodes; nothing for a node that was not met. -/
abbrev Labels := List (Option Nat)

/-- A node spreads its label to its neighbours without one, and they join the frontier. -/
def spread (adj : Nat → Nat → Bool) (label current : Nat) :
    List Nat → Labels × List Nat → Labels × List Nat
  | [], state => state
  | other :: rest, (labels, frontier) =>
    if other = current ∨ labels.getD other none ≠ none then
      spread adj label current rest (labels, frontier)
    else if adj current other then
      spread adj label current rest (labels.set other (some label), other :: frontier)
    else spread adj label current rest (labels, frontier)

/-- One flood, for a number of rounds. -/
def flood (adj : Nat → Nat → Bool) (n label : Nat) : Nat → Labels × List Nat → Labels × List Nat
  | 0, state => state
  | _ + 1, (labels, []) => (labels, [])
  | rounds + 1, (labels, current :: rest) =>
    flood adj n label rounds (spread adj label current (List.range n) (labels, rest))

/-- Flood from every start that has no label by then; the labels are counted. -/
def floodAll (adj : Nat → Nat → Bool) (n : Nat) : List Nat → Labels × Nat → Labels × Nat
  | [], state => state
  | start :: rest, (labels, next) =>
    if labels.getD start none ≠ none then floodAll adj n rest (labels, next)
    else
      floodAll adj n rest
        ((flood adj n next n (labels.set start (some next), [start])).1, next + 1)

/-- The edges of the graph. -/
def Adj (adj : Nat → Nat → Bool) (n u v : Nat) : Prop := u < n ∧ v < n ∧ u ≠ v ∧ adj u v = true

/-- How many nodes have no label. -/
def unlabelled (labels : Labels) : Nat := labels.count none

theorem getD_set_self {labels : Labels} {v : Nat} (hv : v < labels.length) (label : Nat) :
    (labels.set v (some label)).getD v none = some label := by
  simp [List.getD_eq_getElem?_getD, hv]

theorem getD_set_ne {labels : Labels} {v w : Nat} (h : v ≠ w) (label : Nat) :
    (labels.set v (some label)).getD w none = labels.getD w none := by
  simp [List.getD_eq_getElem?_getD, h]

theorem unlabelled_set {labels : Labels} {v : Nat} (hv : v < labels.length)
    (hnone : labels.getD v none = none) (label : Nat) :
    unlabelled (labels.set v (some label)) + 1 = unlabelled labels := by
  have hget : labels[v] = none := by
    simpa [List.getD_eq_getElem?_getD, List.getElem?_eq_getElem hv] using hnone
  have hpos : 0 < labels.count none := List.count_pos_iff.mpr (hget ▸ List.getElem_mem hv)
  rw [unlabelled, unlabelled, List.count_set hv, hget]
  simp
  omega

section Spread

variable {adj : Nat → Nat → Bool} {label current : Nat}

/-- A neighbour that a node spreads to. -/
def Takes (adj : Nat → Nat → Bool) (current : Nat) (labels : Labels) (v : Nat) : Prop :=
  v ≠ current ∧ labels.getD v none = none ∧ adj current v = true

/-- What spreading does: exactly the neighbours it takes are labelled, and they join the frontier. -/
structure Spreads (adj : Nat → Nat → Bool) (label current : Nat) (xs : List Nat) (labels : Labels)
    (frontier : List Nat) (state : Labels × List Nat) : Prop where
  length : state.1.length = labels.length
  taken : ∀ v, v ∈ xs → Takes adj current labels v → state.1.getD v none = some label
  kept : ∀ v, ¬ (v ∈ xs ∧ Takes adj current labels v) →
    state.1.getD v none = labels.getD v none
  joined : ∀ v, v ∈ state.2 ↔ v ∈ frontier ∨ v ∈ xs ∧ Takes adj current labels v
  measure : state.2.length + unlabelled state.1 = frontier.length + unlabelled labels

theorem spread_spec {xs : List Nat} (hnodup : xs.Nodup) {labels : Labels} {frontier : List Nat}
    (hlt : ∀ x ∈ xs, x < labels.length) :
    Spreads adj label current xs labels frontier
      (spread adj label current xs (labels, frontier)) := by
  induction xs generalizing labels frontier with
  | nil => exact ⟨rfl, by simp, by simp [spread], by simp [spread], rfl⟩
  | cons other rest ih =>
    obtain ⟨hother, hnodup⟩ := List.nodup_cons.mp hnodup
    have hskip : ¬ Takes adj current labels other →
        Spreads adj label current rest labels frontier
          (spread adj label current rest (labels, frontier)) →
        Spreads adj label current (other :: rest) labels frontier
          (spread adj label current rest (labels, frontier)) := by
      intro hnot h
      refine ⟨h.length, fun v hv htakes => ?_, fun v hv => ?_, fun v => ?_, h.measure⟩
      · rcases List.mem_cons.mp hv with rfl | hv
        · exact absurd htakes hnot
        · exact h.taken v hv htakes
      · exact h.kept v fun hv' => hv ⟨List.mem_cons_of_mem _ hv'.1, hv'.2⟩
      · rw [h.joined v, List.mem_cons]
        refine or_congr_right ⟨fun hv => ⟨.inr hv.1, hv.2⟩, fun hv => ⟨?_, hv.2⟩⟩
        exact hv.1.resolve_left fun heq => hnot (heq ▸ hv.2)
    rw [spread]
    split
    · rename_i hor
      refine hskip (fun htakes => ?_) (ih hnodup fun x hx => hlt x (List.mem_cons_of_mem _ hx))
      rcases hor with heq | hsome
      · exact htakes.1 heq
      · exact hsome htakes.2.1
    rename_i hor
    obtain ⟨hne, hnone⟩ : other ≠ current ∧ labels.getD other none = none := by
      simpa only [not_or, not_not] using hor
    split
    · rename_i hadj
      have hlength : other < labels.length := hlt other List.mem_cons_self
      have hrest : ∀ x ∈ rest, x < (labels.set other (some label)).length := by
        intro x hx
        rw [List.length_set]
        exact hlt x (List.mem_cons_of_mem _ hx)
      have h := @ih hnodup (labels.set other (some label)) (other :: frontier) hrest
      have hsame : ∀ v, v ≠ other → (Takes adj current (labels.set other (some label)) v ↔
          Takes adj current labels v) := by
        intro v hv
        rw [Takes, Takes, getD_set_ne (Ne.symm hv)]
      have htakes : Takes adj current labels other := ⟨hne, hnone, hadj⟩
      have hnot : ¬ (other ∈ rest ∧ Takes adj current (labels.set other (some label)) other) :=
        fun h' => hother h'.1
      refine ⟨h.length.trans (by simp), fun v hv htakes' => ?_, fun v hv => ?_, fun v => ?_, ?_⟩
      · by_cases heq : v = other
        · subst heq
          rw [h.kept v hnot, getD_set_self hlength]
        · have hv' : v ∈ rest := (List.mem_cons.mp hv).resolve_left heq
          exact h.taken v hv' ((hsame v heq).mpr htakes')
      · have heq : v ≠ other := by
          rintro rfl
          exact hv ⟨List.mem_cons_self, htakes⟩
        rw [h.kept v fun h' => hv ⟨List.mem_cons_of_mem _ h'.1, (hsame v heq).mp h'.2⟩,
          getD_set_ne (Ne.symm heq)]
      · rw [h.joined v, List.mem_cons, List.mem_cons]
        by_cases heq : v = other
        · subst heq
          simp [htakes]
        · rw [hsame v heq]
          simp [heq]
      · rw [h.measure, List.length_cons]
        have := unlabelled_set hlength hnone label
        omega
    · rename_i hadj
      exact hskip (fun htakes => hadj htakes.2.2)
        (ih hnodup fun x hx => hlt x (List.mem_cons_of_mem _ hx))

end Spread

/-! ## One flood -/

/-- The invariant of a flood that began from a node under some labels. -/
structure Flooding (adj : Nat → Nat → Bool) (n : Nat) (old : Labels) (start label : Nat)
    (state : Labels × List Nat) : Prop where
  length : state.1.length = n
  kept : ∀ v, old.getD v none ≠ none → state.1.getD v none = old.getD v none
  sound : ∀ v, old.getD v none = none → state.1.getD v none ≠ none →
    state.1.getD v none = some label ∧ ReflTransGen (Adj adj n) start v
  start : state.1.getD start none = some label
  pending : ∀ v ∈ state.2, v < n ∧ old.getD v none = none ∧ state.1.getD v none = some label
  done : ∀ v, old.getD v none = none → state.1.getD v none = some label → v ∉ state.2 →
    ∀ w, Adj adj n v w → state.1.getD w none ≠ none

section Flooding

variable {adj : Nat → Nat → Bool} {n : Nat} {old : Labels} {start label : Nat}

/-- **One round** keeps the invariant. -/
theorem Flooding.spread {labels : Labels} {current : Nat} {rest : List Nat}
    (h : Flooding adj n old start label (labels, current :: rest)) :
    Flooding adj n old start label
      (spread adj label current (List.range n) (labels, rest)) ∧
    (Flood.spread adj label current (List.range n) (labels, rest)).2.length
        + unlabelled (Flood.spread adj label current (List.range n) (labels, rest)).1
      = rest.length + unlabelled labels := by
  obtain ⟨hlt, hold, hcurrent⟩ := h.pending current List.mem_cons_self
  have hlength : labels.length = n := h.length
  have hs := @spread_spec adj label current (List.range n) List.nodup_range labels rest
    fun x hx => hlength.symm ▸ List.mem_range.mp hx
  refine ⟨?_, hs.measure⟩
  generalize Flood.spread adj label current (List.range n) (labels, rest) = state at hs
  have hreach : ReflTransGen (Adj adj n) start current :=
    (h.sound current hold (by rw [hcurrent]; simp)).2
  -- a node keeps its label, or is taken from being without one
  have hgrows : ∀ v, labels.getD v none ≠ none → state.1.getD v none = labels.getD v none :=
    fun v hv => hs.kept v fun htaken => hv htaken.2.2.1
  have hcases : ∀ v, state.1.getD v none = labels.getD v none ∨
      v < n ∧ Takes adj current labels v ∧ state.1.getD v none = some label := by
    intro v
    by_cases htaken : v ∈ List.range n ∧ Takes adj current labels v
    · exact .inr ⟨List.mem_range.mp htaken.1, htaken.2, hs.taken v htaken.1 htaken.2⟩
    · exact .inl (hs.kept v htaken)
  refine ⟨hs.length.trans hlength, fun v hv => ?_, fun v hv hsome => ?_, ?_, fun v hv => ?_,
    fun v hv hlabel hnot w hw => ?_⟩
  · have hkept := h.kept v hv
    rw [hgrows v (by rw [hkept]; exact hv), hkept]
  · rcases hcases v with hsame | ⟨hvlt, htakes, hlabel⟩
    · rw [hsame] at hsome ⊢
      exact h.sound v hv hsome
    · exact ⟨hlabel, hreach.tail ⟨hlt, hvlt, Ne.symm htakes.1, htakes.2.2⟩⟩
  · have hstart : labels.getD start none = some label := h.start
    rw [hgrows start (by rw [hstart]; simp), hstart]
  · rcases (hs.joined v).mp hv with hv | ⟨hvlt, htakes⟩
    · obtain ⟨hvlt, hvold, hvlabel⟩ := h.pending v (List.mem_cons_of_mem _ hv)
      have hvlabel : labels.getD v none = some label := hvlabel
      exact ⟨hvlt, hvold, by rw [hgrows v (by rw [hvlabel]; simp), hvlabel]⟩
    · refine ⟨List.mem_range.mp hvlt, ?_, hs.taken v hvlt htakes⟩
      by_contra hne
      have hkept := h.kept v hne
      exact hne (hkept.symm.trans htakes.2.1)
  · have hw' : labels.getD w none ≠ none → state.1.getD w none ≠ none := fun hne => by
      rw [hgrows w hne]
      exact hne
    rcases hcases v with hsame | ⟨hvlt, htakes, -⟩
    · by_cases heq : v = current
      · subst heq
        by_cases hnone : labels.getD w none = none
        · rw [hs.taken w (List.mem_range.mpr hw.2.1) ⟨Ne.symm hw.2.2.1, hnone, hw.2.2.2⟩]
          simp
        · exact hw' hnone
      · refine hw' (h.done v hv (hsame.symm.trans hlabel) ?_ w hw)
        intro hmem
        rcases List.mem_cons.mp hmem with heq' | hmem
        · exact heq heq'
        · exact hnot ((hs.joined v).mpr (.inl hmem))
    · exact absurd ((hs.joined v).mpr (.inr ⟨List.mem_range.mpr hvlt, htakes⟩)) hnot

/-- **The loop of a flood** ends with an empty frontier, if it has a round for every node. -/
theorem Flooding.flood {rounds : Nat} {state : Labels × List Nat}
    (h : Flooding adj n old start label state)
    (hrounds : state.2.length + unlabelled state.1 ≤ rounds) :
    Flooding adj n old start label (flood adj n label rounds state) ∧
      (Flood.flood adj n label rounds state).2 = [] := by
  induction rounds generalizing state with
  | zero =>
    refine ⟨h, List.eq_nil_of_length_eq_zero ?_⟩
    show state.2.length = 0
    omega
  | succ rounds ih =>
    obtain ⟨labels, _ | ⟨current, rest⟩⟩ := state
    · exact ⟨h, rfl⟩
    · obtain ⟨hnext, hmeasure⟩ := h.spread
      refine ih hnext ?_
      rw [hmeasure]
      simp only [List.length_cons] at hrounds
      omega

/-- Labels that no edge leaves. -/
def Closed (adj : Nat → Nat → Bool) (n : Nat) (labels : Labels) : Prop :=
  ∀ v w, Adj adj n v w → labels.getD v none ≠ none → labels.getD w none ≠ none

theorem Adj.symm (hsymm : ∀ u v, adj u v = adj v u) {u v : Nat} (h : Adj adj n u v) :
    Adj adj n v u :=
  ⟨h.2.1, h.1, Ne.symm h.2.2.1, by rw [hsymm]; exact h.2.2.2⟩

theorem path_symm (hsymm : ∀ u v, adj u v = adj v u) {u v : Nat}
    (h : ReflTransGen (Adj adj n) u v) : ReflTransGen (Adj adj n) v u := by
  induction h with
  | refl => exact .refl
  | tail _ hvw ih => exact .head (hvw.symm hsymm) ih

/-- **What one flood does**: it labels what a path joins to its start. -/
theorem flood_spec (hsymm : ∀ u v, adj u v = adj v u) (hlength : old.length = n)
    (hclosed : Closed adj n old) (hstart : start < n) (hnone : old.getD start none = none) :
    let labels := (flood adj n label n (old.set start (some label), [start])).1
    labels.length = n ∧ (∀ v, old.getD v none ≠ none → labels.getD v none = old.getD v none) ∧
      ∀ v, old.getD v none = none →
        (ReflTransGen (Adj adj n) start v → labels.getD v none = some label) ∧
        (labels.getD v none ≠ none →
          labels.getD v none = some label ∧ ReflTransGen (Adj adj n) start v) := by
  have hstart' : start < old.length := hlength ▸ hstart
  have hself := getD_set_self hstart' label
  have hinit : Flooding adj n old start label (old.set start (some label), [start]) := by
    refine ⟨by simpa using hlength, fun v hv => ?_, fun v hv hsome => ?_, hself, fun v hv => ?_,
      fun v hv hlabel hnot w hw => ?_⟩
    · refine getD_set_ne (fun heq => hv ?_) label
      rw [← heq]
      exact hnone
    · by_cases heq : start = v
      · subst heq
        exact ⟨hself, .refl⟩
      · rw [getD_set_ne heq] at hsome
        exact absurd hv hsome
    · rw [List.mem_singleton.mp hv]
      exact ⟨hstart, hnone, hself⟩
    · have heq : start ≠ v := fun heq => hnot (List.mem_singleton.mpr heq.symm)
      rw [getD_set_ne heq, hv] at hlabel
      cases hlabel
  have hmeasure : ([start] : List Nat).length + unlabelled (old.set start (some label)) ≤ n := by
    have hset := unlabelled_set hstart' hnone label
    have hle : unlabelled old ≤ old.length := List.count_le_length
    simp only [List.length_singleton]
    omega
  obtain ⟨hend, hempty⟩ := hinit.flood hmeasure
  generalize Flood.flood adj n label n (old.set start (some label), [start]) = state at hend hempty
  refine ⟨hend.length, hend.kept, fun v hv => ⟨fun hpath => ?_, hend.sound v hv⟩⟩
  clear hv
  -- along the path, every node was without a label, and is labelled
  have hall : old.getD v none = none ∧ state.1.getD v none = some label := by
    induction hpath with
    | refl => exact ⟨hnone, hend.start⟩
    | @tail u w _ huw ih =>
      have hwold : old.getD w none = none := by
        by_contra hne
        exact hclosed w u (huw.symm hsymm) hne ih.1
      refine ⟨hwold, (hend.sound w hwold ?_).1⟩
      exact hend.done u ih.1 ih.2 (by simp [hempty]) w huw
  exact hall.2

end Flooding

/-! ## Flooding from every node -/

/-- The invariant of the loop over the starts: the nodes below a bound have been started from, and the
labels number the floods in the order of their origins. -/
structure Flooded (adj : Nat → Nat → Bool) (n bound : Nat) (origins : List Nat)
    (state : Labels × Nat) : Prop where
  length : state.1.length = n
  count : origins.length = state.2
  sorted : origins.Pairwise (· < ·)
  own : ∀ l r, origins[l]? = some r → state.1.getD r none = some l ∧ r < bound
  origin : ∀ v l, state.1.getD v none = some l →
    ∃ r, origins[l]? = some r ∧ r ≤ v ∧ ReflTransGen (Adj adj n) r v
  closed : ∀ v w, Adj adj n v w → state.1.getD v none ≠ none →
    state.1.getD w none = state.1.getD v none
  done : ∀ v < bound, state.1.getD v none ≠ none

section Flooded

variable {adj : Nat → Nat → Bool} {n bound : Nat} {origins : List Nat}

/-- A start with a label is passed over. -/
theorem Flooded.pass {state : Labels × Nat} (h : Flooded adj n bound origins state)
    (hsome : state.1.getD bound none ≠ none) : Flooded adj n (bound + 1) origins state where
  length := h.length
  count := h.count
  sorted := h.sorted
  own l r hr := ⟨(h.own l r hr).1, Nat.lt_succ_of_lt (h.own l r hr).2⟩
  origin := h.origin
  closed := h.closed
  done v hv := by
    rcases Nat.lt_succ_iff_lt_or_eq.mp hv with hv | rfl
    · exact h.done v hv
    · exact hsome

/-- **A flood from a start without a label** is one more component. -/
theorem Flooded.flood (hsymm : ∀ u v, adj u v = adj v u) {labels : Labels} {next : Nat}
    (h : Flooded adj n bound origins (labels, next)) (hbound : bound < n)
    (hnone : labels.getD bound none = none) :
    Flooded adj n (bound + 1) (origins ++ [bound])
      ((Flood.flood adj n next n (labels.set bound (some next), [bound])).1, next + 1) := by
  have hclosed : Closed adj n labels := fun v w hvw hv => by
    rw [h.closed v w hvw hv]
    exact hv
  obtain ⟨hlength, hkept, hnew⟩ :=
    @flood_spec _ _ _ _ next hsymm h.length hclosed hbound hnone
  have hcount : origins.length = next := h.count
  generalize (Flood.flood adj n next n (labels.set bound (some next), [bound])).1 = labels' at *
  have hlast : (origins ++ [bound])[next]? = some bound := by
    rw [← hcount]
    simp
  refine ⟨hlength, by simp [hcount], ?_, fun l r hr => ?_, fun v l hv => ?_, fun v w hvw hv => ?_,
    fun v hv => ?_⟩
  · refine List.pairwise_append.mpr ⟨h.sorted, List.pairwise_singleton _ _, fun r hr b hb => ?_⟩
    obtain ⟨l, hl⟩ := List.mem_iff_getElem?.mp hr
    rw [List.mem_singleton.mp hb]
    exact (h.own l r hl).2
  · rcases Nat.lt_or_ge l origins.length with hlt | hge
    · rw [List.getElem?_append_left hlt] at hr
      obtain ⟨hlabel, hrlt⟩ := h.own l r hr
      exact ⟨(hkept r (by rw [hlabel]; simp)).trans hlabel, Nat.lt_succ_of_lt hrlt⟩
    · rw [List.getElem?_append_right hge, List.getElem?_singleton] at hr
      split at hr
      · rename_i hzero
        cases hr
        have hl : l = next := by omega
        rw [hl]
        exact ⟨(hnew bound hnone).1 .refl, Nat.lt_succ_self bound⟩
      · cases hr
  · by_cases hvold : labels.getD v none = none
    · obtain ⟨hlabel, hpath⟩ := (hnew v hvold).2 (by rw [hv]; simp)
      obtain rfl : next = l := Option.some.inj (hlabel.symm.trans hv)
      refine ⟨bound, hlast, Nat.le_of_not_lt fun hlt => ?_, hpath⟩
      exact h.done v hlt hvold
    · rw [hkept v hvold] at hv
      obtain ⟨r, hr, hle, hpath⟩ := h.origin v l hv
      refine ⟨r, ?_, hle, hpath⟩
      rw [List.getElem?_append_left (List.getElem?_eq_some_iff.mp hr).1]
      exact hr
  · by_cases hvold : labels.getD v none = none
    · have hwold : labels.getD w none = none := by
        by_contra hne
        exact hclosed w v (hvw.symm hsymm) hne hvold
      obtain ⟨hlabel, hpath⟩ := (hnew v hvold).2 hv
      rw [hlabel]
      exact (hnew w hwold).1 (hpath.tail hvw)
    · have hsame := h.closed v w hvw hvold
      have hwold : labels.getD w none ≠ none := by
        rw [hsame]
        exact hvold
      rw [hkept v hvold, hkept w hwold]
      exact hsame
  · by_cases hvold : labels.getD v none = none
    · rcases Nat.lt_succ_iff_lt_or_eq.mp hv with hlt | rfl
      · exact absurd hvold (h.done v hlt)
      · rw [(hnew v hnone).1 .refl]
        simp
    · rw [hkept v hvold]
      exact hvold

theorem floodAll_from (hsymm : ∀ u v, adj u v = adj v u) {state : Labels × Nat} {rounds : Nat}
    (h : Flooded adj n bound origins state) (hn : bound + rounds = n) :
    ∃ origins', Flooded adj n n origins' (floodAll adj n (List.range' bound rounds) state) := by
  induction rounds generalizing bound origins state with
  | zero =>
    rw [Nat.add_zero] at hn
    subst hn
    exact ⟨origins, h⟩
  | succ rounds ih =>
    obtain ⟨labels, next⟩ := state
    rw [List.range'_succ, floodAll]
    split
    · rename_i hsome
      exact ih (h.pass hsome) (by omega)
    · rename_i hnone
      exact ih (h.flood hsymm (by omega) (not_not.mp hnone)) (by omega)

/-- **Flooding from every node** labels the components, in the order of their smallest nodes. -/
theorem floodAll_flooded (hsymm : ∀ u v, adj u v = adj v u) (n : Nat) :
    ∃ origins, Flooded adj n n origins
      (floodAll adj n (List.range n) (List.replicate n none, 0)) := by
  rw [List.range_eq_range']
  have hnone : ∀ v, (List.replicate n (none : Option Nat)).getD v none = none := by
    intro v
    rw [List.getD_eq_getElem?_getD, List.getElem?_replicate]
    split <;> rfl
  refine @floodAll_from _ _ _ [] hsymm _ _ ⟨by simp, rfl, List.Pairwise.nil, by simp, fun v l hv => ?_,
    fun v w _ hv => absurd (hnone v) hv, by simp⟩ (Nat.zero_add n)
  rw [hnone v] at hv
  cases hv

/-- **Two nodes have the same label exactly when a path joins them.** -/
theorem Flooded.label_eq_iff {state : Labels × Nat} (hsymm : ∀ u v, adj u v = adj v u)
    (h : Flooded adj n n origins state) {v w : Nat} (hv : v < n) :
    state.1.getD w none = state.1.getD v none ↔ ReflTransGen (Adj adj n) v w := by
  constructor
  · intro heq
    obtain ⟨l, hl⟩ := Option.ne_none_iff_exists'.mp (h.done v hv)
    rw [hl] at heq
    obtain ⟨r, hr, -, hrv⟩ := h.origin v l hl
    obtain ⟨r', hr', -, hrw⟩ := h.origin w l heq
    obtain rfl := Option.some.inj (hr.symm.trans hr')
    exact (path_symm hsymm hrv).trans hrw
  · intro hpath
    have hall : state.1.getD w none = state.1.getD v none ∧ state.1.getD w none ≠ none := by
      induction hpath with
      | refl => exact ⟨rfl, h.done v hv⟩
      | tail _ hxy ih =>
        have hnext := h.closed _ _ hxy ih.2
        exact ⟨hnext.trans ih.1, by rw [hnext]; exact ih.2⟩
    exact hall.1

end Flooded

end Flood
