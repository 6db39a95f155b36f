import FabricPartition.Ledger
import FabricPartition.Reachability

/-!
# What the indices mean

The three indices of the resolution are sorted arrays that the source searches and slices.  This
module says once what each of them answers, in terms of the observations it was built from:

* `mem_row`: the row of a source holds one entry for each observed target, with the union of the
  observations of the pair;
* `lookup_build`, `hits_build`, `contains_assign`: the three searches;
* `gather_holds`: what the bundle loop leaves in its accumulators.

On top of them stands the resolution rule as it is documented (`resolutionRule`), stated over
components and bundles and without an index in sight.  **The resolution of the source is that rule**
on every evidence in ledger form (`resolveOrdered_eq_rule`): the one place where the two could part,
a complete claim that lists a pair with both values and is counted twice, is a pair that both
classify as conflicting.
-/

set_option autoImplicit false

namespace FabricPartition

open SortedList

/-! ## Sorted observations -/

theorem pairKey_inj {s t s' t' : Nat} : pairKey s t = pairKey s' t' ↔ s = s' ∧ t = t' := by
  simp [pairKey]

@[simp]
theorem keySource_pairKey (s t : Nat) : keySource (pairKey s t) = s := rfl

@[simp]
theorem keyTarget_pairKey (s t : Nat) : keyTarget (pairKey s t) = t := rfl

@[simp]
theorem pairKey_eta (key : PairKey) : pairKey (keySource key) (keyTarget key) = key := rfl

theorem pairKey_lt {s t s' t' : Nat} : pairKey s t < pairKey s' t' ↔ s < s' ∨ s = s' ∧ t < t' :=
  Prod.Lex.toLex_lt_toLex

theorem sortObservations_sortedBy (os : List PackedObservation) :
    SortedBy PackedObservation.key (sortObservations os) := by
  refine (sortedBy_insertionSort PackedObservation.sortKey os).imp ?_
  intro a b h
  rcases Prod.Lex.toLex_le_toLex.mp h with h | ⟨h, -⟩
  · exact le_of_lt h
  · exact le_of_eq h

theorem mem_sortObservations {o : PackedObservation} {os : List PackedObservation} :
    o ∈ sortObservations os ↔ o ∈ os :=
  (List.perm_insertionSort _ os).mem_iff

/-! ## The ordered index -/

/-- The union of the observations of a pair. -/
def flagsOf (os : List PackedObservation) (s t : Nat) : ObservationFlags where
  reachable := os.any fun o => decide (o.key = pairKey s t) && o.value.reachable
  unreachable := os.any fun o => decide (o.key = pairKey s t) && o.value.unreachable

/-- Some observation is about the pair. -/
def ObservedPair (os : List PackedObservation) (s t : Nat) : Prop := ∃ o ∈ os, o.key = pairKey s t

instance (os : List PackedObservation) (s t : Nat) : Decidable (ObservedPair os s t) :=
  inferInstanceAs (Decidable (∃ o ∈ os, o.key = pairKey s t))

theorem foldl_or (run : List PackedObservation) (flags : ObservationFlags) :
    run.foldl (fun flags o => flags.or o.value) flags
      = ⟨flags.reachable || run.any fun o => o.value.reachable,
          flags.unreachable || run.any fun o => o.value.unreachable⟩ := by
  induction run generalizing flags with
  | nil => simp
  | cons o run ih =>
    rw [List.foldl_cons, ih]
    simp [ObservationFlags.or, Bool.or_assoc]

theorem foldl_or_filter (os : List PackedObservation) (s t : Nat) :
    ((sortObservations os).filter fun o => decide (o.key = pairKey s t)).foldl
      (fun flags o => flags.or o.value) {} = flagsOf os s t := by
  have hany : ∀ p : PackedObservation → Bool, (sortObservations os).any p = os.any p := by
    intro p
    rw [Bool.eq_iff_iff, List.any_eq_true, List.any_eq_true]
    simp only [mem_sortObservations]
  rw [foldl_or, flagsOf]
  simp only [Bool.false_or, List.any_filter, hany]

namespace OrderedIndex

theorem build_rows_lt (n : Nat) (os : List PackedObservation) :
    (build n os).rows.Pairwise fun a b => pairKey a.source a.target < pairKey b.source b.target := by
  have h := groupRuns_sortedBy (sortObservations_sortedBy os)
  exact List.pairwise_map.mpr (h.imp id)

theorem build_rows_sortedBy (n : Nat) (os : List PackedObservation) :
    SortedBy OrderedRow.source (build n os).rows := by
  refine (build_rows_lt n os).imp ?_
  intro a b h
  rcases pairKey_lt.mp h with h | ⟨h, -⟩
  · exact Nat.le_of_lt h
  · exact Nat.le_of_eq h

variable {n s : Nat} {os : List PackedObservation}

theorem row_build (hs : s < n) :
    (build n os).row s = (build n os).rows.filter fun r => r.source == s :=
  slice_eq_filter (build_rows_sortedBy n os) hs

/-- The row of a source: one entry for each observed target. -/
theorem mem_row (hs : s < n) {r : OrderedRow} :
    r ∈ (build n os).row s ↔
      r.source = s ∧ ObservedPair os s r.target ∧ r.flags = flagsOf os s r.target := by
  have hgroup : ∀ {k run}, (k, run) ∈ groupRuns PackedObservation.key (sortObservations os) ↔ _ :=
    mem_groupRuns (sortObservations_sortedBy os)
  rw [row_build hs, List.mem_filter, beq_iff_eq, and_comm]
  refine and_congr_right fun hr => ?_
  simp only [build, List.mem_map, Prod.exists]
  constructor
  · rintro ⟨k, run, hkr, rfl⟩
    obtain ⟨hrun, hne⟩ := hgroup.mp hkr
    obtain ⟨o, ho⟩ := List.exists_mem_of_ne_nil run hne
    have hk : k = pairKey s (keyTarget k) := by rw [← hr]; rfl
    rw [hrun, List.mem_filter, mem_sortObservations, decide_eq_true_eq] at ho
    refine ⟨⟨o, ho.1, ho.2.trans hk⟩, ?_⟩
    dsimp only
    rw [hrun, ← foldl_or_filter, ← hk]
  · rintro ⟨⟨o, ho, hok⟩, hflags⟩
    refine ⟨pairKey s r.target, _, hgroup.mpr ⟨rfl, ?_⟩, ?_⟩
    · exact List.ne_nil_of_mem
        (List.mem_filter.mpr ⟨mem_sortObservations.mpr ho, decide_eq_true hok⟩)
    · rw [foldl_or_filter, ← hflags]
      cases r
      simp only [keySource_pairKey, keyTarget_pairKey, OrderedRow.mk.injEq, and_true]
      exact hr.symm

theorem row_target_lt (hs : s < n) :
    ((build n os).row s).Pairwise fun a b => a.target < b.target := by
  rw [row_build hs]
  have h := (build_rows_lt n os).filter fun r => r.source == s
  refine List.Pairwise.imp_of_mem ?_ h
  intro a b ha hb hab
  have ha' : a.source = s := by simpa using (List.mem_filter.mp ha).2
  have hb' : b.source = s := by simpa using (List.mem_filter.mp hb).2
  rw [pairKey_lt, ha', hb'] at hab
  omega

/-- `lookup` finds the observations of a pair, if there are any. -/
theorem lookup_build (hs : s < n) (t : Nat) :
    (build n os).lookup s t = if ObservedPair os s t then some (flagsOf os s t) else none := by
  have hsorted : SortedBy OrderedRow.target ((build n os).row s) :=
    (row_target_lt hs).imp fun h => Nat.le_of_lt h
  rw [lookup, lowerBound?_eq_find? hsorted]
  cases hf : ((build n os).row s).find? fun r => decide (r.target = t) with
  | none =>
    rw [if_neg]
    · rfl
    · intro hobs
      have := List.find?_eq_none.mp hf ⟨s, t, flagsOf os s t⟩ ((mem_row hs).mpr ⟨rfl, hobs, rfl⟩)
      simp at this
  | some r =>
    have ht : r.target = t := by simpa using List.find?_some hf
    obtain ⟨-, hobs, hflags⟩ := (mem_row hs).mp (List.mem_of_find?_eq_some hf)
    rw [ht] at hobs hflags
    rw [if_pos hobs, Option.map_some, hflags]

end OrderedIndex

/-! ## The cover counter and the key set -/

theorem CoverCounter.hits_build (os : List PackedObservation) (s t : Nat) :
    (CoverCounter.build os).hits s t = os.countP fun o => decide (o.key = pairKey s t) := by
  have hsorted : SortedBy Prod.fst (CoverCounter.build os).entries := by
    refine List.pairwise_map.mpr ?_
    exact (groupRuns_sortedBy (sortObservations_sortedBy os)).imp fun h => le_of_lt h
  have hperm : ((sortObservations os).filter fun o => decide (o.key = pairKey s t)).length
      = os.countP fun o => decide (o.key = pairKey s t) := by
    rw [← List.countP_eq_length_filter]
    exact (List.perm_insertionSort _ os).countP_eq _
  rw [hits, lowerBound?_eq_find? hsorted, build, List.find?_map]
  have hfun : ((fun x : PairKey × Nat => decide (x.1 = pairKey s t)) ∘
      fun kr : PairKey × List PackedObservation => (kr.1, kr.2.length))
      = fun kr => decide (kr.1 = pairKey s t) := rfl
  rw [hfun, find?_groupRuns (sortObservations_sortedBy os)]
  by_cases hany : (sortObservations os).any (fun o => decide (o.key = pairKey s t)) = true
  · rw [if_pos hany]
    exact hperm
  · rw [if_neg hany, Option.map_none]
    symm
    rw [List.countP_eq_zero]
    intro o ho hok
    exact hany (List.any_eq_true.mpr ⟨o, mem_sortObservations.mpr ho, hok⟩)

theorem PackedKeySet.keys_lt (keys : List PairKey) :
    (PackedKeySet.assign keys).keys.Pairwise (· < ·) :=
  unique_pairwise_lt (List.pairwise_insertionSort _ keys)

theorem PackedKeySet.mem_keys {keys : List PairKey} {k : PairKey} :
    k ∈ (PackedKeySet.assign keys).keys ↔ k ∈ keys := by
  rw [assign, mem_unique (List.pairwise_insertionSort _ keys)]
  exact (List.perm_insertionSort _ keys).mem_iff

theorem PackedKeySet.contains_assign (keys : List PairKey) (s t : Nat) :
    (PackedKeySet.assign keys).contains s t = true ↔ pairKey s t ∈ keys := by
  have hsorted : SortedBy id (PackedKeySet.assign keys).keys :=
    (keys_lt keys).imp fun h => le_of_lt h
  rw [contains, lowerBound?_eq_find? hsorted, List.find?_isSome]
  simp only [id_eq, decide_eq_true_eq, exists_eq_right]
  exact mem_keys

/-! ## The bundle loop -/

/-- The bundles of the roster's generation that are fresh. -/
def freshOf (roster : ComponentRoster) (policyAge tickNow : UInt64)
    (evidence : List ReachabilityEvidence) : List ReachabilityEvidence :=
  evidence.filter fun b =>
    decide (b.topologyGeneration = roster.generation) && freshBundle policyAge tickNow b

/-- The bundles of the roster's generation that have expired. -/
def expiredOf (roster : ComponentRoster) (policyAge tickNow : UInt64)
    (evidence : List ReachabilityEvidence) : List ReachabilityEvidence :=
  evidence.filter fun b =>
    decide (b.topologyGeneration = roster.generation) && !freshBundle policyAge tickNow b

/-- The sources a bundle makes a complete claim about. -/
def claimedIndices (roster : ComponentRoster) (bundle : ReachabilityEvidence) : List Nat :=
  if bundle.completeness = .complete then coveredIndices roster bundle else []

/-- The observations that are part of a bundle's own complete claim. -/
def claimedObservations (roster : ComponentRoster) (bundle : ReachabilityEvidence) :
    List PackedObservation :=
  (packObservations roster bundle).filter fun o => (claimedIndices roster bundle).contains o.source

theorem foldl_cover (indices : List Nat) (acc : Gathered) :
    ∃ counts conflict, indices.foldl Gathered.cover acc
        = { acc with coverCount := counts, coverageConflict := conflict }
      ∧ counts.length = acc.coverCount.length
      ∧ ∀ s, s < acc.coverCount.length →
          counts.getD s 0 = acc.coverCount.getD s 0 + indices.count s := by
  induction indices generalizing acc with
  | nil => exact ⟨acc.coverCount, acc.coverageConflict, rfl, rfl, fun s _ => by simp⟩
  | cons i rest ih =>
    obtain ⟨counts, conflict, heq, hlen, hget⟩ := ih (acc.cover i)
    refine ⟨counts, conflict, heq, by simpa [Gathered.cover] using hlen, ?_⟩
    intro s hs
    rw [hget s (by simpa [Gathered.cover] using hs), List.count_cons]
    simp only [Gathered.cover, List.getD_eq_getElem?_getD, List.getElem?_set]
    by_cases his : i = s
    · subst his
      simp [hs]
      omega
    · simp [his]

/-- What the accumulators of the bundle loop hold. -/
structure Gathered.Holds (g : Gathered) (roster : ComponentRoster)
    (fresh expired : List ReachabilityEvidence) : Prop where
  fresh_eq : g.fresh = fresh.flatMap (packObservations roster)
  covering_eq : g.covering = fresh.flatMap (claimedObservations roster)
  staleKeys_eq : g.staleKeys
    = (expired.flatMap (packObservations roster)).map PackedObservation.key
  coverCount_length : g.coverCount.length = roster.size
  coverCount_eq : ∀ s, s < roster.size →
    g.coverCount.getD s 0 = (fresh.flatMap (claimedIndices roster)).count s

theorem Gathered.Holds.absorb {roster : ComponentRoster} {policyAge tickNow : UInt64}
    {g : Gathered} {done : List ReachabilityEvidence} (limits : Limits)
    (h : g.Holds roster (freshOf roster policyAge tickNow done)
      (expiredOf roster policyAge tickNow done)) (b : ReachabilityEvidence) :
    (g.absorb roster policyAge tickNow limits b).Holds roster
      (freshOf roster policyAge tickNow (done ++ [b]))
      (expiredOf roster policyAge tickNow (done ++ [b])) := by
  obtain ⟨h1, h2, h3, h4, h5⟩ := h
  unfold Gathered.absorb
  by_cases hgen : b.topologyGeneration = roster.generation
  · rw [if_neg (not_not.mpr hgen)]
    by_cases hfresh : freshBundle policyAge tickNow b = true
    · rw [if_pos hfresh]
      have hf : freshOf roster policyAge tickNow (done ++ [b])
          = freshOf roster policyAge tickNow done ++ [b] := by
        simp [freshOf, hgen, hfresh]
      have he : expiredOf roster policyAge tickNow (done ++ [b])
          = expiredOf roster policyAge tickNow done := by
        simp [expiredOf, hfresh]
      rw [hf, he]
      by_cases hcomplete : b.completeness = .complete
      · rw [if_pos hcomplete]
        dsimp only
        obtain ⟨counts, conflict, heq, hlen, hget⟩ := foldl_cover (coveredIndices roster b) { g with
          freshBundleCount := g.freshBundleCount + 1
          anyEvidenceFresh := true
          contributingEvidence := g.contributingEvidence ++ [b.id]
          reachabilityGeneration :=
            if b.generation.value > g.reachabilityGeneration.value then b.generation
            else g.reachabilityGeneration
          fresh := g.fresh ++ packObservations roster b }
        rw [heq]
        refine ⟨?_, ?_, h3, hlen.trans h4, ?_⟩
        · simp [h1]
        · simp [h2, claimedObservations, claimedIndices, hcomplete]
        · intro s hs
          have := hget s (by rw [h4]; exact hs)
          simp only [this, h5 s hs, claimedIndices, hcomplete, List.flatMap_append,
            List.flatMap_cons, List.flatMap_nil, List.append_nil, List.count_append, if_true]
      · rw [if_neg hcomplete]
        refine ⟨?_, ?_, h3, h4, ?_⟩
        · simp [h1]
        · simp [h2, claimedObservations, claimedIndices, hcomplete]
        · intro s hs
          simp only [h5 s hs, claimedIndices, hcomplete, List.flatMap_append,
            List.flatMap_cons, List.flatMap_nil, List.append_nil, if_false]
    · rw [if_neg hfresh]
      rw [Bool.not_eq_true] at hfresh
      have hf : freshOf roster policyAge tickNow (done ++ [b])
          = freshOf roster policyAge tickNow done := by
        simp [freshOf, hfresh]
      have he : expiredOf roster policyAge tickNow (done ++ [b])
          = expiredOf roster policyAge tickNow done ++ [b] := by
        simp [expiredOf, hgen, hfresh]
      rw [hf, he]
      exact ⟨h1, h2, by simp [h3], h4, h5⟩
  · rw [if_pos hgen]
    have hf : freshOf roster policyAge tickNow (done ++ [b])
        = freshOf roster policyAge tickNow done := by
      simp [freshOf, hgen]
    have he : expiredOf roster policyAge tickNow (done ++ [b])
        = expiredOf roster policyAge tickNow done := by
      simp [expiredOf, hgen]
    rw [hf, he]
    exact ⟨h1, h2, h3, h4, h5⟩

theorem gather_holds (roster : ComponentRoster) (policyAge tickNow : UInt64) (limits : Limits)
    (evidence : List ReachabilityEvidence) :
    (gather roster policyAge tickNow limits evidence).Holds roster
      (freshOf roster policyAge tickNow evidence) (expiredOf roster policyAge tickNow evidence) := by
  -- the loop invariant, over the bundles absorbed so far
  suffices h : ∀ (rest done : List ReachabilityEvidence) (g : Gathered),
      g.Holds roster (freshOf roster policyAge tickNow done)
        (expiredOf roster policyAge tickNow done) →
      (rest.foldl (Gathered.absorb roster policyAge tickNow limits) g).Holds roster
        (freshOf roster policyAge tickNow (done ++ rest))
        (expiredOf roster policyAge tickNow (done ++ rest)) by
    refine h evidence [] _ ⟨rfl, rfl, rfl, by simp, ?_⟩
    intro s hs
    simp [freshOf, List.getD_eq_getElem?_getD, hs]
  intro rest
  induction rest with
  | nil =>
    intro done g hg
    rwa [List.append_nil]
  | cons b rest ih =>
    intro done g hg
    have := ih (done ++ [b]) _ (hg.absorb limits b)
    rwa [List.append_assoc] at this

/-! ## The documented rule -/

/-- Some bundle observed the ordered pair with this value. -/
def Observed (bundles : List ReachabilityEvidence) (a b : ComponentId) (v : Reachability) : Prop :=
  ∃ bundle ∈ bundles, ⟨a, b, v⟩ ∈ bundle.observations

/-- A bundle makes a complete claim about a source. -/
def Covers (bundle : ReachabilityEvidence) (a : ComponentId) : Prop :=
  bundle.completeness = .complete ∧ a ∈ bundle.coveredSources

/-- A bundle does not list an ordered pair. -/
def SilentAbout (bundle : ReachabilityEvidence) (a b : ComponentId) : Prop :=
  ∀ v, ⟨a, b, v⟩ ∉ bundle.observations

open Classical in
/-- The resolution rule, row by row: the fresh bundles and the expired ones decide the state of an
ordered pair. -/
noncomputable def resolutionRule (fresh expired : List ReachabilityEvidence) (a b : ComponentId) :
    PairResolution :=
  if Observed fresh a b .reachable ∧ Observed fresh a b .unreachable then .conflicting
  else if Observed fresh a b .reachable
      ∧ ∃ bundle ∈ fresh, Covers bundle a ∧ SilentAbout bundle a b then .conflicting
  else if Observed fresh a b .reachable then .reachable
  else if Observed fresh a b .unreachable ∨ ((∃ bundle ∈ fresh, Covers bundle a)
      ∧ ∀ bundle ∈ fresh, Covers bundle a → SilentAbout bundle a b) then .unreachable
  else if ∃ v, Observed expired a b v then .stale
  else .unknown

/-! ## From indices to components -/

/-- The component at a roster index. -/
def ComponentRoster.at (roster : ComponentRoster) (i : Nat) : ComponentId :=
  roster.components.getD i .nil

theorem ComponentRoster.indexOf_iff_at {roster : ComponentRoster} {i : Nat} (hi : i < roster.size)
    (c : ComponentId) : roster.indexOf c = some i ↔ c = roster.at i := by
  have hget : roster.components[i]? = some (roster.at i) := by
    rw [ComponentRoster.at, List.getD_eq_getElem?_getD, List.getElem?_eq_getElem hi]
    rfl
  rw [ComponentRoster.indexOf_eq_some, hget, Option.some.injEq, eq_comm]

/-- The observations of a pair, before and after packing. -/
theorem countP_packObservations {roster : ComponentRoster} {s t : Nat} (hs : s < roster.size)
    (ht : t < roster.size) (bundle : ReachabilityEvidence) (p : ObservationFlags → Bool) :
    (packObservations roster bundle).countP (fun o => decide (o.key = pairKey s t) && p o.value)
      = bundle.observations.countP fun o =>
          decide (o.source = roster.at s) && decide (o.target = roster.at t)
            && p (observationFlags o.value) := by
  unfold packObservations
  rw [List.countP_filterMap]
  congr 1
  funext o
  have hs' := ComponentRoster.indexOf_iff_at hs o.source
  have ht' := ComponentRoster.indexOf_iff_at ht o.target
  cases h1 : roster.indexOf o.source with
  | none =>
    rw [h1] at hs'
    simp [← hs']
  | some i =>
    cases h2 : roster.indexOf o.target with
    | none =>
      rw [h2] at ht'
      simp [← ht']
    | some j =>
      rw [h1, Option.some.injEq] at hs'
      rw [h2, Option.some.injEq] at ht'
      simp [PackedObservation.key, pairKey_inj, ← hs', ← ht']

section Agreement

variable {roster : ComponentRoster} {fresh expired : List ReachabilityEvidence} {s t : Nat}
  (hs : s < roster.size) (ht : t < roster.size)

include hs ht

/-- An observation of a pair with a given kind of flags, before and after packing. -/
theorem exists_packed_iff (p : ObservationFlags → Bool) (bundles : List ReachabilityEvidence) :
    (∃ o ∈ bundles.flatMap (packObservations roster), o.key = pairKey s t ∧ p o.value = true) ↔
      ∃ v, Observed bundles (roster.at s) (roster.at t) v ∧ p (observationFlags v) = true := by
  have hpack : ∀ bundle, (∃ o ∈ packObservations roster bundle, o.key = pairKey s t
      ∧ p o.value = true) ↔ ∃ o ∈ bundle.observations,
        (o.source = roster.at s ∧ o.target = roster.at t) ∧ p (observationFlags o.value) = true := by
    intro bundle
    have h := countP_packObservations hs ht bundle p
    have hpos : 0 < (packObservations roster bundle).countP
        (fun o => decide (o.key = pairKey s t) && p o.value) ↔ 0 < bundle.observations.countP
        fun o => decide (o.source = roster.at s) && decide (o.target = roster.at t)
          && p (observationFlags o.value) := by rw [h]
    simpa only [List.countP_pos_iff, Bool.and_eq_true, decide_eq_true_eq] using hpos
  simp only [List.mem_flatMap, Observed]
  constructor
  · rintro ⟨o, ⟨bundle, hb, ho⟩, hk, hp⟩
    obtain ⟨o', ho', ⟨h1, h2⟩, hp'⟩ := (hpack bundle).mp ⟨o, ho, hk, hp⟩
    refine ⟨o'.value, ⟨bundle, hb, ?_⟩, hp'⟩
    rw [← h1, ← h2]
    exact ho'
  · rintro ⟨v, ⟨bundle, hb, ho⟩, hp⟩
    obtain ⟨o, ho', hk, hp'⟩ := (hpack bundle).mpr ⟨_, ho, ⟨rfl, rfl⟩, hp⟩
    exact ⟨o, ⟨bundle, hb, ho'⟩, hk, hp'⟩

theorem observedPair_iff (bundles : List ReachabilityEvidence) :
    ObservedPair (bundles.flatMap (packObservations roster)) s t ↔
      ∃ v, Observed bundles (roster.at s) (roster.at t) v := by
  have h := exists_packed_iff hs ht (fun _ => true) bundles
  simp only [and_true] at h
  exact h

theorem flagsOf_reachable_iff :
    (flagsOf (fresh.flatMap (packObservations roster)) s t).reachable = true ↔
      Observed fresh (roster.at s) (roster.at t) .reachable := by
  have h := exists_packed_iff hs ht (fun f => f.reachable) fresh
  simp only [flagsOf, List.any_eq_true, Bool.and_eq_true, decide_eq_true_eq]
  rw [h]
  constructor
  · rintro ⟨v, hv, hp⟩
    cases v
    · exact absurd hp (by decide)
    · exact hv
    · exact absurd hp (by decide)
  · intro hv
    exact ⟨_, hv, rfl⟩

theorem flagsOf_unreachable_iff (hform : ∀ b ∈ fresh, LedgerForm roster b) :
    (flagsOf (fresh.flatMap (packObservations roster)) s t).unreachable = true ↔
      Observed fresh (roster.at s) (roster.at t) .unreachable := by
  have h := exists_packed_iff hs ht (fun f => f.unreachable) fresh
  simp only [flagsOf, List.any_eq_true, Bool.and_eq_true, decide_eq_true_eq]
  rw [h]
  constructor
  · rintro ⟨v, ⟨bundle, hb, ho⟩, hp⟩
    rcases (hform bundle hb).explicitValue _ ho with hv | hv
    · have hv' : v = .reachable := hv
      subst hv'
      exact absurd hp (by decide)
    · have hv' : v = .unreachable := hv
      exact hv' ▸ ⟨bundle, hb, ho⟩
  · intro hv
    exact ⟨_, hv, rfl⟩

theorem mem_staleKeys_iff :
    pairKey s t ∈ (expired.flatMap (packObservations roster)).map PackedObservation.key ↔
      ∃ v, Observed expired (roster.at s) (roster.at t) v := by
  rw [← observedPair_iff hs ht expired]
  simp only [List.mem_map, ObservedPair]

omit ht in
theorem count_claimedIndices (bundle : ReachabilityEvidence) :
    (claimedIndices roster bundle).count s
      = if bundle.completeness = .complete then bundle.coveredSources.count (roster.at s) else 0 := by
  unfold claimedIndices
  split
  · rw [coveredIndices, List.count_eq_countP, List.count_eq_countP, List.countP_filterMap]
    congr 1
    funext c
    have h := ComponentRoster.indexOf_iff_at hs c
    cases hc : roster.indexOf c with
    | none =>
      rw [hc] at h
      simp [← h]
    | some i =>
      rw [hc, Option.some.injEq] at h
      simp [← h]
  · rfl

omit ht in
theorem count_claimedIndices_of_form {bundle : ReachabilityEvidence}
    (hform : LedgerForm roster bundle) :
    ((claimedIndices roster bundle).count s = 1 ∧ Covers bundle (roster.at s)) ∨
      ((claimedIndices roster bundle).count s = 0 ∧ ¬ Covers bundle (roster.at s)) := by
  rw [count_claimedIndices hs]
  by_cases hc : bundle.completeness = .complete
  · rw [if_pos hc]
    by_cases hm : roster.at s ∈ bundle.coveredSources
    · exact .inl ⟨List.count_eq_one_of_mem hform.covered_nodup hm, hc, hm⟩
    · exact .inr ⟨List.count_eq_zero_of_not_mem hm, fun h => hm h.2⟩
  · rw [if_neg hc]
    exact .inr ⟨rfl, fun h => hc h.1⟩

/-- The covering observations of a pair in one bundle: all of them when the bundle covers the
source. -/
theorem countP_claimedObservations (bundle : ReachabilityEvidence) :
    (claimedObservations roster bundle).countP (fun o => decide (o.key = pairKey s t))
      = if s ∈ claimedIndices roster bundle then bundle.observations.countP fun o =>
          decide (o.source = roster.at s) && decide (o.target = roster.at t)
        else 0 := by
  have h := countP_packObservations hs ht bundle fun _ => true
  simp only [Bool.and_true] at h
  rw [← h, claimedObservations, List.countP_filter]
  split
  · rename_i hin
    refine List.countP_congr fun o _ => ?_
    simp only [Bool.and_eq_true, decide_eq_true_eq, List.contains_iff_mem, and_iff_left_iff_imp]
    intro hk
    have : o.source = s := (pairKey_inj.mp hk).1
    rwa [this]
  · rename_i hout
    rw [List.countP_eq_zero]
    intro o _ ho
    simp only [Bool.and_eq_true, decide_eq_true_eq, List.contains_iff_mem] at ho
    exact hout ((pairKey_inj.mp ho.1).1 ▸ ho.2)

omit hs ht in
/-- A bundle in ledger form lists a pair at most once, unless it lists it with both values. -/
theorem countP_observations_le_one {bundle : ReachabilityEvidence}
    (hform : LedgerForm roster bundle) {a b : ComponentId}
    (hone : ¬ (⟨a, b, .reachable⟩ ∈ bundle.observations
      ∧ ⟨a, b, .unreachable⟩ ∈ bundle.observations)) :
    bundle.observations.countP (fun o => decide (o.source = a) && decide (o.target = b)) ≤ 1 := by
  have hmem : ∀ o, o ∈ bundle.observations.filter
      (fun o => decide (o.source = a) && decide (o.target = b)) →
      o ∈ bundle.observations ∧ (o = ⟨a, b, .reachable⟩ ∨ o = ⟨a, b, .unreachable⟩) := by
    rintro ⟨x, y, v⟩ ho
    simp only [List.mem_filter, Bool.and_eq_true, decide_eq_true_eq] at ho
    obtain ⟨ho, rfl, rfl⟩ := ho
    rcases hform.explicitValue _ ho with hv | hv
    · exact ⟨ho, .inl (by simpa using hv)⟩
    · exact ⟨ho, .inr (by simpa using hv)⟩
  have hnodup := hform.observations_nodup.filter
    fun o => decide (o.source = a) && decide (o.target = b)
  rw [List.countP_eq_length_filter]
  generalize bundle.observations.filter
    (fun o => decide (o.source = a) && decide (o.target = b)) = listed at hmem hnodup ⊢
  match listed with
  | [] => simp
  | [_] => simp
  | x :: y :: rest =>
    obtain ⟨hx, hx'⟩ := hmem x List.mem_cons_self
    obtain ⟨hy, hy'⟩ := hmem y (List.mem_cons_of_mem _ List.mem_cons_self)
    have hne : x ≠ y := by
      rintro rfl
      simp at hnodup
    rcases hx' with rfl | rfl <;> rcases hy' with rfl | rfl
    · exact absurd rfl hne
    · exact absurd ⟨hx, hy⟩ hone
    · exact absurd ⟨hy, hx⟩ hone
    · exact absurd rfl hne

omit hs ht in
theorem countP_observations_eq_zero_iff {bundle : ReachabilityEvidence} {a b : ComponentId} :
    bundle.observations.countP (fun o => decide (o.source = a) && decide (o.target = b)) = 0 ↔
      SilentAbout bundle a b := by
  rw [List.countP_eq_zero]
  simp only [Bool.and_eq_true, decide_eq_true_eq, not_and, SilentAbout]
  constructor
  · intro h v hv
    exact h _ hv rfl rfl
  · rintro h ⟨x, y, v⟩ ho rfl rfl
    exact h v ho

omit hs ht in
/-- Comparing two sums term by term. -/
theorem sum_lt_sum_iff {bundles : List ReachabilityEvidence} {f g : ReachabilityEvidence → Nat}
    (hle : ∀ b ∈ bundles, f b ≤ g b) :
    (bundles.map f).sum < (bundles.map g).sum ↔ ∃ b ∈ bundles, f b < g b := by
  suffices h : (bundles.map f).sum ≤ (bundles.map g).sum ∧
      ((bundles.map f).sum < (bundles.map g).sum ↔ ∃ b ∈ bundles, f b < g b) from h.2
  induction bundles with
  | nil => simp
  | cons b rest ih =>
    have hb := hle b List.mem_cons_self
    obtain ⟨hsum, hiff⟩ := ih fun b' hb' => hle b' (List.mem_cons_of_mem _ hb')
    simp only [List.map_cons, List.sum_cons, List.mem_cons, exists_eq_or_imp]
    rw [← hiff]
    omega

/-- The hit counts of a context fall short of the coverage exactly when some covering claim is
silent, unless the pair is observed both ways. -/
theorem hits_lt_covering_iff (hform : ∀ b ∈ fresh, LedgerForm roster b)
    (hone : ¬ (Observed fresh (roster.at s) (roster.at t) .reachable
      ∧ Observed fresh (roster.at s) (roster.at t) .unreachable)) :
    (fresh.flatMap (claimedObservations roster)).countP (fun o => decide (o.key = pairKey s t))
        < (fresh.flatMap (claimedIndices roster)).count s ↔
      ∃ bundle ∈ fresh, Covers bundle (roster.at s)
        ∧ SilentAbout bundle (roster.at s) (roster.at t) := by
  rw [List.countP_flatMap, List.count_flatMap]
  have hterm : ∀ b ∈ fresh,
      (claimedObservations roster b).countP (fun o => decide (o.key = pairKey s t))
          ≤ (claimedIndices roster b).count s
        ∧ ((claimedObservations roster b).countP (fun o => decide (o.key = pairKey s t))
            < (claimedIndices roster b).count s ↔
          Covers b (roster.at s) ∧ SilentAbout b (roster.at s) (roster.at t)) := by
    intro b hb
    have hle : b.observations.countP (fun o => decide (o.source = roster.at s)
        && decide (o.target = roster.at t)) ≤ 1 :=
      countP_observations_le_one (hform b hb) fun h => hone ⟨⟨b, hb, h.1⟩, ⟨b, hb, h.2⟩⟩
    have hzero := @countP_observations_eq_zero_iff b (roster.at s) (roster.at t)
    rw [countP_claimedObservations hs ht]
    rcases count_claimedIndices_of_form hs (hform b hb) with ⟨hone', hcov⟩ | ⟨hzero', hcov⟩
    · have hin : s ∈ claimedIndices roster b := List.count_pos_iff.mp (by omega)
      rw [if_pos hin, hone', ← hzero]
      simp only [hcov, true_and]
      omega
    · have hout : s ∉ claimedIndices roster b := List.count_eq_zero.mp hzero'
      rw [if_neg hout, hzero']
      simp [hcov]
  have := sum_lt_sum_iff fun b hb => (hterm b hb).1
  simp only [Function.comp_def] at this ⊢
  rw [this]
  constructor
  · rintro ⟨b, hb, hlt⟩
    exact ⟨b, hb, (hterm b hb).2.mp hlt⟩
  · rintro ⟨b, hb, hcs⟩
    exact ⟨b, hb, (hterm b hb).2.mpr hcs⟩

omit ht in
theorem covering_pos_iff (hform : ∀ b ∈ fresh, LedgerForm roster b) :
    0 < (fresh.flatMap (claimedIndices roster)).count s ↔
      ∃ bundle ∈ fresh, Covers bundle (roster.at s) := by
  rw [List.count_pos_iff, List.mem_flatMap]
  refine exists_congr fun b => and_congr_right fun hb => ?_
  rw [← List.count_pos_iff]
  rcases count_claimedIndices_of_form hs (hform b hb) with ⟨h, hcov⟩ | ⟨h, hcov⟩
  · simp [h, hcov]
  · simp [h, hcov]

end Agreement

/-- The context an evidence set is resolved in. -/
def evidenceContext (roster : ComponentRoster) (policyAge tickNow : UInt64) (limits : Limits)
    (evidence : List ReachabilityEvidence) : ResolutionContext :=
  (gather roster policyAge tickNow limits evidence).context roster.size

section Context

variable {roster : ComponentRoster} {policyAge tickNow : UInt64} {limits : Limits}
  {evidence : List ReachabilityEvidence} {s t : Nat}

/-- The flags a lookup yields, whether it finds the pair or not. -/
theorem lookup_getD (hs : s < roster.size) (t : Nat) :
    ((evidenceContext roster policyAge tickNow limits evidence).ordered.lookup s t).getD {}
      = flagsOf ((freshOf roster policyAge tickNow evidence).flatMap (packObservations roster))
          s t := by
  have hg := (gather_holds roster policyAge tickNow limits evidence).fresh_eq
  have hl := @OrderedIndex.lookup_build roster.size s
    (gather roster policyAge tickNow limits evidence).fresh hs t
  rw [hg] at hl
  simp only [evidenceContext, Gathered.context, hg, hl]
  split
  · rfl
  · rename_i hno
    simp only [flagsOf, Option.getD_none]
    have hany : ∀ p : PackedObservation → Bool, (((freshOf roster policyAge tickNow evidence).flatMap
        (packObservations roster)).any fun o => decide (o.key = pairKey s t) && p o) = false := by
      intro p
      rw [List.any_eq_false]
      intro o ho hop
      simp only [Bool.and_eq_true, decide_eq_true_eq] at hop
      exact hno ⟨o, ho, hop.1⟩
    rw [hany, hany]

theorem covering_evidenceContext (hs : s < roster.size) :
    (evidenceContext roster policyAge tickNow limits evidence).covering s
      = ((freshOf roster policyAge tickNow evidence).flatMap (claimedIndices roster)).count s :=
  (gather_holds roster policyAge tickNow limits evidence).coverCount_eq s hs

theorem silent_evidenceContext (hs : s < roster.size) (t : Nat) :
    (evidenceContext roster policyAge tickNow limits evidence).silent s t = true ↔
      ((freshOf roster policyAge tickNow evidence).flatMap (claimedObservations roster)).countP
          (fun o => decide (o.key = pairKey s t))
        < ((freshOf roster policyAge tickNow evidence).flatMap (claimedIndices roster)).count s := by
  have hc := @covering_evidenceContext roster policyAge tickNow limits evidence s hs
  have hh : (evidenceContext roster policyAge tickNow limits evidence).coverHits.hits s t
      = ((freshOf roster policyAge tickNow evidence).flatMap (claimedObservations roster)).countP
          (fun o => decide (o.key = pairKey s t)) := by
    simp only [evidenceContext, Gathered.context, CoverCounter.hits_build,
      (gather_holds roster policyAge tickNow limits evidence).covering_eq]
  rw [ResolutionContext.silent, hc, hh]
  split
  · rename_i h0
    simp [h0]
  · simp

theorem stale_evidenceContext (s t : Nat) :
    (evidenceContext roster policyAge tickNow limits evidence).stale.contains s t = true ↔
      pairKey s t ∈ ((expiredOf roster policyAge tickNow evidence).flatMap
        (packObservations roster)).map PackedObservation.key := by
  rw [← (gather_holds roster policyAge tickNow limits evidence).staleKeys_eq]
  exact PackedKeySet.contains_assign _ s t

/-- **The resolution of the source is the documented rule.** -/
theorem resolveOrdered_eq_rule (hform : ∀ b ∈ evidence, LedgerForm roster b)
    (hs : s < roster.size) (ht : t < roster.size) :
    (evidenceContext roster policyAge tickNow limits evidence).resolveOrdered s t
      = resolutionRule (freshOf roster policyAge tickNow evidence)
          (expiredOf roster policyAge tickNow evidence) (roster.at s) (roster.at t) := by
  classical
  have hfresh : ∀ b ∈ freshOf roster policyAge tickNow evidence, LedgerForm roster b :=
    fun b hb => hform b (List.mem_filter.mp hb).1
  have hR := @flagsOf_reachable_iff roster (freshOf roster policyAge tickNow evidence) s t hs ht
  have hU := flagsOf_unreachable_iff hs ht hfresh
  have hS := @stale_evidenceContext roster policyAge tickNow limits evidence s t
  rw [mem_staleKeys_iff hs ht] at hS
  have hsilent := @silent_evidenceContext roster policyAge tickNow limits evidence s hs t
  have hflags := @lookup_getD roster policyAge tickNow limits evidence s hs t
  rw [ResolutionContext.resolveOrdered, hflags]
  simp only [resolutionRule, Bool.and_eq_true, Bool.or_eq_true, hR, hU, hS, hsilent]
  by_cases hr : Observed (freshOf roster policyAge tickNow evidence) (roster.at s) (roster.at t)
      .reachable
  · by_cases hu : Observed (freshOf roster policyAge tickNow evidence) (roster.at s) (roster.at t)
        .unreachable
    · simp only [hr, hu, true_and, true_or, if_true]
    · have hclaim := hits_lt_covering_iff hs ht hfresh fun h => hu h.2
      simp only [hr, hu, hclaim, true_and, false_or, if_false, if_true]
  · have hclaim := hits_lt_covering_iff hs ht hfresh fun h => hr h.1
    simp only [hr, hclaim, false_and, if_false]
    by_cases hu : Observed (freshOf roster policyAge tickNow evidence) (roster.at s) (roster.at t)
        .unreachable
    · simp only [hu, true_or, if_true]
    · -- nobody observed the pair, so every claim is silent about it
      have hall : ∀ b ∈ freshOf roster policyAge tickNow evidence,
          SilentAbout b (roster.at s) (roster.at t) := by
        intro b hb v hv
        rcases (hfresh b hb).explicitValue _ hv with h | h
        · exact hr ⟨b, hb, h ▸ hv⟩
        · exact hu ⟨b, hb, h ▸ hv⟩
      have hiff : (∃ b ∈ freshOf roster policyAge tickNow evidence, Covers b (roster.at s)
          ∧ SilentAbout b (roster.at s) (roster.at t)) ↔
          ((∃ b ∈ freshOf roster policyAge tickNow evidence, Covers b (roster.at s))
          ∧ ∀ b ∈ freshOf roster policyAge tickNow evidence, Covers b (roster.at s) →
            SilentAbout b (roster.at s) (roster.at t)) := by
        constructor
        · rintro ⟨b, hb, hc, -⟩
          exact ⟨⟨b, hb, hc⟩, fun b' hb' _ => hall b' hb'⟩
        · rintro ⟨⟨b, hb, hc⟩, -⟩
          exact ⟨b, hb, hc, hall b hb⟩
      simp only [hu, false_or, hiff]

end Context

/-! ## Regular contexts -/

/-- What the counting arguments need to know about a context over `n` components: where its rows
and keys lie, and how the pairs outside the rows resolve. -/
structure ResolutionContext.Regular (ctx : ResolutionContext) (n : Nat) : Prop where
  row_lt : ∀ s < n, (ctx.ordered.row s).Pairwise fun a b => a.target < b.target
  row_mem : ∀ s < n, ∀ r ∈ ctx.ordered.row s, r.target < n ∧ r.target ≠ s
  lookup_none : ∀ s < n, ∀ t, (ctx.ordered.lookup s t).isNone = true ↔
    ∀ r ∈ ctx.ordered.row s, r.target ≠ t
  stale_lt : ctx.stale.keys.Pairwise (· < ·)
  stale_mem : ∀ k ∈ ctx.stale.keys, keySource k < n ∧ keyTarget k < n ∧ keySource k ≠ keyTarget k
  flags_of_reachable : ∀ s < n, ∀ r ∈ ctx.ordered.row s,
    ctx.resolveOrdered s r.target = .reachable → r.flags.reachable = true
  resolve_observed : ∀ s < n, ∀ r ∈ ctx.ordered.row s, ctx.resolveOrdered s r.target = .reachable
    ∨ ctx.resolveOrdered s r.target = .unreachable ∨ ctx.resolveOrdered s r.target = .conflicting
  resolve_covered : ∀ s < n, ∀ t, (∀ r ∈ ctx.ordered.row s, r.target ≠ t) → ctx.covering s ≠ 0 →
    ctx.resolveOrdered s t = .unreachable
  resolve_uncovered : ∀ s < n, ∀ t, (∀ r ∈ ctx.ordered.row s, r.target ≠ t) → ctx.covering s = 0 →
    ctx.resolveOrdered s t = if pairKey s t ∈ ctx.stale.keys then .stale else .unknown

theorem mem_packObservations {roster : ComponentRoster} {bundle : ReachabilityEvidence}
    {o : PackedObservation} (h : o ∈ packObservations roster bundle) :
    ∃ o' ∈ bundle.observations, roster.indexOf o'.source = some o.source
      ∧ roster.indexOf o'.target = some o.target ∧ o.value = observationFlags o'.value := by
  obtain ⟨o', ho', heq⟩ := List.mem_filterMap.mp h
  cases h1 : roster.indexOf o'.source with
  | none => simp [h1] at heq
  | some i =>
    cases h2 : roster.indexOf o'.target with
    | none => simp [h1, h2] at heq
    | some j =>
      simp only [h1, h2, Option.some.injEq] at heq
      subst heq
      exact ⟨o', ho', h1, h2, rfl⟩

/-- A packed observation of a bundle in ledger form joins two different roster indices. -/
theorem LedgerForm.packed {roster : ComponentRoster} {bundle : ReachabilityEvidence}
    (hform : LedgerForm roster bundle) {o : PackedObservation}
    (h : o ∈ packObservations roster bundle) :
    o.source < roster.size ∧ o.target < roster.size ∧ o.source ≠ o.target := by
  obtain ⟨o', ho', h1, h2, -⟩ := mem_packObservations h
  refine ⟨ComponentRoster.indexOf_lt h1, ComponentRoster.indexOf_lt h2, ?_⟩
  intro heq
  rw [ComponentRoster.indexOf_eq_some, heq] at h1
  rw [ComponentRoster.indexOf_eq_some] at h2
  exact hform.noSelf o' ho' (Option.some.inj (h1.symm.trans h2))

theorem observationFlags_ne (v : Reachability) :
    (observationFlags v).reachable = true ∨ (observationFlags v).unreachable = true := by
  cases v <;> decide

/-- The context of any evidence in ledger form is regular. -/
theorem evidenceContext_regular {roster : ComponentRoster} {policyAge tickNow : UInt64}
    {limits : Limits} {evidence : List ReachabilityEvidence}
    (hform : ∀ b ∈ evidence, LedgerForm roster b) :
    (evidenceContext roster policyAge tickNow limits evidence).Regular roster.size := by
  have hg := gather_holds roster policyAge tickNow limits evidence
  generalize hctx : evidenceContext roster policyAge tickNow limits evidence = ctx
  generalize hos : (freshOf roster policyAge tickNow evidence).flatMap (packObservations roster) = os
  have hordered : ctx.ordered = OrderedIndex.build roster.size os := by
    rw [← hctx, ← hos, ← hg.fresh_eq]
    rfl
  have hpacked : ∀ {bundles : List ReachabilityEvidence}, (∀ b ∈ bundles, b ∈ evidence) →
      ∀ o ∈ bundles.flatMap (packObservations roster),
        o.source < roster.size ∧ o.target < roster.size ∧ o.source ≠ o.target := by
    intro bundles hsub o ho
    obtain ⟨b, hb, ho⟩ := List.mem_flatMap.mp ho
    exact (hform b (hsub b hb)).packed ho
  have hin : ∀ o ∈ os, o.source < roster.size ∧ o.target < roster.size ∧ o.source ≠ o.target := by
    rw [← hos]
    exact hpacked fun b hb => (List.mem_filter.mp hb).1
  -- outside the row of a source there is no observation, so the lookup yields no flags
  have hout : ∀ s < roster.size, ∀ t, (∀ r ∈ ctx.ordered.row s, r.target ≠ t) →
      ¬ ObservedPair os s t := by
    intro s hs t hrow hobs
    rw [hordered] at hrow
    exact hrow ⟨s, t, flagsOf os s t⟩ ((OrderedIndex.mem_row hs).mpr ⟨rfl, hobs, rfl⟩) rfl
  have hflags : ∀ s < roster.size, ∀ t, (ctx.ordered.lookup s t).getD {} = flagsOf os s t := by
    intro s hs t
    rw [← hctx, lookup_getD hs t, hos]
  have hnoflags : ∀ s t, ¬ ObservedPair os s t → flagsOf os s t = {} := by
    intro s t hno
    have : ∀ p : PackedObservation → Bool,
        (os.any fun o => decide (o.key = pairKey s t) && p o) = false := by
      intro p
      rw [List.any_eq_false]
      intro o ho hop
      simp only [Bool.and_eq_true, decide_eq_true_eq] at hop
      exact hno ⟨o, ho, hop.1⟩
    rw [flagsOf, this, this]
  have hsilent : ∀ s < roster.size, ∀ t, ¬ ObservedPair os s t →
      ctx.silent s t = decide (ctx.covering s ≠ 0) := by
    intro s hs t hno
    have hiff := @silent_evidenceContext roster policyAge tickNow limits evidence s hs t
    rw [hctx, ← @covering_evidenceContext roster policyAge tickNow limits evidence s hs, hctx] at hiff
    have hzero : ((freshOf roster policyAge tickNow evidence).flatMap
        (claimedObservations roster)).countP (fun o => decide (o.key = pairKey s t)) = 0 := by
      rw [List.countP_eq_zero]
      intro o ho hok
      obtain ⟨b, hb, ho⟩ := List.mem_flatMap.mp ho
      refine hno ⟨o, ?_, of_decide_eq_true hok⟩
      rw [← hos]
      exact List.mem_flatMap.mpr ⟨b, hb, (List.mem_filter.mp ho).1⟩
    rw [hzero] at hiff
    rw [Bool.eq_iff_iff, hiff, decide_eq_true_eq]
    exact Nat.pos_iff_ne_zero
  have hstale : ctx.stale = PackedKeySet.assign
      (gather roster policyAge tickNow limits evidence).staleKeys := by
    rw [← hctx]
    rfl
  have hcontains : ∀ s t, ctx.stale.contains s t = true ↔ pairKey s t ∈ ctx.stale.keys := by
    intro s t
    rw [hstale, PackedKeySet.contains_assign, PackedKeySet.mem_keys]
  have hobserved : ∀ s < roster.size, ∀ r ∈ ctx.ordered.row s,
      r.flags = flagsOf os s r.target ∧ ObservedPair os s r.target := by
    intro s hs r hr
    rw [hordered] at hr
    exact ⟨((OrderedIndex.mem_row hs).mp hr).2.2, ((OrderedIndex.mem_row hs).mp hr).2.1⟩
  refine ⟨?_, ?_, ?_, ?_, ?_, ?_, ?_, ?_, ?_⟩
  · intro s hs
    rw [hordered]
    exact OrderedIndex.row_target_lt hs
  · intro s hs r hr
    obtain ⟨-, o, ho, hok⟩ := hobserved s hs r hr
    obtain ⟨h1, h2⟩ := pairKey_inj.mp hok
    obtain ⟨-, h4, h5⟩ := hin o ho
    rw [← h2, ← h1]
    exact ⟨h4, h5.symm⟩
  · intro s hs t
    rw [hordered, OrderedIndex.lookup_build hs]
    constructor
    · intro hnone r hr hrt
      have := ((OrderedIndex.mem_row hs).mp hr).2.1
      rw [hrt] at this
      simp [this] at hnone
    · intro hrow
      have hno := hout s hs t (by rw [hordered]; exact hrow)
      simp [hno]
  · rw [hstale]
    exact PackedKeySet.keys_lt _
  · intro k hk
    rw [hstale, PackedKeySet.mem_keys, hg.staleKeys_eq] at hk
    obtain ⟨o, ho, rfl⟩ := List.mem_map.mp hk
    exact hpacked (fun b hb => (List.mem_filter.mp hb).1) o ho
  · intro s hs r hr hres
    rw [(hobserved s hs r hr).1]
    simp only [ResolutionContext.resolveOrdered, hflags s hs] at hres
    by_contra hno
    simp only [Bool.not_eq_true] at hno
    simp only [hno, Bool.false_and, Bool.false_eq_true, if_false] at hres
    split at hres
    · cases hres
    · split at hres <;> cases hres
  · intro s hs r hr
    obtain ⟨-, o, ho, hok⟩ := hobserved s hs r hr
    have hval : o.value.reachable = true ∨ o.value.unreachable = true := by
      rw [← hos] at ho
      obtain ⟨b, -, ho⟩ := List.mem_flatMap.mp ho
      obtain ⟨o', -, -, -, hv⟩ := mem_packObservations ho
      rw [hv]
      exact observationFlags_ne _
    have hf : (flagsOf os s r.target).reachable = true ∨
        (flagsOf os s r.target).unreachable = true := by
      refine hval.imp (fun h => ?_) (fun h => ?_)
      · exact List.any_eq_true.mpr ⟨o, ho, by simp [hok, h]⟩
      · exact List.any_eq_true.mpr ⟨o, ho, by simp [hok, h]⟩
    simp only [ResolutionContext.resolveOrdered, hflags s hs]
    rcases hf with hf | hf
    · by_cases hc : ((flagsOf os s r.target).unreachable || ctx.silent s r.target) = true
      · simp [hf, hc]
      · simp [hf, hc]
    · by_cases hc : (flagsOf os s r.target).reachable = true
      · simp [hf, hc]
      · simp [hf, hc]
  · intro s hs t hrow hcov
    have hno := hout s hs t hrow
    simp [ResolutionContext.resolveOrdered, hflags s hs, hnoflags s t hno, hsilent s hs t hno, hcov]
  · intro s hs t hrow hcov
    have hno := hout s hs t hrow
    simp only [ResolutionContext.resolveOrdered, hflags s hs, hnoflags s t hno,
      hsilent s hs t hno, hcov, ne_eq, not_true_eq_false, decide_false, Bool.or_self,
      Bool.false_and, Bool.false_eq_true, if_false, hcontains]

end FabricPartition
