import FabricPartition.Grading
import FabricPartition.Lib.Majority

/-!
# Strict majorities

A policy may ask for a strict majority of its weight table.  `domain_weight` and the weight of a
partition are plain sums of machine words, and the majority test is the overflow-free form of
`2 * weight > domain_weight`.

As long as the weights of the table add up below `2 ^ 64`, the words are the exact sums and at most one
partition of a roster has a majority.  From there on the test is meaningless: some decomposition has
two partitions that pass it, whatever the weights are (`majority_unique_iff`).
-/

set_option autoImplicit false

namespace FabricPartition

/-! ## Sums of machine words -/

/-- A wrapping sum is the exact sum modulo the word size. -/
theorem toNat_foldl_add (xs : List UInt64) (a : UInt64) :
    (xs.foldl (· + ·) a).toNat = (a.toNat + (xs.map UInt64.toNat).sum) % 2 ^ 64 := by
  induction xs generalizing a with
  | nil => simp
  | cons x rest ih =>
    rw [List.foldl_cons, ih, UInt64.toNat_add, List.map_cons, List.sum_cons, ← Nat.add_assoc,
      Nat.mod_add_mod]

/-- **The majority test** of a quorum is the exact one, on the words it is given. -/
theorem QuorumRequirement.majority_of_satisfiedBy {q : QuorumRequirement} {components voters : UInt32}
    {weight : UInt64} (hstrict : q.requireStrictMajority = true)
    (h : q.satisfiedBy components voters weight = true) :
    q.domainWeight.toNat < 2 * weight.toNat := by
  rw [satisfiedBy, hstrict] at h
  split at h
  · cases h
  · rw [if_pos rfl] at h
    split at h
    · rename_i hgt
      have hgt := UInt64.lt_iff_toNat_lt.mp hgt
      omega
    · rename_i hle
      have hle : weight ≤ q.domainWeight := UInt64.not_lt.mp hle
      have hgt := UInt64.lt_iff_toNat_lt.mp (of_decide_eq_true h)
      rw [UInt64.toNat_sub_of_le _ _ hle] at hgt
      omega

theorem QuorumRequirement.satisfiedBy_of_majority {q : QuorumRequirement}
    {components voters : UInt32} {weight : UInt64}
    (hmembers : q.minComponents = 0) (hvoters : q.minVoters = 0) (hweight : q.minWeight = 0)
    (h : q.domainWeight.toNat < 2 * weight.toNat) :
    q.satisfiedBy components voters weight = true := by
  rw [satisfiedBy, hmembers, hvoters, hweight, if_neg (by simp)]
  split
  · split
    · rfl
    · rename_i hle
      have hle : weight ≤ q.domainWeight := UInt64.not_lt.mp hle
      refine decide_eq_true (UInt64.lt_iff_toNat_lt.mpr ?_)
      rw [UInt64.toNat_sub_of_le _ _ hle]
      have := UInt64.le_iff_toNat_le.mp hle
      omega
  · rfl

/-- A built partition adds up, over its members, what the tables of the snapshot list. -/
theorem Built.weighed {snapshot : ReachabilitySnapshot} {generation : PartitionGeneration}
    {store : LineageStore} {limits : Limits} {p : Partition}
    (h : Built snapshot generation store limits p) {weigh : ComponentId → UInt64}
    {votes : ComponentId → Bool} (hweights : snapshot.weights = snapshot.components.map weigh)
    (hvoters : snapshot.voters = snapshot.components.map votes) :
    p.weights = p.members.map weigh ∧
      p.totalWeight = (p.members.map weigh).foldl (· + ·) 0 ∧
      p.voterCount = p.members.foldl (fun n member => if votes member then n + 1 else n) 0 := by
  obtain ⟨g, hg, rfl⟩ := h
  obtain ⟨k, -, rfl⟩ := List.mem_map.mp hg
  have hlt : ∀ index ∈ (List.range snapshot.components.length).filter fun index =>
      snapshot.ordinal (snapshot.componentOf.getD index 0) == k,
      index < snapshot.components.length :=
    fun index hindex => List.mem_range.mp (List.mem_filter.mp hindex).1
  generalize (List.range snapshot.components.length).filter (fun index =>
    snapshot.ordinal (snapshot.componentOf.getD index 0) == k) = group at hlt
  have hrow : ∀ index ∈ group,
      snapshot.weights.getD index 0 = weigh (snapshot.components.getD index .nil) ∧
        snapshot.voters.getD index false = votes (snapshot.components.getD index .nil) := by
    intro index hindex
    have hindex := hlt index hindex
    simp [hweights, hvoters, List.getD_eq_getElem?_getD, List.getElem?_eq_getElem hindex]
  have hmap : (group.map fun index => snapshot.weights.getD index 0)
      = (group.map fun index => snapshot.components.getD index .nil).map weigh := by
    rw [List.map_map]
    exact List.map_congr_left fun index hindex => (hrow index hindex).1
  refine ⟨hmap, congrArg (List.foldl (· + ·) 0) hmap, ?_⟩
  show List.foldl _ _ _ = List.foldl _ _ (group.map _)
  rw [List.foldl_map]
  exact List.foldl_ext _ _ _ fun n index hindex => by rw [(hrow index hindex).2]

/-! ## The weight table -/

namespace PartitionPolicy

/-- The weights of the table, added up exactly. -/
def exactWeight (p : PartitionPolicy) : Nat := (p.weights.map fun e => e.weight.toNat).sum

theorem toNat_domainWeight (p : PartitionPolicy) :
    p.domainWeight.toNat = p.exactWeight % 2 ^ 64 := by
  rw [domainWeight, toNat_foldl_add, List.map_map, exactWeight, UInt64.toNat_zero, Nat.zero_add]
  rfl

/-- The table is searchable: its components are in strict order. -/
def Tabled (p : PartitionPolicy) : Prop := p.weights.Pairwise fun e e' => e.component < e'.component

theorem pairwise_lt_of_weightsMalformed {weights : List ComponentWeight}
    (hle : weights.Pairwise fun e e' => e.component ≤ e'.component)
    (h : weightsMalformed weights = false) :
    weights.Pairwise (fun e e' => e.component < e'.component) ∧
      ∀ e ∈ weights, e.component.isNil = false := by
  induction weights with
  | nil => exact ⟨.nil, fun e he => nomatch he⟩
  | cons e rest ih =>
    rcases rest with _ | ⟨e', rest⟩
    · rw [weightsMalformed] at h
      exact ⟨List.pairwise_singleton _ _, by simpa using h⟩
    · rw [weightsMalformed] at h
      simp only [Bool.or_eq_false_iff, beq_eq_false_iff_ne] at h
      obtain ⟨⟨hnil, hne⟩, hrest⟩ := h
      obtain ⟨hlt, hnils⟩ := ih hle.of_cons hrest
      have hfirst : e.component < e'.component :=
        lt_of_le_of_ne (List.rel_of_pairwise_cons hle List.mem_cons_self) (Ne.symm hne)
      refine ⟨.cons (fun e'' he'' => ?_) hlt, List.forall_mem_cons.mpr ⟨hnil, hnils⟩⟩
      rcases List.mem_cons.mp he'' with rfl | he''
      · exact hfirst
      · exact hfirst.trans (List.rel_of_pairwise_cons hlt he'')

/-- What `canonicalised` accepts, it sorts; and a quorum that names no domain gets the whole table. -/
theorem canonicalised_some {p canonical : PartitionPolicy} {limits : Limits}
    (h : p.canonicalised limits = some canonical) :
    canonical.Tabled ∧ (∀ e ∈ canonical.weights, e.component.isNil = false) ∧
      canonical.weights.Perm p.weights ∧
      canonical.fullAuthority = defaultDomain p.fullAuthority canonical.domainWeight := by
  rw [canonicalised] at h
  split at h
  · cases h
  split at h
  · cases h
  split at h
  · cases h
  dsimp only at h
  split at h
  · cases h
  rename_i hwell
  have hsorted := pairwise_lt_of_weightsMalformed
    (SortedList.sortedBy_insertionSort ComponentWeight.component p.weights)
    (eq_false_of_ne_true hwell)
  cases h
  exact ⟨hsorted.1, hsorted.2, List.perm_insertionSort _ _, rfl⟩

/-- Whether a policy is accepted does not depend on its full quorum. -/
theorem canonicalised_with_fullAuthority {p canonical : PartitionPolicy} {limits : Limits}
    (h : p.canonicalised limits = some canonical) (full : QuorumRequirement) :
    ({ p with fullAuthority := full } : PartitionPolicy).canonicalised limits
      = some { canonical with fullAuthority := defaultDomain full canonical.domainWeight } := by
  rw [canonicalised] at h ⊢
  dsimp only at h ⊢
  split at h
  · cases h
  rename_i hid
  split at h
  · cases h
  rename_i hschema
  split at h
  · cases h
  rename_i hlength
  split at h
  · cases h
  rename_i hwell
  cases h
  rw [if_neg hid, if_neg hschema, if_neg hlength, if_neg hwell]
  rfl

theorem entryOf_eq_find? {p : PartitionPolicy} (h : p.Tabled) (component : ComponentId) :
    p.entryOf component = p.weights.find? fun e => e.component == component := by
  have hsearch := SortedList.lowerBound?_eq_find? (h.imp fun hlt => le_of_lt hlt) component
  have hkey : (fun e : ComponentWeight => e.component == component)
      = fun e => @decide (e.component = component) (LinearOrder.toDecidableEq _ _) :=
    funext fun e => by
      rw [Bool.eq_iff_iff, beq_iff_eq]
      exact (@decide_eq_true_iff _ (LinearOrder.toDecidableEq _ _)).symm
  rw [entryOf, hkey]
  exact hsearch

theorem weightOf_mem {p : PartitionPolicy} (h : p.Tabled) {e : ComponentWeight}
    (he : e ∈ p.weights) : p.weightOf e.component = e.weight := by
  have hentry : p.entryOf e.component = some e := by
    rw [entryOf_eq_find? h]
    have hnodup : (p.weights.map ComponentWeight.component).Nodup :=
      List.pairwise_map.mpr (h.imp fun hlt => ne_of_lt hlt)
    cases hfound : p.weights.find? fun e' => e'.component == e.component with
    | none => exact absurd (beq_self_eq_true e.component) (List.find?_eq_none.mp hfound e he)
    | some e' =>
      have heq : e'.component = e.component := by simpa using List.find?_some hfound
      exact congrArg some
        (List.inj_on_of_nodup_map hnodup (List.mem_of_find?_eq_some hfound) he heq)
  rw [weightOf, hentry]

theorem weightOf_ne_zero {p : PartitionPolicy} (h : p.Tabled) {component : ComponentId}
    (hne : p.weightOf component ≠ 0) : component ∈ p.weights.map ComponentWeight.component := by
  rw [weightOf, entryOf_eq_find? h] at hne
  cases hfound : p.weights.find? fun e => e.component == component with
  | none =>
    rw [hfound] at hne
    exact absurd rfl hne
  | some e =>
    have heq : e.component = component := by simpa using List.find?_some hfound
    exact List.mem_map.mpr ⟨e, List.mem_of_find?_eq_some hfound, heq⟩

/-! ## Partitions of a roster -/

/-- What `build_partitions` adds up over a member set. -/
def retain (p : PartitionPolicy) (members : List ComponentId) : Partition where
  members := members
  weights := members.map p.weightOf
  totalWeight := (members.map p.weightOf).foldl (· + ·) 0
  voterCount := members.foldl (fun n member => if p.isVoter member then n + 1 else n) 0

/-- Does a member set satisfy the full quorum? -/
def fullQuorate (p : PartitionPolicy) (members : List ComponentId) : Bool :=
  p.fullAuthority.satisfiedBy (PartitionRuntime.quorumMembers (p.retain members))
    (p.retain members).voterCount (p.retain members).totalWeight

/-- The exact weight of a member set. -/
def exactWeightOf (p : PartitionPolicy) (member : ComponentId) : Nat := (p.weightOf member).toNat

theorem toNat_totalWeight (p : PartitionPolicy) (members : List ComponentId) :
    (p.retain members).totalWeight.toNat = (members.map p.exactWeightOf).sum % 2 ^ 64 := by
  rw [retain, toNat_foldl_add, List.map_map, UInt64.toNat_zero, Nat.zero_add]
  rfl

theorem exactWeight_eq {p : PartitionPolicy} (h : p.Tabled) :
    ((p.weights.map ComponentWeight.component).map p.exactWeightOf).sum = p.exactWeight := by
  rw [exactWeight, List.map_map]
  exact congrArg List.sum (List.map_congr_left fun e he => congrArg UInt64.toNat (weightOf_mem h he))

theorem Tabled.nodup {p : PartitionPolicy} (h : p.Tabled) :
    (p.weights.map ComponentWeight.component).Nodup :=
  List.pairwise_map.mpr (h.imp fun hlt => ne_of_lt hlt)

/-- **With a table that fits the word**, two disjoint member sets do not both have a strict majority
of it. -/
theorem countP_fullQuorate_le_one {p : PartitionPolicy} (h : p.Tabled)
    (hstrict : p.fullAuthority.requireStrictMajority = true)
    (hdomain : p.fullAuthority.domainWeight = p.domainWeight) (hfits : p.exactWeight < 2 ^ 64)
    {parts : List (List ComponentId)} (hparts : parts.flatten.Nodup) :
    parts.countP p.fullQuorate ≤ 1 := by
  have hsum : (parts.flatten.map p.exactWeightOf).sum ≤ p.exactWeight := by
    rw [← exactWeight_eq h]
    refine Majority.sum_le_of_support hparts h.nodup fun member _ hne => ?_
    exact weightOf_ne_zero h fun hzero => hne (congrArg UInt64.toNat hzero)
  refine Nat.le_trans (List.countP_mono_left fun members _ hquorate => ?_)
    (Majority.countP_majority_le_one hsum)
  have hmajority := QuorumRequirement.majority_of_satisfiedBy hstrict hquorate
  rw [hdomain, toNat_domainWeight, Nat.mod_eq_of_lt hfits, toNat_totalWeight] at hmajority
  have hle := Nat.mod_le (members.map p.exactWeightOf).sum (2 ^ 64)
  exact decide_eq_true (by omega)

/-- The roster of some components. -/
def rosterOf (members : List ComponentId) (hnodup : members.Nodup)
    (hnil : ∀ c ∈ members, c.isNil = false) : ComponentRoster where
  components := sortedComponents members
  set := true
  sorted := by
    have hle : (sortedComponents members).Pairwise (· ≤ ·) := List.pairwise_insertionSort _ _
    have hne : (sortedComponents members).Pairwise (· ≠ ·) :=
      (List.perm_insertionSort (· ≤ ·) members).nodup_iff.mpr hnodup
    exact (hle.and hne).imp fun h => lt_of_le_of_ne h.1 h.2
  nonNil := fun c hc => hnil c ((List.perm_insertionSort (· ≤ ·) members).mem_iff.mp hc)

/-- The weight table, and the quorum measured against it, with a strict majority asked for and the
domain left to be derived: at most one part of any decomposition of any roster satisfies it. -/
def MajorityUnique (p : PartitionPolicy) (limits : Limits) : Prop :=
  ∀ (full : QuorumRequirement) (canonical : PartitionPolicy),
    full.requireStrictMajority = true → full.domainWeight = 0 →
    ({ p with fullAuthority := full } : PartitionPolicy).canonicalised limits = some canonical →
    ∀ (roster : ComponentRoster) (parts : List (List ComponentId)),
      parts.flatten.Perm roster.components → parts.countP canonical.fullQuorate ≤ 1

/-- **A strict majority is unique** exactly when the exact weight of the table fits a machine word. -/
theorem majority_unique_iff {p canonical : PartitionPolicy} {limits : Limits}
    (h : p.canonicalised limits = some canonical) :
    p.MajorityUnique limits ↔ p.exactWeight < 2 ^ 64 := by
  obtain ⟨htabled, hnil, hperm, -⟩ := canonicalised_some h
  have hexact : canonical.exactWeight = p.exactWeight := by
    rw [exactWeight, exactWeight]
    exact (hperm.map _).sum_eq
  rw [← hexact]
  refine ⟨fun hunique => ?_, fun hfits full c hstrict hzero hc roster parts hparts => ?_⟩
  · by_contra hwraps
    -- the quorum that asks for nothing but the majority
    let full : QuorumRequirement := { requireStrictMajority := true }
    obtain ⟨left, right, hsub, hleft, hright⟩ := Majority.exists_two_wrapped_majorities
      (w := fun e : ComponentWeight => e.weight.toNat) (by decide : 0 < 2 ^ 64) canonical.weights
      (fun e _ => e.weight.toNat_lt) (Nat.not_lt.mp hwraps)
    obtain ⟨table, htable, hsub⟩ := hsub
    have hmem : ∀ e ∈ left ++ right, e ∈ canonical.weights := fun e he =>
      hsub.subset (htable.mem_iff.mpr he)
    have hnodup : ((left ++ right).map ComponentWeight.component).Nodup :=
      (htable.map _).nodup_iff.mp ((hsub.map _).nodup htabled.nodup)
    have hnils : ∀ c ∈ (left ++ right).map ComponentWeight.component, c.isNil = false := by
      intro c hc
      obtain ⟨e, he, rfl⟩ := List.mem_map.mp hc
      exact hnil e (hmem e he)
    have hquorate : ∀ side : List ComponentWeight, (∀ e ∈ side, e ∈ canonical.weights) →
        canonical.exactWeight % 2 ^ 64 < 2 * ((side.map fun e => e.weight.toNat).sum % 2 ^ 64) →
        ({ canonical with fullAuthority := defaultDomain full canonical.domainWeight } :
          PartitionPolicy).fullQuorate (side.map ComponentWeight.component) = true := by
      intro side hside hmajority
      refine QuorumRequirement.satisfiedBy_of_majority rfl rfl rfl ?_
      have hweights : (side.map ComponentWeight.component).map canonical.exactWeightOf
          = side.map fun e => e.weight.toNat := by
        rw [List.map_map]
        exact List.map_congr_left fun e he => congrArg UInt64.toNat (weightOf_mem htabled (hside e he))
      change canonical.domainWeight.toNat < 2 * (canonical.retain _).totalWeight.toNat
      rwa [toNat_domainWeight, toNat_totalWeight, hweights]
    have hparts := hunique full _ rfl rfl (canonicalised_with_fullAuthority h full)
      (rosterOf _ hnodup hnils)
      [left.map ComponentWeight.component, right.map ComponentWeight.component] (by
        rw [List.flatten_cons, List.flatten_cons, List.flatten_nil, List.append_nil,
          ← List.map_append]
        exact (List.perm_insertionSort (· ≤ ·) _).symm)
    rw [List.countP_cons_of_pos (hquorate left (fun e he => hmem e (List.mem_append_left _ he)) hleft),
      List.countP_cons_of_pos (hquorate right (fun e he => hmem e (List.mem_append_right _ he)) hright)]
      at hparts
    omega
  · rw [canonicalised_with_fullAuthority h] at hc
    cases hc
    refine countP_fullQuorate_le_one
      (p := { canonical with fullAuthority := defaultDomain full canonical.domainWeight })
      htabled ?_ ?_ hfits (hparts.nodup_iff.mpr roster.nodup)
    · rw [defaultDomain, if_pos hzero]
      exact hstrict
    · rw [defaultDomain, if_pos hzero]
      rfl

/-- The snapshot of a policy lists the weight and the franchise of each component. -/
theorem snapshot_tables (roster : ComponentRoster) (evidence : List ReachabilityEvidence)
    (policy : PartitionPolicy) (tick : UInt64) (limits : Limits) :
    let snapshot := buildReachabilitySnapshot roster evidence (some policy) tick limits
    snapshot.weights = snapshot.components.map policy.weightOf ∧
      snapshot.voters = snapshot.components.map policy.isVoter := by
  rw [buildReachabilitySnapshot]
  split
  · exact ⟨rfl, rfl⟩
  · dsimp only
    split <;> exact ⟨rfl, rfl⟩

/-- **A built partition** has the weight and the voters of its members. -/
theorem built_retained {roster : ComponentRoster} {evidence : List ReachabilityEvidence}
    {policy : PartitionPolicy} {tick : UInt64} {limits : Limits} {generation : PartitionGeneration}
    {store : LineageStore} {p : Partition}
    (h : Built (buildReachabilitySnapshot roster evidence (some policy) tick limits) generation store
      limits p) :
    p.weights = (policy.retain p.members).weights ∧
      p.totalWeight = (policy.retain p.members).totalWeight ∧
      p.voterCount = (policy.retain p.members).voterCount := by
  obtain ⟨hweights, hvoters⟩ := snapshot_tables roster evidence policy tick limits
  exact h.weighed hweights hvoters

end PartitionPolicy

namespace PartitionRuntime

/-- Two components of half a word each. -/
def heavyPolicy : PartitionPolicy :=
  { id := named _ "q"
    generation := ⟨2⟩
    weights := [⟨named _ "a", 0x8000000000000000, false⟩, ⟨named _ "b", 0x8000000000000000, false⟩]
    fullAuthority := { requireStrictMajority := true } }

/-- The two halves add up to nothing, and each alone is a strict majority of that. -/
theorem two_strict_majorities :
    let r := smallRuntime.after (partingUnder heavyPolicy)
    heavyPolicy.fullAuthority.requireStrictMajority = true ∧
      heavyPolicy.fullAuthority.domainWeight = 0 ∧
      heavyPolicy.canonicalised r.limits = some r.policy ∧
      ∃ outcome ∈ (assessLocked false r).1.toOption,
        outcome.partitions.length = 2 ∧ ∀ p ∈ outcome.partitions, r.meetsFull p = true := by
  decide +kernel

/-- Two components of unequal weight. -/
def lightPolicy : PartitionPolicy :=
  { heavyPolicy with weights := [⟨named _ "a", 1, false⟩, ⟨named _ "b", 2, false⟩] }

theorem light_majority_unique : lightPolicy.MajorityUnique defaultLimits := by
  obtain ⟨canonical, h⟩ := Option.isSome_iff_exists.mp
    (by decide +kernel : (lightPolicy.canonicalised defaultLimits).isSome = true)
  exact (PartitionPolicy.majority_unique_iff h).mpr (by decide +kernel)

end PartitionRuntime

end FabricPartition
