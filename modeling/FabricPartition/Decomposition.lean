import FabricPartition.Majority
import FabricPartition.Components

/-!
# Partitions partition the roster

`build_partitions` over the snapshot of a roster with components: the groups are the classes of the
labels, in the order of the representatives (`groups_eq`), each lists its indices upwards, and the
labels are those of the connected components of the edges, on any evidence (`snapshot_canonical`).
So the member lists share the roster out (`flatten_members_perm`), each in order, and sorting the
partitions by `partition_canonical_less` — the lexicographic order of the member lists
(`partitionCanonicalLess_iff`) — puts them in strict order.

`partitions_partition_roster` collects this with what is added up over the members and what is
pending.  That the identities have distinct preimages is as much as the membership digests allow: two
partitions agree in lineage, generation and membership only if their member lists, which differ, have
one digest.
-/

set_option autoImplicit false

namespace FabricPartition

/-! ## Classes of a labelling -/

/-- The classes of a labelling share out what is labelled. -/
theorem flatMap_filter_perm {α κ : Type} [DecidableEq κ] {keys : List κ} {l : List α} {f : α → κ}
    (hkeys : keys.Nodup) (hl : l.Nodup) (hf : ∀ a ∈ l, f a ∈ keys) :
    (keys.flatMap fun k => l.filter fun a => f a == k).Perm l := by
  refine (List.perm_ext_iff_of_nodup (List.nodup_flatMap.mpr ⟨fun k _ => hl.filter _, ?_⟩) hl).mpr ?_
  · refine hkeys.imp fun hne => ?_
    rw [Function.onFun, List.disjoint_left]
    intro a ha ha'
    have hk := eq_of_beq (List.mem_filter.mp ha).2
    have hk' := eq_of_beq (List.mem_filter.mp ha').2
    exact hne (hk.symm.trans hk')
  · intro a
    rw [List.mem_flatMap]
    refine ⟨fun ⟨k, _, ha⟩ => (List.mem_filter.mp ha).1, fun ha => ⟨f a, hf a ha, ?_⟩⟩
    exact List.mem_filter.mpr ⟨ha, beq_self_eq_true _⟩

namespace ReachabilitySnapshot

variable {s : ReachabilitySnapshot}

/-- The indices that carry a label. -/
def classOf (s : ReachabilitySnapshot) (label : Nat) : List Nat :=
  (List.range s.components.length).filter fun index => s.componentOf.getD index 0 == label

theorem mem_classOf {label index : Nat} :
    index ∈ s.classOf label ↔
      index < s.components.length ∧ s.componentOf.getD index 0 = label := by
  rw [classOf, List.mem_filter, List.mem_range, beq_iff_eq]

/-- **The groups are the classes of the labels**, in the order of the representatives. -/
theorem Labelled.groups_eq (h : s.Labelled) :
    s.groups = s.componentRepresentatives.map s.classOf := by
  rw [groups]
  refine List.ext_getElem (by simp) fun k hk hk' => ?_
  have hlt : k < s.componentRepresentatives.length := by simpa using hk
  rw [List.getElem_map, List.getElem_map, List.getElem_range]
  refine List.filter_congr fun index hindex => ?_
  have hlabel := h.label_mem index (List.mem_range.mp hindex)
  rw [ordinal]
  generalize s.componentOf.getD index 0 = label at hlabel
  obtain ⟨m, hm, rfl⟩ := List.getElem_of_mem hlabel
  rw [List.idxOf?_eq_some_iff.mpr ⟨hm, by simp, fun j hj => by
    simpa using fun heq => hj.ne (h.nodup.getElem_inj_iff.mp heq)⟩]
  simp [h.nodup.getElem_inj_iff]

/-- The components at some indices. -/
def membersAt (s : ReachabilitySnapshot) (group : List Nat) : List ComponentId :=
  group.map fun index => s.components.getD index .nil

theorem membersAt_range :
    s.membersAt (List.range s.components.length) = s.components := by
  refine List.ext_getElem (by simp [membersAt]) fun k hk hk' => ?_
  simp [membersAt, List.getD_eq_getElem?_getD, List.getElem?_eq_getElem hk']

theorem Labelled.flatten_groups_perm (h : s.Labelled) :
    (s.groups.map s.membersAt).flatten.Perm s.components := by
  have hperm : s.groups.flatten.Perm (List.range s.components.length) := by
    rw [h.groups_eq, ← List.flatMap_def]
    exact flatMap_filter_perm h.nodup List.nodup_range fun index hindex =>
      h.label_mem index (List.mem_range.mp hindex)
  have hflatten : (s.groups.map s.membersAt).flatten = s.membersAt s.groups.flatten :=
    (List.map_flatten ..).symm
  rw [hflatten]
  exact (hperm.map _).trans (.of_eq membersAt_range)

end ReachabilitySnapshot

/-! ## The canonical order -/

/-- The loop of `partition_canonical_less` is the lexicographic order. -/
theorem membersLess_iff {xs ys : List ComponentId} : membersLess xs ys = true ↔ xs < ys := by
  induction xs generalizing ys with
  | nil =>
    rcases ys with _ | ⟨y, ys⟩
    · simp [membersLess]
    · simp [membersLess]
  | cons x xs ih =>
    rcases ys with _ | ⟨y, ys⟩
    · simp [membersLess]
    · rw [membersLess, List.cons_lt_cons_iff]
      by_cases hlt : x < y
      · simp [hlt]
      · rw [if_neg hlt]
        by_cases hgt : y < x
        · simp [hgt, hlt, ne_of_gt hgt]
        · rw [if_neg hgt, ih]
          have heq : x = y := le_antisymm (not_lt.mp hgt) (not_lt.mp hlt)
          simp [heq]

theorem partitionCanonicalLess_iff {p q : Partition} :
    partitionCanonicalLess p q = true ↔ p.members < q.members := membersLess_iff

/-- The order the partitions are sorted by. -/
theorem partitionCanonicalLess_eq_false_iff {p q : Partition} :
    partitionCanonicalLess q p = false ↔ p.members ≤ q.members := by
  rw [← not_lt, ← partitionCanonicalLess_iff, Bool.not_eq_true]

instance : Std.Total fun p q : Partition => partitionCanonicalLess q p = false where
  total p q := by
    rw [partitionCanonicalLess_eq_false_iff, partitionCanonicalLess_eq_false_iff]
    exact le_total _ _

instance : IsTrans Partition fun p q => partitionCanonicalLess q p = false where
  trans p q t h h' := by
    rw [partitionCanonicalLess_eq_false_iff] at *
    exact le_trans h h'

/-! ## The snapshot of a roster -/

/-- The edges join indices of the roster, on any evidence. -/
theorem provenEdges_bounded (roster : ComponentRoster) (age tick : UInt64) (limits : Limits)
    (evidence : List ReachabilityEvidence) :
    ∀ e ∈ ((gather roster age tick limits evidence).context roster.size).provenEdges roster.size,
      e.1 < roster.size ∧ e.2 < roster.size := by
  intro e he
  rw [ResolutionContext.provenEdges] at he
  obtain ⟨key, hkey, rfl⟩ := List.mem_map.mp he
  rw [SortedList.mem_unique (List.pairwise_insertionSort _ _), List.mem_insertionSort] at hkey
  obtain ⟨source, hsource, hrow⟩ := List.mem_flatMap.mp hkey
  rw [List.mem_range] at hsource
  obtain ⟨row, hmem, hsome⟩ := List.mem_filterMap.mp hrow
  split at hsome
  · cases hsome
    -- a row is there because a fresh bundle observed its pair
    obtain ⟨-, ⟨o, ho, hpair⟩, -⟩ := (OrderedIndex.mem_row hsource).mp hmem
    rw [(gather_holds roster age tick limits evidence).fresh_eq] at ho
    obtain ⟨b, -, ho⟩ := List.mem_flatMap.mp ho
    obtain ⟨_, -, -, htarget, -⟩ := mem_packObservations ho
    have hlt := ComponentRoster.indexOf_lt htarget
    rw [(pairKey_inj.mp hpair).2] at hlt
    show min source row.target < roster.size ∧ max source row.target < roster.size
    omega
  · cases hsome

/-- **The labels of a snapshot are those of the connected components of its edges**, on any
evidence. -/
theorem snapshot_canonical {roster : ComponentRoster} (hset : roster.set = true)
    (hne : roster.size ≠ 0) (evidence : List ReachabilityEvidence) (policy : Option PartitionPolicy)
    (tick : UInt64) (limits : Limits) :
    CanonicalLabels roster.size
      (buildReachabilitySnapshot roster evidence policy tick limits).edges
      (buildReachabilitySnapshot roster evidence policy tick limits).componentOf := by
  obtain ⟨hedges, hlabels, -⟩ := buildReachabilitySnapshot_eq hset hne evidence policy tick limits
  rw [hlabels]
  refine componentLabels_canonical ?_
  rw [hedges]
  exact provenEdges_bounded roster (policyAge policy) tick limits evidence

/-- The weight of a component; an absent policy weighs every component one. -/
def weightUnder (policy : Option PartitionPolicy) (component : ComponentId) : UInt64 :=
  match policy with
  | some p => p.weightOf component
  | none => 1

/-- Has a component a vote?  An absent policy gives none. -/
def voterUnder (policy : Option PartitionPolicy) (component : ComponentId) : Bool :=
  match policy with
  | some p => p.isVoter component
  | none => false

theorem snapshot_components {roster : ComponentRoster} (hset : roster.set = true)
    (hne : roster.size ≠ 0) (evidence : List ReachabilityEvidence) (policy : Option PartitionPolicy)
    (tick : UInt64) (limits : Limits) :
    let s := buildReachabilitySnapshot roster evidence policy tick limits
    s.valid = true ∧ s.components = roster.components ∧
      s.weights = s.components.map (weightUnder policy) ∧
      s.voters = s.components.map (voterUnder policy) := by
  dsimp only
  rw [buildReachabilitySnapshot, if_neg (by simp [hset])]
  dsimp only
  rw [if_neg hne]
  rcases policy with _ | p
  · refine ⟨rfl, rfl, ?_, ?_⟩
    · exact (List.map_const' ..).symm
    · exact (List.map_const' ..).symm
  · exact ⟨rfl, rfl, rfl, rfl⟩

/-- Counting in 32 bits. -/
theorem toNat_foldl_count {α : Type} (f : α → Bool) (l : List α) (n : UInt32) :
    (l.foldl (fun n a => if f a then n + 1 else n) n).toNat = (n.toNat + l.countP f) % 2 ^ 32 := by
  induction l generalizing n with
  | nil => simp [Nat.mod_eq_of_lt n.toNat_lt]
  | cons a rest ih =>
    rw [List.foldl_cons, ih, List.countP_cons]
    split
    · rw [UInt32.toNat_add]
      simp [Nat.add_assoc, Nat.add_comm 1]
    · simp

/-! ## Pending merges -/

/-- The members meet the latest membership of a live lineage. -/
def Meets (store : LineageStore) (members : List ComponentId) (l : LineageId) : Prop :=
  l ∈ store.liveLineages ∧ ∃ record, store.latest l = some record ∧
    ∃ c ∈ members, c ∈ record.members

/-- **A merge is pending** when the members meet two or more live lineages; then these are listed. -/
theorem Built.pending {snapshot : ReachabilitySnapshot} {generation : PartitionGeneration}
    {store : LineageStore} {limits : Limits} {p : Partition}
    (h : Built snapshot generation store limits p) :
    (p.pendingMergeParents ≠ [] ↔ ∃ l l', l ≠ l' ∧ Meets store p.members l ∧
        Meets store p.members l') ∧
      (p.pendingMergeParents ≠ [] → ∀ l, l ∈ p.pendingMergeParents ↔ Meets store p.members l) ∧
      p.pendingMergeParents.Nodup := by
  have hmem : ∀ l, l ∈ intersecting store p.members ↔ Meets store p.members l := fun l =>
    mem_intersecting
  have hnodup := intersecting_nodup store p.members
  rw [h.pending_eq, classifyLineage_pending]
  generalize intersecting store p.members = found at hmem hnodup
  have htwo : 2 ≤ found.length ↔ ∃ l l', l ≠ l' ∧ Meets store p.members l ∧
      Meets store p.members l' := by
    simp only [← hmem]
    refine ⟨fun hlen => ?_, fun ⟨l, l', hne, hl, hl'⟩ => ?_⟩
    · rcases found with _ | ⟨a, _ | ⟨b, rest⟩⟩
      · simp at hlen
      · simp at hlen
      · exact ⟨a, b, fun heq => (List.nodup_cons.mp hnodup).1 (heq ▸ List.mem_cons_self),
          List.mem_cons_self, List.mem_cons_of_mem _ List.mem_cons_self⟩
    · by_contra hlen
      rcases found with _ | ⟨a, _ | ⟨b, rest⟩⟩
      · cases hl
      · exact hne ((List.mem_singleton.mp hl).trans (List.mem_singleton.mp hl').symm)
      · simp at hlen
  split
  · rename_i hlen
    refine ⟨⟨fun _ => htwo.mp hlen, fun _ hnil => ?_⟩, fun _ l => hmem l, hnodup⟩
    rw [hnil] at hlen
    simp at hlen
  · rename_i hlen
    exact ⟨⟨fun hne => absurd rfl hne, fun hex => absurd (htwo.mpr hex) hlen⟩,
      fun hne => absurd rfl hne, List.nodup_nil⟩

/-! ## The partitions -/

/-- Two member lists that the digest does not tell apart. -/
def Collide (xs ys : List ComponentId) : Prop :=
  xs ≠ ys ∧ computeMembershipDigest xs = computeMembershipDigest ys

/-- What is hashed into the identity of a partition. -/
def identityPreimage (p : Partition) : LineageId × PartitionGeneration × MembershipDigest :=
  (p.lineage, p.generation, p.membership)

/-- The partitions of a snapshot of a roster. -/
structure Partitions (roster : ComponentRoster) (policy : Option PartitionPolicy)
    (store : LineageStore) (s : ReachabilitySnapshot) (ps : List Partition) : Prop where
  /-- The member lists share the roster out. -/
  shared : (ps.map Partition.members).flatten.Perm roster.components
  inhabited : ∀ p ∈ ps, p.members ≠ []
  /-- Each partition is a whole connected component. -/
  connected : ∀ p ∈ ps, ∀ i < roster.size, ∀ j < roster.size, roster.at i ∈ p.members →
    (roster.at j ∈ p.members ↔ Relation.EqvGen (DisjointSet.EdgeOf s.edges) i j)
  sorted : ∀ p ∈ ps, p.members.Pairwise (· < ·)
  ordered : ps.Pairwise fun p q => partitionCanonicalLess p q = true
  weight : ∀ p ∈ ps, p.totalWeight.toNat
    = (p.members.map fun c => (weightUnder policy c).toNat).sum % 2 ^ 64
  voters : ∀ p ∈ ps, p.voterCount.toNat = p.members.countP (voterUnder policy) % 2 ^ 32
  pending : ∀ p ∈ ps,
    (p.pendingMergeParents ≠ [] ↔ ∃ l l', l ≠ l' ∧ Meets store p.members l ∧
        Meets store p.members l') ∧
      (p.pendingMergeParents ≠ [] → ∀ l, l ∈ p.pendingMergeParents ↔ Meets store p.members l) ∧
      p.pendingMergeParents.Nodup
  identity : ∀ p ∈ ps, p.membership = computeMembershipDigest p.members ∧
    p.id = computePartitionId p.lineage p.generation p.membership
  distinct : ps.Pairwise fun p q =>
    identityPreimage p ≠ identityPreimage q ∨ Collide p.members q.members

section Partitions

variable {roster : ComponentRoster} {s : ReachabilitySnapshot}
  (hcomponents : s.components = roster.components)

include hcomponents

theorem sorted_membersAt {group : List Nat} (hgroup : group.Pairwise (· < ·))
    (hlt : ∀ i ∈ group, i < roster.size) : (s.membersAt group).Pairwise (· < ·) := by
  rw [ReachabilitySnapshot.membersAt, hcomponents, List.pairwise_map]
  refine hgroup.imp_of_mem fun hi hj hij => ?_
  exact (ComponentRoster.at_lt_iff (hlt _ hi) (hlt _ hj)).mpr hij

theorem at_mem_membersAt {group : List Nat} (hlt : ∀ i ∈ group, i < roster.size) {i : Nat}
    (hi : i < roster.size) : roster.at i ∈ s.membersAt group ↔ i ∈ group := by
  rw [ReachabilitySnapshot.membersAt, hcomponents, List.mem_map]
  refine ⟨fun ⟨j, hj, heq⟩ => ?_, fun hi => ⟨i, hi, rfl⟩⟩
  rwa [← (ComponentRoster.at_inj (hlt j hj) hi).mp heq]

end Partitions

theorem mem_representatives {roster : ComponentRoster} (hset : roster.set = true)
    (hne : roster.size ≠ 0) (evidence : List ReachabilityEvidence) (policy : Option PartitionPolicy)
    (tick : UInt64) (limits : Limits) (label : Nat) :
    let s := buildReachabilitySnapshot roster evidence policy tick limits
    label ∈ s.componentRepresentatives ↔
      label < roster.size ∧ s.componentOf.getD label 0 = label := by
  intro s
  have hcanonical := snapshot_canonical hset hne evidence policy tick limits
  have hsizes := (buildReachabilitySnapshot_eq hset hne evidence policy tick limits).2.2.1
  have hrepresentatives : s.componentRepresentatives
      = labelRepresentatives roster.size s.componentSizes := by
    rw [show s = buildReachabilitySnapshot roster evidence policy tick limits from rfl,
      buildReachabilitySnapshot, if_neg (by simp [hset])]
    dsimp only
    rw [if_neg hne]
  rw [hrepresentatives, hsizes]
  exact mem_labelRepresentatives hcanonical

/-- Partitions of one snapshot that share its components out, sorted, are in strict order. -/
theorem ordered_of_shared {ps : List Partition} (hnodup : (ps.map Partition.members).flatten.Nodup)
    (hinhabited : ∀ p ∈ ps, p.members ≠ [])
    (hle : ps.Pairwise fun p q => partitionCanonicalLess q p = false) :
    ps.Pairwise fun p q => p.members ≠ q.members ∧ partitionCanonicalLess p q = true := by
  have hdisjoint := List.pairwise_map.mp (List.nodup_flatten.mp hnodup).2
  refine (hdisjoint.and hle).imp_of_mem fun {p q} hp hq ⟨hpq, hle⟩ => ?_
  have hmembers : p.members ≠ q.members := by
    intro heq
    rw [← heq] at hpq
    obtain ⟨c, hc⟩ := List.exists_mem_of_ne_nil _ (hinhabited p hp)
    exact hpq hc hc
  refine ⟨hmembers, ?_⟩
  rw [partitionCanonicalLess_eq_false_iff] at hle
  exact partitionCanonicalLess_iff.mpr (lt_of_le_of_ne hle hmembers)

/-- **Partitions partition the roster.**  Over the snapshot of a roster with components that has no
more of them apart than there may be partitions, on any evidence and any lineage store,
`build_partitions` returns the connected components, each once and in canonical order. -/
theorem partitions_partition_roster {roster : ComponentRoster} (hset : roster.set = true)
    (hne : roster.components ≠ []) (evidence : List ReachabilityEvidence)
    (policy : Option PartitionPolicy) (tick : UInt64) (bounds limits : Limits)
    (generation : PartitionGeneration) (store : LineageStore)
    (hfits : (buildReachabilitySnapshot roster evidence policy tick bounds).componentRepresentatives.length
      ≤ limits.maxPartitions) :
    Partitions roster policy store (buildReachabilitySnapshot roster evidence policy tick bounds)
      (buildPartitions (buildReachabilitySnapshot roster evidence policy tick bounds) generation store
        limits) := by
  have hsize : roster.size ≠ 0 := fun h => hne (List.eq_nil_of_length_eq_zero h)
  have hlabelled := buildReachabilitySnapshot_labelled roster evidence policy tick bounds
  have hcanonical := snapshot_canonical hset hsize evidence policy tick bounds
  obtain ⟨hvalid, hcomponents, hweights, hvoters⟩ :=
    snapshot_components hset hsize evidence policy tick bounds
  have hrepresentatives := mem_representatives hset hsize evidence policy tick bounds
  dsimp only at hrepresentatives
  generalize buildReachabilitySnapshot roster evidence policy tick bounds = s at *
  have hlength : s.components.length = roster.size := congrArg List.length hcomponents
  have hbuild : buildPartitions s generation store limits
      = (s.groups.map (buildPartition s generation store limits)).insertionSort
        fun lhs rhs => partitionCanonicalLess rhs lhs = false := by
    rw [buildPartitions, if_neg (by simp [hvalid]), if_neg (by rw [hlength]; exact hsize),
      if_neg (Nat.not_lt.mpr hfits)]
  rw [hbuild]
  have hperm := List.perm_insertionSort (fun lhs rhs => partitionCanonicalLess rhs lhs = false)
    (s.groups.map (buildPartition s generation store limits))
  have hle := List.pairwise_insertionSort (fun lhs rhs => partitionCanonicalLess rhs lhs = false)
    (s.groups.map (buildPartition s generation store limits))
  generalize (s.groups.map (buildPartition s generation store limits)).insertionSort
    (fun lhs rhs => partitionCanonicalLess rhs lhs = false) = ps at hperm hle
  -- each partition is built from the class of a representative
  have hclass : ∀ p ∈ ps, ∃ label ∈ s.componentRepresentatives,
      p.members = s.membersAt (s.classOf label) ∧ Built s generation store limits p := by
    intro p hp
    obtain ⟨g, hg, rfl⟩ := List.mem_map.mp (hperm.mem_iff.mp hp)
    have hg' := hg
    rw [hlabelled.groups_eq] at hg'
    obtain ⟨label, hlabel, rfl⟩ := List.mem_map.mp hg'
    exact ⟨label, hlabel, rfl, _, hg, rfl⟩
  have hclassLt : ∀ label, ∀ i ∈ s.classOf label, i < roster.size := fun label i hi =>
    hlength ▸ (ReachabilitySnapshot.mem_classOf.mp hi).1
  have hshared : (ps.map Partition.members).flatten.Perm roster.components := by
    rw [← hcomponents]
    refine (hperm.map _).flatten.trans ?_
    rw [List.map_map]
    exact hlabelled.flatten_groups_perm
  have hinhabited : ∀ p ∈ ps, p.members ≠ [] := by
    intro p hp hnil
    obtain ⟨label, hlabel, hmembers, -⟩ := hclass p hp
    have hself : label ∈ s.classOf label :=
      ReachabilitySnapshot.mem_classOf.mpr (hlength ▸ (hrepresentatives label).mp hlabel)
    rw [hmembers] at hnil
    exact List.ne_nil_of_mem hself (List.map_eq_nil_iff.mp hnil)
  have hordered := ordered_of_shared (hshared.nodup_iff.mpr roster.nodup) hinhabited hle
  exact
    { shared := hshared
      inhabited := hinhabited
      connected := by
        intro p hp i hi j hj hmem
        obtain ⟨label, -, hmembers, -⟩ := hclass p hp
        rw [hmembers, at_mem_membersAt hcomponents (hclassLt label) hi] at hmem
        rw [hmembers, at_mem_membersAt hcomponents (hclassLt label) hj,
          ReachabilitySnapshot.mem_classOf, hlength, ← hcanonical.eq_iff i hi j hj,
          (ReachabilitySnapshot.mem_classOf.mp hmem).2]
        exact ⟨fun h => h.2.symm, fun h => ⟨hj, h.symm⟩⟩
      sorted := by
        intro p hp
        obtain ⟨label, -, hmembers, -⟩ := hclass p hp
        rw [hmembers]
        exact sorted_membersAt hcomponents (List.pairwise_lt_range.filter _) (hclassLt label)
      ordered := hordered.imp And.right
      weight := by
        intro p hp
        obtain ⟨_, -, -, hbuilt⟩ := hclass p hp
        rw [(hbuilt.weighed hweights hvoters).2.1, toNat_foldl_add, List.map_map, UInt64.toNat_zero,
          Nat.zero_add]
        rfl
      voters := by
        intro p hp
        obtain ⟨_, -, -, hbuilt⟩ := hclass p hp
        rw [(hbuilt.weighed hweights hvoters).2.2, toNat_foldl_count, UInt32.toNat_zero, Nat.zero_add]
      pending := by
        intro p hp
        obtain ⟨_, -, -, hbuilt⟩ := hclass p hp
        exact hbuilt.pending
      identity := by
        intro p hp
        obtain ⟨_, -, -, hbuilt⟩ := hclass p hp
        exact ⟨hbuilt.membership_eq, hbuilt.id_eq⟩
      distinct := by
        refine hordered.imp_of_mem fun {p q} hp hq hpq => ?_
        have hne := hpq.1
        obtain ⟨_, -, -, hbuiltp⟩ := hclass p hp
        obtain ⟨_, -, -, hbuiltq⟩ := hclass q hq
        by_cases hsame : identityPreimage p = identityPreimage q
        · refine .inr ⟨hne, ?_⟩
          rw [← hbuiltp.membership_eq, ← hbuiltq.membership_eq]
          exact congrArg (fun x => x.2.2) hsame
        · exact .inl hsame }

/-- Two components that nothing is known of are two partitions. -/
theorem unobserved_pair_partitions :
    let s := buildReachabilitySnapshot pairRoster [] none 0 defaultLimits
    let store : LineageStore := { limits := defaultLimits }
    let ps := buildPartitions s .zero store defaultLimits
    Partitions pairRoster none store s ps ∧ ps.length = 2 := by
  have hfits : (buildReachabilitySnapshot pairRoster [] none 0
      defaultLimits).componentRepresentatives.length ≤ defaultLimits.maxPartitions := by
    decide +kernel
  exact ⟨partitions_partition_roster rfl (by decide) [] none 0 defaultLimits defaultLimits .zero _
    hfits, by decide +kernel⟩

end FabricPartition
