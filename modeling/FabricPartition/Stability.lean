import FabricPartition.Descent

/-!
# Repeated assessments

An assessment that commits every partition leaves a lineage store against which the same component
sets come out the same (`Surveys.settles`).  What is left to show of the runtime is that `assess_locked`
surveys, in that sense, the store it starts from, and that on a store that is settled it writes no
lineage.
-/

set_option autoImplicit false

namespace FabricPartition

/-! ## The groups of a snapshot -/

/-- The members of a group. -/
def ReachabilitySnapshot.membersOf (snapshot : ReachabilitySnapshot) (group : List Nat) :
    List ComponentId :=
  group.map fun index => snapshot.components.getD index .nil

/-- Groups that share a member are the same. -/
theorem ReachabilitySnapshot.groups_apart {snapshot : ReachabilitySnapshot}
    (hnodup : snapshot.components.Nodup) {g k : List Nat} (hg : g ∈ snapshot.groups)
    (hk : k ∈ snapshot.groups) {c : ComponentId} (hcg : c ∈ snapshot.membersOf g)
    (hck : c ∈ snapshot.membersOf k) : g = k := by
  obtain ⟨m, -, rfl⟩ := List.mem_map.mp hg
  obtain ⟨n, -, rfl⟩ := List.mem_map.mp hk
  obtain ⟨i, hi, rfl⟩ := List.mem_map.mp hcg
  obtain ⟨j, hj, hij⟩ := List.mem_map.mp hck
  obtain ⟨hi, him⟩ := List.mem_filter.mp hi
  obtain ⟨hj, hjn⟩ := List.mem_filter.mp hj
  rw [List.mem_range] at hi hj
  rw [List.getD_eq_getElem?_getD, List.getD_eq_getElem?_getD, List.getElem?_eq_getElem hi,
    List.getElem?_eq_getElem hj, Option.getD_some, Option.getD_some] at hij
  obtain rfl := (hnodup.getElem_inj_iff).mp hij
  rw [beq_iff_eq] at him hjn
  rw [← him, ← hjn]

theorem buildReachabilitySnapshot_nodup (roster : ComponentRoster)
    (evidence : List ReachabilityEvidence) (policy : Option PartitionPolicy) (nowTick : UInt64)
    (limits : Limits) :
    (buildReachabilitySnapshot roster evidence policy nowTick limits).components.Nodup := by
  rw [buildReachabilitySnapshot]
  split
  · exact List.nodup_nil
  · dsimp only
    split <;> exact roster.nodup

/-- Partitions built from one snapshot that share a member have the same members. -/
theorem Built.apart {snapshot : ReachabilitySnapshot} {generation : PartitionGeneration}
    {store : LineageStore} {limits : Limits} {p q : Partition}
    (hnodup : snapshot.components.Nodup) (hp : Built snapshot generation store limits p)
    (hq : Built snapshot generation store limits q) {c : ComponentId} (hcp : c ∈ p.members)
    (hcq : c ∈ q.members) : p.members = q.members := by
  obtain ⟨g, hg, rfl⟩ := hp
  obtain ⟨k, hk, rfl⟩ := hq
  obtain rfl := ReachabilitySnapshot.groups_apart hnodup hg hk hcp hcq
  rfl

theorem Partition.Dresses.members {p q : Partition} (h : p.Dresses q) : q.members = p.members := by
  obtain ⟨_, _, _, _, _, rfl⟩ := h
  rfl

/-- Lists that agree, element by element, on a projection. -/
theorem map_eq_of_forall₂ {α γ : Type} {f : α → γ} {xs ys : List α}
    (h : List.Forall₂ (fun x y => f y = f x) xs ys) : ys.map f = xs.map f := by
  induction h with
  | nil => rfl
  | cons hxy _ ih => rw [List.map_cons, List.map_cons, hxy, ih]

/-- The member sets a snapshot is reported as, in canonical order. -/
def ReachabilitySnapshot.reportedSets (snapshot : ReachabilitySnapshot) (limits : Limits) :
    List (List ComponentId) :=
  if !snapshot.valid then []
  else if snapshot.components.length = 0 then []
  else if snapshot.componentRepresentatives.length > limits.maxPartitions then []
  else (snapshot.groups.map snapshot.membersOf).insertionSort fun lhs rhs => membersLess rhs lhs = false

theorem buildPartitions_members (snapshot : ReachabilitySnapshot) (generation : PartitionGeneration)
    (store : LineageStore) (limits : Limits) :
    (buildPartitions snapshot generation store limits).map Partition.members
      = snapshot.reportedSets limits := by
  rw [buildPartitions, ReachabilitySnapshot.reportedSets]
  split
  · rfl
  split
  · rfl
  split
  · rfl
  refine (List.map_insertionSort _ (fun lhs rhs => membersLess rhs lhs = false) Partition.members _
    fun _ _ _ _ => Iff.rfl).trans ?_
  rw [List.map_map]
  rfl

/-- Two snapshots resolve to one decomposition: the same components, with the same labels. -/
structure SameDecomposition (left right : ReachabilitySnapshot) : Prop where
  valid : right.valid = left.valid
  components : right.components = left.components
  labels : right.componentOf = left.componentOf
  representatives : right.componentRepresentatives = left.componentRepresentatives

theorem SameDecomposition.reportedSets {left right : ReachabilitySnapshot}
    (h : SameDecomposition left right) (limits : Limits) :
    right.reportedSets limits = left.reportedSets limits := by
  rw [ReachabilitySnapshot.reportedSets, ReachabilitySnapshot.reportedSets, h.valid, h.components,
    h.representatives]
  have hgroups : right.groups = left.groups := by
    unfold ReachabilitySnapshot.groups ReachabilitySnapshot.ordinal
    rw [h.components, h.representatives, h.labels]
  have hmembers : right.membersOf = left.membersOf := by
    unfold ReachabilitySnapshot.membersOf
    rw [h.components]
  rw [hgroups, hmembers]

/-- The lineage a store gives a member set. -/
def LineageStore.lineageOf (store : LineageStore) (members : List ComponentId) : LineageId :=
  (classifyLineage store members (computeMembershipDigest members)).lineage

/-- The store has a lineage for the member set, with its membership on record. -/
def LineageStore.Settled (store : LineageStore) (members : List ComponentId) : Prop :=
  (classifyLineage store members (computeMembershipDigest members)).pendingMergeParents = [] ∧
    ∃ record, store.latest (store.lineageOf members) = some record ∧
      record.membership = computeMembershipDigest members

theorem Partition.ClassifiedBy.lineageOf {store : LineageStore} {p : Partition}
    (h : p.ClassifiedBy store) : p.lineage = store.lineageOf p.members := by
  rw [h.lineage, h.membership]
  rfl

theorem Settles.settled {store store' : LineageStore} {p : Partition} (hp : p.ClassifiedBy store)
    (h : Settles store' p) :
    store'.Settled p.members ∧ store'.lineageOf p.members = store.lineageOf p.members := by
  obtain ⟨hlineage, hpending, record, hlatest, hsame⟩ := h
  rw [hp.membership] at hlineage hpending hsame
  have hof : store'.lineageOf p.members = p.lineage := hlineage
  exact ⟨⟨hpending, record, hof.symm ▸ hlatest, hsame⟩, hof.trans hp.lineageOf⟩

namespace PartitionRuntime

/-! ## What an assessment commits -/

theorem Chronicles.records {p : Partition} {record : LineageRecord} (h : Chronicles p record) :
    p.Records record := by
  obtain ⟨hpending, _, _, _, rfl⟩ := h
  exact ⟨hpending, rfl, rfl, rfl, rfl, rfl, rfl⟩

/-- A turn of the lineage loop that commits its partition leaves its membership on record. -/
theorem commitLineage_committed (decision : DecisionId) {p : Partition} (r : PartitionRuntime)
    (hlifecycle : p.lifecycle ≠ .committed)
    (hcommitted : (commitLineage decision p r).1.lifecycle = .committed) :
    ∃ record, (commitLineage decision p r).2.lineage.latest p.lineage = some record ∧
      record.membership = p.membership := by
  rw [commitLineage] at hcommitted ⊢
  split at hcommitted
  · exact absurd hcommitted hlifecycle
  split at hcommitted
  · exact absurd hcommitted hlifecycle
  rename_i hstale hpending
  rw [if_neg hstale, if_neg hpending]
  split at hcommitted
  · rename_i hexisting
    rw [if_pos hexisting]
    obtain ⟨record, hlatest, hsame⟩ := (Option.any_eq_true _ _).mp hexisting
    exact ⟨record, hlatest, by simpa using hsame⟩
  rename_i hnew
  rw [if_neg hnew]
  rcases hnext : r.state.lineageSequence.next with _ | sequence
  · rw [hnext] at hcommitted
    exact absurd hcommitted hlifecycle
  simp only [hnext] at hcommitted ⊢
  rcases hcommit : commitRecord .lineageRecord
      (encodeLineage (r.assessmentRecord decision sequence p)) r with ⟨_ | _, s⟩
  · simp only [hcommit] at hcommitted
    exact absurd hcommitted hlifecycle
  simp only [hcommit, LineageStore.append] at hcommitted ⊢
  by_cases hadmits : s.lineage.admits (r.assessmentRecord decision sequence p) = true
  · simp only [hadmits, if_true]
    refine ⟨_, (LineageStore.latest_push _ _ _).trans (if_pos rfl), rfl⟩
  · simp only [hadmits, Bool.false_eq_true, if_false] at hcommitted
    exact absurd hcommitted hlifecycle

/-- **What the loop commits it has on record at the end of the turn.** -/
theorem commitLineages_committed {decision : DecisionId} {ps qs : List Partition}
    {r r' : PartitionRuntime} (h : commitLineages decision ps r = (qs, r')) {all : List Partition}
    (hall : ps ⊆ all) {start : LineageStore}
    (hstart : start.Grows (fun record => ∃ p ∈ all, p.Records record) r.lineage)
    (hlifecycle : ∀ p ∈ ps, p.lifecycle ≠ .committed) :
    List.Forall₂ (fun p q => q.lifecycle = .committed → CommittedBy start all r'.lineage p)
      ps qs := by
  induction ps generalizing r qs with
  | nil =>
    cases h
    exact .nil
  | cons p rest ih =>
    rw [commitLineages] at h
    rcases hfirst : commitLineage decision p r with ⟨p', s⟩
    rcases hrest : commitLineages decision rest s with ⟨others, t⟩
    simp only [hfirst, hrest] at h
    cases h
    have hgrows : r.lineage.Grows (fun record => ∃ p ∈ all, p.Records record) s.lineage := by
      obtain ⟨_, _, _, -, hgrows, rfl⟩ := commitLineage_chronicled hfirst
      refine hgrows.mono ?_
      rintro record ⟨q, hq, hrecord⟩
      rw [List.mem_singleton.mp hq] at hrecord
      exact ⟨p, hall List.mem_cons_self, hrecord.records⟩
    have hback : s.lineage.Grows (fun record => ∃ p ∈ all, p.Records record) r'.lineage := by
      obtain ⟨-, _, _, _, -, hgrows, rfl⟩ := commitLineages_cases hrest
      refine hgrows.mono ?_
      rintro record ⟨q, hq, hrecord⟩
      exact ⟨q, hall (List.mem_cons_of_mem _ hq), hrecord.records⟩
    refine .cons (fun hcommitted => ?_)
      (ih hrest (fun q hq => hall (List.mem_cons_of_mem _ hq)) (hstart.trans hgrows)
        fun q hq => hlifecycle q (List.mem_cons_of_mem _ hq))
    have hturn := commitLineage_committed decision r (hlifecycle p List.mem_cons_self)
    rw [hfirst] at hturn
    have hturn := hturn hcommitted
    obtain ⟨record, hlatest, hsame⟩ := hturn
    exact ⟨s.lineage, record, hstart.trans hgrows, hlatest, hsame, hback⟩

/-! ## Published partitions -/

/-- Issuing authority leaves the lifecycles alone. -/
theorem issueAuthority_lifecycle (r : PartitionRuntime) (pes : List (Partition × ClassEvaluation))
    (sequence : AuthoritySequence) (reasons : List Reason) :
    List.Forall₂ (fun (pe : Partition × ClassEvaluation) q => q.lifecycle = pe.1.lifecycle) pes
      (r.issueAuthority pes sequence reasons).1 := by
  induction pes generalizing sequence reasons with
  | nil => exact .nil
  | cons pe rest ih =>
    obtain ⟨p, e⟩ := pe
    rw [issueAuthority]
    dsimp only
    split
    · exact .cons rfl (ih _ _)
    · rcases sequence.next with _ | next
      · exact .cons rfl (ih _ _)
      · exact .cons rfl (ih _ _)

theorem evaluateAuthority_lifecycle (r : PartitionRuntime) (ps : List Partition)
    (allowRestore : Bool) :
    List.Forall₂ (fun p q => q.lifecycle = p.lifecycle) ps
      (r.evaluateAuthority ps allowRestore).partitions := by
  obtain ⟨reasons, hps, -⟩ := r.evaluateAuthority_eq ps allowRestore
  have hall := r.issueAuthority_lifecycle (r.settledClasses ps allowRestore)
    r.state.authoritySequence reasons
  rw [← hps] at hall
  have hfst := (List.forall₂_map_left_iff (R := fun (p q : Partition) => q.lifecycle = p.lifecycle)).mpr
    hall
  rwa [settledClasses_fst] at hfst

section Surveyed

variable {allowRestore : Bool} {generation : PartitionGeneration} {r r' : PartitionRuntime}
  {outcome : PartitionAssessment}

/-- The partitions of an assessment are built from the current snapshot, and dressed. -/
theorem planned_built {p : Partition} (hp : p ∈ (planned allowRestore generation r).partitions) :
    ∃ b, Built r.currentSnapshot generation r.lineage r.limits b ∧ b.Dresses p := by
  obtain ⟨b, hb, hdress⟩ := exists_of_forall₂
    ((beginAssessment generation r).evaluateAuthority_dresses _ allowRestore) hp
  exact ⟨b, mem_buildPartitions hb, hdress⟩

/-- Nothing is committed yet. -/
theorem planned_lifecycle {p : Partition}
    (hp : p ∈ (planned allowRestore generation r).partitions) : p.lifecycle = .discovered := by
  obtain ⟨b, hb, hlifecycle⟩ := exists_of_forall₂
    ((beginAssessment generation r).evaluateAuthority_lifecycle _ allowRestore) hp
  rw [hlifecycle, (mem_buildPartitions hb).lifecycle_eq]

/-- **An assessment surveys the store it starts from.** -/
theorem Surveyed.surveys (h : Surveyed allowRestore generation r r' outcome) :
    Surveys r.lineage (PartitionRuntime.planned allowRestore generation r).partitions r'.lineage where
  grows := by
    obtain ⟨-, -, lineage, _, _, _, _, _, _, _, _, hgrows, rfl⟩ := h.cases
    exact hgrows.mono fun record ⟨p, hp, hrecord⟩ => ⟨p, hp, hrecord.records⟩
  classified p hp := by
    obtain ⟨b, hb, hdress⟩ := planned_built hp
    exact hdress.classified hb.classified
  apart p hp q hq c hcp hcq := by
    obtain ⟨b, hb, hdress⟩ := planned_built hp
    obtain ⟨d, hd, hdress'⟩ := planned_built hq
    rw [hdress.members] at hcp ⊢
    rw [hdress'.members] at hcq ⊢
    exact hb.apart (buildReachabilitySnapshot_nodup _ _ _ _ _) hd hcp hcq

/-- What was planned is published, with the lifecycle the lineage loop gives it. -/
theorem Surveyed.committedBy (h : Surveyed allowRestore generation r r' outcome) :
    List.Forall₂ (fun p q => (∃ lifecycle reasons,
        q = { p with lifecycle := lifecycle, reasons := reasons }) ∧
      (q.lifecycle = .committed → CommittedBy r.lineage
        (PartitionRuntime.planned allowRestore generation r).partitions r'.lineage p))
      (PartitionRuntime.planned allowRestore generation r).partitions outcome.partitions := by
  have hlifecycle : ∀ p ∈ (PartitionRuntime.planned allowRestore generation r).partitions,
      p.lifecycle ≠ .committed := fun p hp => by
    rw [planned_lifecycle hp]
    exact nofun
  obtain ⟨decision, s, t, ps, hq, hcommit, hpub⟩ := h
  have hs : s.lineage = r.lineage := by
    obtain ⟨_, _, _, _, _, -, rfl⟩ := hq
    rfl
  rcases hpub with ⟨-, hpub⟩ | ⟨hinvalid, -, rfl, hnil, -, -⟩
  · obtain ⟨rfl, -, _, -, hr⟩ := publishAssessment_cases hpub
    obtain ⟨hall, -⟩ := commitLineages_cases hcommit
    have hcommitted := commitLineages_committed hcommit (fun _ hp => hp)
      (by rw [hs]; exact .refl) hlifecycle
    rw [hr]
    exact List.Forall₂.mp (fun _ _ hsame hheld => ⟨hsame, hheld⟩) hall hcommitted
  · rw [hnil, (planned_of_invalid allowRestore hinvalid).1]
    exact .nil

/-- **An assessment that commits every partition settles them.** -/
theorem Surveyed.settles (h : Surveyed allowRestore generation r r' outcome)
    (hrooted : r.lineage.Rooted) (hdistinct : Distinct r'.lineage outcome.partitions)
    (hcommitted : ∀ q ∈ outcome.partitions,
      q.lifecycle = .committed ∧ q.pendingMergeParents = [])
    {q : Partition} (hq : q ∈ outcome.partitions) : Settles r'.lineage q := by
  have hall := h.committedBy
  have hheld : ∀ p ∈ (PartitionRuntime.planned allowRestore generation r).partitions,
      ∃ q ∈ outcome.partitions, (∃ lifecycle reasons,
        q = { p with lifecycle := lifecycle, reasons := reasons }) ∧
        (q.lifecycle = .committed → CommittedBy r.lineage
          (PartitionRuntime.planned allowRestore generation r).partitions r'.lineage p) := by
    intro p hp
    obtain ⟨q, hq, hsame, hheld⟩ := exists_of_forall₂ hall.flip hp
    exact ⟨q, hq, hsame, hheld⟩
  have hplanned : Distinct r'.lineage
      (PartitionRuntime.planned allowRestore generation r).partitions := by
    refine hdistinct.of_subset fun p hp => ?_
    obtain ⟨q, hq, ⟨_, _, rfl⟩, -⟩ := hheld p hp
    exact ⟨_, hq, rfl, rfl⟩
  obtain ⟨p, hp, ⟨lifecycle, reasons, rfl⟩, -⟩ := exists_of_forall₂ hall hq
  obtain ⟨hlineage, hpending, hrecorded⟩ := h.surveys.settles hrooted hplanned
    (fun p hp => by
      obtain ⟨q, hq, ⟨_, _, rfl⟩, -⟩ := hheld p hp
      exact (hcommitted _ hq).2)
    (fun p hp => by
      obtain ⟨q, hq, -, hby⟩ := hheld p hp
      exact hby (hcommitted q hq).1) hp
  exact ⟨hlineage, hpending, hrecorded⟩

end Surveyed

/-! ## Assessing what is settled -/

/-- A lineage loop that finds every membership on record commits all, and writes nothing. -/
theorem commitLineages_settled (decision : DecisionId) {ps : List Partition} {r : PartitionRuntime}
    (hfresh : r.snapshot.anyEvidenceFresh = true)
    (h : ∀ p ∈ ps, p.pendingMergeParents = [] ∧
      ∃ record, r.lineage.latest p.lineage = some record ∧ record.membership = p.membership) :
    commitLineages decision ps r = (ps.map fun p => { p with lifecycle := .committed }, r) := by
  induction ps with
  | nil => rfl
  | cons p rest ih =>
    obtain ⟨hpending, record, hlatest, hsame⟩ := h p List.mem_cons_self
    have hturn : commitLineage decision p r = ({ p with lifecycle := .committed }, r) := by
      rw [commitLineage, if_neg (by rw [hfresh]; simp), if_neg (by rw [hpending]; simp), if_pos]
      rw [hlatest]
      simpa using hsame
    rw [commitLineages, hturn]
    dsimp only
    rw [ih fun q hq => h q (List.mem_cons_of_mem _ hq)]
    rfl

section Surveyed

variable {allowRestore : Bool} {generation : PartitionGeneration} {r r' : PartitionRuntime}
  {outcome : PartitionAssessment}

theorem planned_members (allowRestore : Bool) (generation : PartitionGeneration)
    (r : PartitionRuntime) :
    (planned allowRestore generation r).partitions.map Partition.members
      = r.currentSnapshot.reportedSets r.limits := by
  rw [← buildPartitions_members r.currentSnapshot generation r.lineage r.limits]
  exact map_eq_of_forall₂ (((beginAssessment generation r).evaluateAuthority_dresses
    (buildPartitions (beginAssessment generation r).snapshot
      (beginAssessment generation r).state.partitionGeneration
      (beginAssessment generation r).lineage (beginAssessment generation r).limits)
    allowRestore).imp fun _ _ h => h.members)

/-- What an assessment reports of the member sets: each with the lineage the store gave it. -/
theorem Surveyed.reports (h : Surveyed allowRestore generation r r' outcome) :
    outcome.partitions.map (fun q => (q.members, q.lineage))
      = (r.currentSnapshot.reportedSets r.limits).map fun members =>
          (members, r.lineage.lineageOf members) := by
  rw [← planned_members allowRestore generation r, List.map_map]
  have hsame : outcome.partitions.map (fun q => (q.members, q.lineage))
      = (PartitionRuntime.planned allowRestore generation r).partitions.map
          fun q => (q.members, q.lineage) := by
    refine map_eq_of_forall₂ (h.committedBy.imp ?_)
    rintro _ _ ⟨⟨_, _, rfl⟩, -⟩
    rfl
  rw [hsame]
  refine List.map_congr_left fun p hp => ?_
  rw [Function.comp_apply, (h.surveys.classified p hp).lineageOf]

/-- **An assessment of settled member sets** writes no lineage, and commits every partition. -/
theorem Surveyed.repeats (h : Surveyed allowRestore generation r r' outcome)
    (hfresh : r.currentSnapshot.anyEvidenceFresh = true)
    (hsettled : ∀ members ∈ r.currentSnapshot.reportedSets r.limits, r.lineage.Settled members) :
    r'.lineage = r.lineage ∧ r'.state.lineageSequence = r.state.lineageSequence ∧
      ∀ q ∈ outcome.partitions, q.lifecycle = .committed ∧ q.pendingMergeParents = [] := by
  have hplanned : ∀ p ∈ (PartitionRuntime.planned allowRestore generation r).partitions,
      p.pendingMergeParents = [] ∧
        ∃ record, r.lineage.latest p.lineage = some record ∧ record.membership = p.membership := by
    intro p hp
    have hclassified := h.surveys.classified p hp
    have hmem : p.members ∈ r.currentSnapshot.reportedSets r.limits := by
      rw [← planned_members allowRestore generation r]
      exact List.mem_map_of_mem hp
    obtain ⟨hpending, record, hlatest, hsame⟩ := hsettled p.members hmem
    rw [← hclassified.lineageOf] at hlatest
    rw [← hclassified.membership] at hpending hsame
    exact ⟨hclassified.pending.trans hpending, record, hlatest, hsame⟩
  obtain ⟨decision, s, t, ps, hq, hcommit, hpub⟩ := h
  have hs : s.snapshot = r.currentSnapshot ∧ s.lineage = r.lineage ∧
      s.state.lineageSequence = r.state.lineageSequence := by
    obtain ⟨_, _, _, _, _, -, rfl⟩ := hq
    exact ⟨rfl, rfl, rfl⟩
  obtain ⟨hsnapshot, hlineage, hsequence⟩ := hs
  rw [commitLineages_settled decision.id (hsnapshot.symm ▸ hfresh) (hlineage.symm ▸ hplanned),
    Prod.mk.injEq] at hcommit
  obtain ⟨hps, rfl⟩ := hcommit
  rcases hpub with ⟨-, hpub⟩ | ⟨-, -, -, hnil, -, rfl⟩
  · obtain ⟨houtcome, -, _, -, rfl⟩ := publishAssessment_cases hpub
    refine ⟨hlineage, hsequence, fun q hq => ?_⟩
    rw [houtcome, ← hps] at hq
    obtain ⟨p, hp, rfl⟩ := List.mem_map.mp hq
    exact ⟨rfl, (hplanned p hp).1⟩
  · refine ⟨hlineage, hsequence, fun q hq => ?_⟩
    rw [hnil] at hq
    cases hq

end Surveyed

/-! ## Runs that watch -/

/-- The calls assess, and let time pass. -/
def Watching (cs : List Call) : Prop :=
  ∀ c ∈ cs, c.operation = .assess ∨ ∃ delta, c.operation = .advanceTicks delta

/-- What a lineage store and the members no watching call writes say about the reports to come: all
are refused, or the member sets of the snapshot are settled. -/
structure Watched (base : PartitionRuntime) (store : LineageStore) (a : PartitionAssessment)
    (r : PartitionRuntime) : Prop where
  lineage : r.lineage = store
  options : r.options = base.options
  closed : r.closed = base.closed
  rosterSet : r.rosterSet = base.rosterSet
  stands : (base.closed = true ∨ base.rosterSet = false) ∧ a.partitions = [] ∨
    (base.closed = false ∧ base.rosterSet = true) ∧
      (∀ members ∈ base.currentSnapshot.reportedSets base.limits, store.Settled members) ∧
      a.partitions.map (fun q => (q.members, q.lineage))
        = (base.currentSnapshot.reportedSets base.limits).map fun members =>
            (members, store.lineageOf members)

/-- An assessment reports what the first one did, all of it committed and nothing pending. -/
structure Repeats (a b : PartitionAssessment) : Prop where
  reports : b.partitions.map (fun q => (q.members, q.lineage))
    = a.partitions.map fun q => (q.members, q.lineage)
  committed : ∀ q ∈ b.partitions, q.lifecycle = .committed ∧ q.pendingMergeParents = []

/-- The first assessment. -/
theorem assess_watched {r r' : PartitionRuntime} {a : PartitionAssessment}
    (h : assessLocked false r = (.ok a, r')) (hrooted : r.lineage.Rooted)
    (hdistinct : Distinct r'.lineage a.partitions)
    (hcommitted : ∀ q ∈ a.partitions, q.lifecycle = .committed ∧ q.pendingMergeParents = []) :
    Watched r r'.lineage a r' := by
  have hsame := assessLocked_consulted h
  refine ⟨rfl, hsame.options, hsame.closed, hsame.rosterSet, ?_⟩
  rcases assessLocked_cases h with ⟨hrefused, _, _, -, -, -, ⟨_, ha, hnil⟩ | herror⟩ | ⟨herror, -⟩ |
    ⟨generation, hopen, hset, -, ⟨herror, -⟩ | ⟨_, ha, hs⟩⟩
  · cases ha
    exact .inl ⟨hrefused, hnil⟩
  · cases herror
  · cases herror
  · cases herror
  · cases ha
    have hsettled : ∀ members ∈ r.currentSnapshot.reportedSets r.limits,
        r'.lineage.Settled members ∧ r'.lineage.lineageOf members = r.lineage.lineageOf members := by
      intro members hmembers
      have hmem : (members, r.lineage.lineageOf members)
          ∈ a.partitions.map fun q => (q.members, q.lineage) := by
        rw [hs.reports]
        exact List.mem_map_of_mem hmembers
      obtain ⟨q, hq, heq⟩ := List.mem_map.mp hmem
      obtain ⟨rfl, -⟩ := Prod.mk.inj heq
      obtain ⟨b, hb, hdress⟩ := hs.built hq
      exact (hs.settles hrooted hdistinct hcommitted hq).settled (hdress.classified hb.classified)
    refine .inr ⟨⟨hopen, hset⟩, fun members hmembers => (hsettled members hmembers).1, ?_⟩
    rw [hs.reports]
    exact List.map_congr_left fun members hmembers => by rw [(hsettled members hmembers).2]

/-- **A later assessment**, of the same decomposition and on fresh evidence. -/
theorem Watched.assess {base : PartitionRuntime} {lineage : LineageStore} {a : PartitionAssessment}
    {r r' : PartitionRuntime} (hr : Watched base lineage a r)
    (hsame : SameDecomposition base.currentSnapshot r.currentSnapshot)
    (hfresh : r.currentSnapshot.anyEvidenceFresh = true)
    {res : Except PartitionError PartitionAssessment} (h : assessLocked false r = (res, r')) :
    Watched base lineage a r' ∧ ∀ b, res = .ok b → Repeats a b := by
  have hkept := assessLocked_consulted h
  have hwatched : ∀ store, r'.lineage = store → store = lineage → Watched base lineage a r' := by
    rintro _ hstore rfl
    exact ⟨hstore, hkept.options.trans hr.options, hkept.closed.trans hr.closed,
      hkept.rosterSet.trans hr.rosterSet, hr.stands⟩
  have hlimits : r.limits = base.limits := congrArg RuntimeOptions.limits hr.options
  have hsets : r.currentSnapshot.reportedSets r.limits
      = base.currentSnapshot.reportedSets base.limits := by
    rw [hsame.reportedSets, hlimits]
  rcases assessLocked_cases h with ⟨hrefused, s, _, hq, rfl, -, hnil⟩ | ⟨rfl, rfl⟩ |
    ⟨generation, hopen, hset, -, ⟨rfl, hq⟩ | ⟨outcome, rfl, hs⟩⟩
  · have hlineage : s.lineage = r.lineage := by
      obtain ⟨_, _, _, _, _, -, rfl⟩ := hq
      rfl
    refine ⟨hwatched _ hlineage hr.lineage, fun b hb => ?_⟩
    rcases hnil with ⟨_, hok, hbnil⟩ | herror
    · obtain rfl := Except.ok.inj (hb.symm.trans hok)
      rcases hr.stands with ⟨-, hanil⟩ | ⟨⟨hopen, hset⟩, -⟩
      · exact ⟨by rw [hbnil, hanil], fun q hq => by rw [hbnil] at hq; cases hq⟩
      · rw [hr.closed, hr.rosterSet, hopen, hset] at hrefused
        simp at hrefused
    · rw [hb] at herror
      cases herror
  · exact ⟨hwatched _ rfl hr.lineage, fun b hb => by cases hb⟩
  · have hlineage : r'.lineage = r.lineage := by
      obtain ⟨_, _, _, _, _, -, rfl⟩ := hq
      rfl
    exact ⟨hwatched _ hlineage hr.lineage, fun b hb => by cases hb⟩
  · rcases hr.stands with ⟨hrefused, -⟩ | ⟨-, hsettled, hreports⟩
    · rw [← hr.closed, ← hr.rosterSet, hopen, hset] at hrefused
      simp at hrefused
    · obtain ⟨hlineage, -, hcommitted⟩ := hs.repeats hfresh (by rw [hsets, hr.lineage]; exact hsettled)
      refine ⟨hwatched _ hlineage hr.lineage, fun b hb => ?_⟩
      obtain rfl := Except.ok.inj hb
      refine ⟨?_, hcommitted⟩
      rw [hreports, hs.reports, hsets, hr.lineage]

theorem Watched.call {base : PartitionRuntime} {lineage : LineageStore} {a : PartitionAssessment}
    {r : PartitionRuntime} (hr : Watched base lineage a r) {c : Call}
    (hc : c.operation = .assess ∨ ∃ delta, c.operation = .advanceTicks delta)
    (hsame : c.operation = .assess → SameDecomposition base.currentSnapshot r.currentSnapshot ∧
      r.currentSnapshot.anyEvidenceFresh = true) :
    Watched base lineage a (r.call c).2 ∧
      ∀ b, (r.call c).1 = .assessment b → Repeats a b := by
  have hfaults : Watched base lineage a (r.withFaults c.faults) :=
    ⟨hr.lineage, hr.options, hr.closed, hr.rosterSet, hr.stands⟩
  rw [PartitionRuntime.call]
  rcases hc with hassess | ⟨delta, hticks⟩
  · obtain ⟨hdecomposition, hfresh⟩ := hsame hassess
    rw [hassess, perform, respond_snd]
    obtain ⟨hafter, hrepeats⟩ := hfaults.assess hdecomposition hfresh
      (Prod.eta (assessLocked false (r.withFaults c.faults))).symm
    refine ⟨hafter, fun b hb => hrepeats b ?_⟩
    exact congrArg Prod.fst (respond_ok (fun _ _ h => by cases h; rfl) (fun _ _ h => by cases h) hb)
  · rw [hticks, perform]
    refine ⟨?_, fun b hb => by cases hb⟩
    rcases advanceTicks_cases (Prod.eta (advanceTicks delta (r.withFaults c.faults))).symm with
      h | ⟨tick, h⟩
    · rw [h]
      exact hfaults
    · rw [h]
      exact ⟨hfaults.lineage, hfaults.options, hfaults.closed, hfaults.rosterSet, hfaults.stands⟩

/-- **Repeated assessments report the same**: on a lineage store the runtime has grown. -/
theorem Watched.trace {base : PartitionRuntime} {lineage : LineageStore} {a : PartitionAssessment}
    {cs : List Call} (hwatching : Watching cs) {r : PartitionRuntime} (hr : Watched base lineage a r)
    (hsame : ∀ s ∈ r.trace cs, s.call.operation = .assess →
      SameDecomposition base.currentSnapshot s.before.currentSnapshot ∧
        s.before.currentSnapshot.anyEvidenceFresh = true) :
    ∀ s ∈ r.trace cs, s.after.lineage = lineage ∧ ∀ b, s.response = .assessment b → Repeats a b := by
  induction cs generalizing r with
  | nil =>
    intro s hs
    cases hs
  | cons c cs ih =>
    obtain ⟨hafter, hrepeats⟩ := hr.call (hwatching c List.mem_cons_self)
      (hsame ⟨r, c, (r.call c).1, (r.call c).2⟩ List.mem_cons_self)
    intro s hs
    rcases List.mem_cons.mp hs with rfl | hs
    · exact ⟨hafter.lineage, hrepeats⟩
    · exact ih (fun d hd => hwatching d (List.mem_cons_of_mem _ hd)) hafter
        (fun t ht => hsame t (List.mem_cons_of_mem _ ht)) s hs

end PartitionRuntime

end FabricPartition
