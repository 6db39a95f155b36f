import FabricPartition.Run

/-!
# Descent

How the lineage of a component set follows from the lineage store, and what an assessment makes of the
store it classifies against.

* `LineagePreimage` — what an identity is derived from.  Digests may collide; the results that depend
  on their not doing so assume it of the identities that occur (`Distinct`), and of no others.
* `LineageStore.Rooted` — what every store holds that the runtime has grown: the parents of a record
  are recorded, and every lineage is derived from its records.
* `Surveys` — one assessment, as far as the store is concerned.  `Surveys.settles` is the main lemma:
  an assessment that commits every partition leaves a store that gives the same component sets the
  same lineages again.
-/

set_option autoImplicit false

namespace FabricPartition

/-! ## Preimages -/

/-- What the identity of a lineage is derived from. -/
structure LineagePreimage where
  domain : String
  left : LineageId
  right : LineageId
  membership : MembershipDigest

/-- The identity. -/
def LineagePreimage.id (x : LineagePreimage) : LineageId :=
  deriveLineageId x.domain x.left x.right x.membership

/-- The record establishes its lineage, as the identity of a preimage. -/
def LineageRecord.Establishes (record : LineageRecord) (x : LineagePreimage) : Prop :=
  record.lineage = x.id ∧
    (record.event = .genesis ∧ x = ⟨"genesis", .nil, .nil, record.membership⟩ ∨
      record.event = .split ∧ record.parentLeft ≠ .nil ∧
        (x = ⟨"split", record.parentLeft, .nil, record.membership⟩ ∨
          x = ⟨"divergent", record.parentLeft, .nil, record.membership⟩) ∨
      record.event = .merge ∧ x = ⟨"merge", record.parentLeft, record.parentRight, default⟩)

/-- The domains of the lineages that are recorded. -/
def recordedDomains : List String := ["genesis", "split", "divergent", "merge"]

/-- The preimages made of what a store and some partitions hold. -/
def Occurs (store : LineageStore) (ps : List Partition) (x : LineagePreimage) : Prop :=
  x.domain ∈ recordedDomains ∧
    (x.left = .nil ∨ ∃ record ∈ store.records, record.lineage = x.left) ∧
    (x.right = .nil ∨ ∃ record ∈ store.records, record.lineage = x.right) ∧
    (x.membership = default ∨ (∃ record ∈ store.records, record.membership = x.membership) ∨
      ∃ p ∈ ps, p.membership = x.membership)

/-- The member lists that a store and some partitions hold. -/
def Listed (store : LineageStore) (ps : List Partition) (members : List ComponentId) : Prop :=
  (∃ record ∈ store.records, record.members = members) ∨ ∃ p ∈ ps, p.members = members

/-- **Distinct preimages have distinct digests**, among those that occur. -/
structure Distinct (store : LineageStore) (ps : List Partition) : Prop where
  lineage : ∀ x y, Occurs store ps x → Occurs store ps y → x.id = y.id → x = y
  membership : ∀ xs ys, Listed store ps xs → Listed store ps ys →
    computeMembershipDigest xs = computeMembershipDigest ys → xs = ys

/-- The assumption is about memberships, not about what else a partition holds. -/
theorem Distinct.of_subset {store : LineageStore} {ps qs : List Partition} (h : Distinct store qs)
    (hsub : ∀ p ∈ ps, ∃ q ∈ qs, q.membership = p.membership ∧ q.members = p.members) :
    Distinct store ps := by
  have hoccurs : ∀ x, Occurs store ps x → Occurs store qs x := by
    rintro x ⟨hdomain, hleft, hright, hmembership⟩
    refine ⟨hdomain, hleft, hright, hmembership.imp_right (Or.imp_right ?_)⟩
    rintro ⟨p, hp, hx⟩
    obtain ⟨q, hq, hsame, -⟩ := hsub p hp
    exact ⟨q, hq, hsame.trans hx⟩
  have hlisted : ∀ members, Listed store ps members → Listed store qs members := by
    refine fun members => Or.imp_right ?_
    rintro ⟨p, hp, hx⟩
    obtain ⟨q, hq, -, hsame⟩ := hsub p hp
    exact ⟨q, hq, hsame.trans hx⟩
  exact ⟨fun x y hx hy => h.lineage x y (hoccurs x hx) (hoccurs y hy),
    fun xs ys hxs hys => h.membership xs ys (hlisted xs hxs) (hlisted ys hys)⟩

/-! ## Stores the runtime has grown -/

namespace LineageStore

/-- The lineage of the record is established by some record of the store. -/
def Established (store : LineageStore) (record : LineageRecord) : Prop :=
  ∃ origin ∈ store.records, (∃ x, origin.Establishes x) ∧ origin.lineage = record.lineage ∧
    origin.membership = record.membership

/-- What every store holds that the runtime has grown. -/
structure Rooted (store : LineageStore) : Prop where
  named : ∀ record ∈ store.records, record.lineage ≠ .nil
  parents : ∀ record ∈ store.records, ∀ l, record.Names l → l ≠ .nil →
    ∃ parent ∈ store.records, parent.lineage = l
  members : ∀ record ∈ store.records,
    record.members ≠ [] ∧ record.membership = computeMembershipDigest record.members
  established : ∀ record ∈ store.records, store.Established record

theorem Rooted.empty (limits : Limits) : Rooted { limits := limits } :=
  ⟨List.forall_mem_nil _, List.forall_mem_nil _, List.forall_mem_nil _, List.forall_mem_nil _⟩

/-- What the checks of `append` say about the record. -/
structure Sound (store : LineageStore) (record : LineageRecord) : Prop where
  named : record.lineage ≠ .nil
  parents : ∀ l, record.Names l → l ≠ .nil → ∃ parent ∈ store.records, parent.lineage = l
  members : record.members ≠ [] ∧ record.membership = computeMembershipDigest record.members

theorem parentsAdmitted_names {store : LineageStore} {record : LineageRecord}
    (h : store.parentsAdmitted record = true) {l : LineageId} (hnames : record.Names l)
    (hl : l ≠ .nil) : store.contains l = true := by
  have hnil : ∀ {k : LineageId}, k.isNil = true → k = l → False := fun hk hkl =>
    hl (hkl ▸ TextId.isNil_iff.mp hk)
  rw [parentsAdmitted] at h
  split at h
  · rw [Bool.and_eq_true] at h
    rcases hnames with hleft | hright
    · exact (hnil h.1 hleft).elim
    · exact (hnil h.2 hright).elim
  · rw [Bool.and_eq_true, Bool.and_eq_true, Bool.and_eq_true, Bool.or_eq_true] at h
    obtain ⟨⟨⟨-, hleft⟩, hright⟩, -⟩ := h
    rcases hnames with rfl | rfl
    · exact hleft
    · exact hright.resolve_left fun hk => hnil hk rfl

theorem admits_sound {store : LineageStore} {record : LineageRecord}
    (h : store.admits record = true) : store.Sound record := by
  rw [admits] at h
  simp only [Bool.and_eq_true, decide_eq_true_eq, Bool.not_eq_true', beq_iff_eq] at h
  obtain ⟨⟨⟨⟨⟨⟨⟨⟨⟨⟨-, hlineage⟩, -⟩, -⟩, -⟩, hparents⟩, hmembers⟩, -⟩, -⟩, hdigest⟩, -⟩ := h
  refine ⟨fun hnil => ?_, fun l hnames hl => ?_, fun hnil => ?_, hdigest.symm⟩
  · rw [TextId.isNil_iff.mpr hnil] at hlineage
    cases hlineage
  · exact contains_iff.mp (parentsAdmitted_names hparents hnames hl)
  · rw [hnil] at hmembers
    cases hmembers

theorem records_push (store : LineageStore) (record : LineageRecord) :
    (store.push record).records
      = store.records ++ [{ record with digest := computeLineageDigest record }] := rfl

theorem mem_push {store : LineageStore} {record origin : LineageRecord} :
    origin ∈ (store.push record).records ↔
      origin ∈ store.records ∨ origin = { record with digest := computeLineageDigest record } := by
  rw [records_push, List.mem_append, List.mem_singleton]

/-- A record that the store takes, and that establishes its lineage or is of one the store has. -/
def Continues (store : LineageStore) (record : LineageRecord) : Prop :=
  (∃ x, record.Establishes x) ∨ store.Established record

theorem Rooted.push {store : LineageStore} (h : store.Rooted) {record : LineageRecord}
    (hadmits : store.admits record = true) (hcontinues : store.Continues record) :
    (store.push record).Rooted := by
  have hsound := admits_sound hadmits
  have hlater : ∀ {origin : LineageRecord}, store.Established origin →
      (store.push record).Established origin := fun ⟨o, ho, hrest⟩ =>
    ⟨o, mem_push.mpr (.inl ho), hrest⟩
  refine ⟨fun origin ho => ?_, fun origin ho l hnames hl => ?_, fun origin ho => ?_, fun origin ho => ?_⟩
  · rcases mem_push.mp ho with ho | rfl
    · exact h.named origin ho
    · exact hsound.named
  · have hparent : ∃ parent ∈ store.records, parent.lineage = l := by
      rcases mem_push.mp ho with ho | rfl
      · exact h.parents origin ho l hnames hl
      · exact hsound.parents l hnames hl
    obtain ⟨parent, hmem, heq⟩ := hparent
    exact ⟨parent, mem_push.mpr (.inl hmem), heq⟩
  · rcases mem_push.mp ho with ho | rfl
    · exact h.members origin ho
    · exact hsound.members
  · rcases mem_push.mp ho with ho | rfl
    · exact hlater (h.established origin ho)
    · rcases hcontinues with ⟨x, hx⟩ | hestablished
      · exact ⟨_, mem_push.mpr (.inr rfl), ⟨x, hx⟩, rfl, rfl⟩
      · exact hlater hestablished

/-- A grown store has the records it had. -/
theorem Grows.subset {allowed : LineageRecord → Prop} {s t : LineageStore} (h : Grows allowed s t) :
    s.records ⊆ t.records := by
  induction h with
  | refl => exact fun _ hr => hr
  | push _ _ _ ih => exact fun r hr => mem_push.mpr (.inl (ih hr))

/-- A record of a grown store is an old one, or was allowed. -/
theorem Grows.mem {allowed : LineageRecord → Prop} {s t : LineageStore} (h : Grows allowed s t)
    {r : LineageRecord} (hr : r ∈ t.records) :
    r ∈ s.records ∨ ∃ record, allowed record ∧
      r = { record with digest := computeLineageDigest record } := by
  induction h with
  | refl => exact .inl hr
  | push _ _ ha ih =>
    rcases mem_push.mp hr with hr | rfl
    · exact ih hr
    · exact .inr ⟨_, ha, rfl⟩

/-- The latest record of a lineage of a grown store is the one it was, or was allowed. -/
theorem Grows.latest_cases {allowed : LineageRecord → Prop} {s t : LineageStore}
    (h : Grows allowed s t) (l : LineageId) :
    t.latest l = s.latest l ∨ ∃ record, allowed record ∧ record.lineage = l ∧
      t.latest l = some { record with digest := computeLineageDigest record } := by
  induction h with
  | refl => exact .inl rfl
  | push _ _ ha ih =>
    rename_i record _ _
    rw [latest_push]
    by_cases hl : record.lineage = l
    · rw [if_pos hl]
      exact .inr ⟨record, ha, hl, rfl⟩
    · rw [if_neg hl]
      exact ih

theorem Established.mono {s t : LineageStore} (hsub : s.records ⊆ t.records) {record : LineageRecord}
    (h : s.Established record) : t.Established record := by
  obtain ⟨origin, ho, hrest⟩ := h
  exact ⟨origin, hsub ho, hrest⟩

theorem Rooted.grow {allowed : LineageRecord → Prop} {s t : LineageStore} (h : s.Rooted)
    (hgrows : Grows allowed s t) (hcontinues : ∀ record, allowed record → s.Continues record) :
    t.Rooted := by
  induction hgrows with
  | refl => exact h
  | push hfront hadmits ha ih =>
    exact ih.push hadmits ((hcontinues _ ha).imp_right fun he => he.mono hfront.subset)

end LineageStore

/-! ## Classification -/

/-- The partition has the lineage its members are given against a store. -/
structure Partition.ClassifiedBy (store : LineageStore) (p : Partition) : Prop where
  membership : p.membership = computeMembershipDigest p.members
  lineage : p.lineage = (classifyLineage store p.members p.membership).lineage
  parent : p.parentLineage = (classifyLineage store p.members p.membership).parentLineage
  pending : p.pendingMergeParents
    = (classifyLineage store p.members p.membership).pendingMergeParents

theorem Built.classified {snapshot : ReachabilitySnapshot} {generation : PartitionGeneration}
    {store : LineageStore} {limits : Limits} {p : Partition}
    (h : Built snapshot generation store limits p) : p.ClassifiedBy store :=
  ⟨h.membership_eq, h.lineage_eq, h.parent_eq, h.pending_eq⟩

theorem Partition.Dresses.classified {p q : Partition} (h : p.Dresses q) {store : LineageStore}
    (hp : p.ClassifiedBy store) : q.ClassifiedBy store := by
  obtain ⟨_, _, _, _, _, rfl⟩ := h
  exact ⟨hp.membership, hp.lineage, hp.parent, hp.pending⟩

/-- The preimage of a lineage that is not inherited. -/
structure Partition.DerivedFrom (p : Partition) (x : LineagePreimage) : Prop where
  id : p.lineage = x.id
  domain : x.domain = "genesis" ∨ x.domain = "split" ∨ x.domain = "divergent"
  left : x.left = p.parentLineage
  right : x.right = .nil
  membership : x.membership = p.membership

/-- The three ways a partition without pending parents comes by its lineage. -/
inductive Partition.Origin (store : LineageStore) (p : Partition) : Prop
  | genesis (hmeets : intersecting store p.members = []) (hparent : p.parentLineage = .nil)
      (hderived : p.DerivedFrom ⟨"genesis", .nil, .nil, p.membership⟩)
  | inherit {record : LineageRecord} (hmeets : intersecting store p.members = [p.lineage])
      (hparent : p.parentLineage = .nil) (hlatest : store.latest p.lineage = some record)
      (hsame : record.membership = p.membership)
  | descend {record : LineageRecord} {domain : String}
      (hmeets : intersecting store p.members = [p.parentLineage])
      (hlatest : store.latest p.parentLineage = some record)
      (hother : record.membership ≠ p.membership)
      (hdomain : domain = "split" ∨ domain = "divergent")
      (hderived : p.DerivedFrom ⟨domain, p.parentLineage, .nil, p.membership⟩)

/-- **The classification of a partition** without pending parents. -/
theorem Partition.ClassifiedBy.origin {store : LineageStore} {p : Partition}
    (h : p.ClassifiedBy store) (hpending : p.pendingMergeParents = []) : p.Origin store := by
  obtain ⟨-, hlineage, hparent, hpend⟩ := h
  rw [classifyLineage] at hlineage hparent hpend
  rcases hmeets : intersecting store p.members with _ | ⟨l, _ | ⟨k, rest⟩⟩
  · rw [hmeets] at hlineage hparent
    exact .genesis hmeets hparent ⟨hlineage, .inl rfl, hparent.symm, rfl, rfl⟩
  · rw [hmeets] at hlineage hparent
    dsimp only at hlineage hparent
    have hlive : l ∈ intersecting store p.members := by
      rw [hmeets]
      exact List.mem_singleton_self l
    obtain ⟨-, record, hlatest, -⟩ := mem_intersecting.mp hlive
    rw [hlatest] at hlineage hparent
    dsimp only at hlineage hparent
    by_cases hsame : record.membership = p.membership
    · rw [if_pos hsame] at hlineage hparent
      subst hlineage
      exact .inherit hmeets hparent hlatest hsame
    rw [if_neg hsame] at hlineage hparent
    split at hlineage
    · rename_i hincludes
      rw [if_pos hincludes] at hparent
      dsimp only at hlineage hparent
      subst hparent
      exact .descend hmeets hlatest hsame (.inl rfl) ⟨hlineage, .inr (.inl rfl), rfl, rfl, rfl⟩
    · rename_i hincludes
      rw [if_neg hincludes] at hparent
      dsimp only at hlineage hparent
      subst hparent
      exact .descend hmeets hlatest hsame (.inr rfl) ⟨hlineage, .inr (.inr rfl), rfl, rfl, rfl⟩
  · rw [hmeets] at hpend
    rw [hpend] at hpending
    cases hpending

/-- A lineage is inherited, or derived. -/
theorem Partition.Origin.derived {store : LineageStore} {p : Partition} (h : p.Origin store) :
    (∃ record, store.latest p.lineage = some record ∧ record.membership = p.membership) ∨
      ∃ x, p.DerivedFrom x ∧
        (p.parentLineage = .nil ∨ p.parentLineage ∈ intersecting store p.members) := by
  rcases h with ⟨-, hparent, hx⟩ | ⟨-, -, hlatest, hsame⟩ | ⟨hmeets, -, -, -, hx⟩
  · exact .inr ⟨_, hx, .inl hparent⟩
  · exact .inl ⟨_, hlatest, hsame⟩
  · refine .inr ⟨_, hx, .inr ?_⟩
    rw [hmeets]
    exact List.mem_singleton_self _

/-- The parent of a partition is a live lineage it meets. -/
theorem Partition.Origin.parent {store : LineageStore} {p : Partition} (h : p.Origin store) :
    p.parentLineage = .nil ∨ p.parentLineage ∈ intersecting store p.members := by
  rcases h with ⟨-, hparent, -⟩ | ⟨-, hparent, -, -⟩ | ⟨hmeets, -, -, -, -⟩
  · exact .inl hparent
  · exact .inl hparent
  · refine .inr ?_
    rw [hmeets]
    exact List.mem_singleton_self _

/-- The same members have the same lineage. -/
theorem Partition.ClassifiedBy.eq {store : LineageStore} {p q : Partition}
    (hp : p.ClassifiedBy store) (hq : q.ClassifiedBy store) (hmembers : p.members = q.members) :
    p.lineage = q.lineage ∧ p.parentLineage = q.parentLineage := by
  have hmembership : p.membership = q.membership := by
    rw [hp.membership, hq.membership, hmembers]
  rw [hp.lineage, hq.lineage, hp.parent, hq.parent, hmembers, hmembership]
  exact ⟨rfl, rfl⟩

/-- The record an assessment writes for a partition, up to what no classification reads. -/
structure Partition.Records (p : Partition) (record : LineageRecord) : Prop where
  pending : p.pendingMergeParents = []
  lineage : record.lineage = p.lineage
  membership : record.membership = p.membership
  members : record.members = p.members
  event : record.event = if p.parentLineage.isNil then .genesis else .split
  left : record.parentLeft = p.parentLineage
  right : record.parentRight = .nil

theorem Partition.Records.not_retire {p : Partition} {record : LineageRecord} (h : p.Records record) :
    record.event ≠ .retire := by
  rw [h.event]
  split <;> exact nofun

/-- What an assessment records continues the store it classified against, however that has grown. -/
theorem Partition.Records.continues {store later : LineageStore} {p : Partition}
    (hp : p.ClassifiedBy store) (hsub : store.records ⊆ later.records) (hrooted : later.Rooted)
    {record : LineageRecord} (h : p.Records record) : later.Continues record := by
  rcases hp.origin h.pending with ⟨-, hparent, hderived⟩ | ⟨-, -, hlatest, hsame⟩ |
    ⟨hmeets, -, -, hdomain, hderived⟩
  · refine .inl ⟨_, h.lineage.trans hderived.id, .inl ⟨?_, ?_⟩⟩
    · rw [h.event, hparent]
      rfl
    · rw [h.membership]
  · rename_i latest
    obtain ⟨hmem, hlineage⟩ := LineageStore.latest_mem hlatest
    obtain ⟨origin, ho, hx, hol, hom⟩ := hrooted.established latest (hsub hmem)
    exact .inr ⟨origin, ho, hx, (hol.trans hlineage).trans h.lineage.symm,
      (hom.trans hsame).trans h.membership.symm⟩
  · have hlive : p.parentLineage ∈ intersecting store p.members := by
      rw [hmeets]
      exact List.mem_singleton_self _
    obtain ⟨-, latest, hlatest, -⟩ := mem_intersecting.mp hlive
    obtain ⟨hmem, hlineage⟩ := LineageStore.latest_mem hlatest
    have hne : p.parentLineage ≠ .nil := hlineage ▸ hrooted.named latest (hsub hmem)
    refine .inl ⟨_, h.lineage.trans hderived.id, .inr (.inl ⟨?_, ?_, ?_⟩)⟩
    · rw [h.event, if_neg fun hnil => hne (TextId.isNil_iff.mp hnil)]
    · rw [h.left]
      exact hne
    · rw [h.left, h.membership]
      rcases hdomain with rfl | rfl
      · exact .inl rfl
      · exact .inr rfl

/-! ## One assessment -/

/-- An assessment of some partitions, as far as the lineage store is concerned. -/
structure Surveys (store : LineageStore) (ps : List Partition) (store' : LineageStore) : Prop where
  grows : store.Grows (fun record => ∃ p ∈ ps, p.Records record) store'
  classified : ∀ p ∈ ps, p.ClassifiedBy store
  apart : ∀ p ∈ ps, ∀ q ∈ ps, ∀ c, c ∈ p.members → c ∈ q.members → p.members = q.members

/-- The partition was committed in the course of it. -/
def CommittedBy (store : LineageStore) (ps : List Partition) (store' : LineageStore)
    (p : Partition) : Prop :=
  ∃ (mid : LineageStore) (record : LineageRecord),
    store.Grows (fun record => ∃ p ∈ ps, p.Records record) mid ∧
    mid.latest p.lineage = some record ∧ record.membership = p.membership ∧
    mid.Grows (fun record => ∃ p ∈ ps, p.Records record) store'

/-- The store gives the partition the lineage it has, and has its membership on record. -/
structure Settles (store : LineageStore) (p : Partition) : Prop where
  lineage : (classifyLineage store p.members p.membership).lineage = p.lineage
  pending : (classifyLineage store p.members p.membership).pendingMergeParents = []
  recorded : ∃ record, store.latest p.lineage = some record ∧ record.membership = p.membership

theorem Surveys.rooted {store store' : LineageStore} {ps : List Partition}
    (h : Surveys store ps store') (hrooted : store.Rooted) : store'.Rooted :=
  hrooted.grow h.grows fun _ ⟨p, hp, hrecord⟩ =>
    hrecord.continues (h.classified p hp) (fun _ hr => hr) hrooted

/-- What a record establishes its lineage from occurs. -/
theorem Occurs.of_establishes {store : LineageStore} {ps : List Partition} (hrooted : store.Rooted)
    {record : LineageRecord} (hrecord : record ∈ store.records) {x : LineagePreimage}
    (h : record.Establishes x) : Occurs store ps x := by
  have hparent : ∀ l, record.Names l → l = .nil ∨ ∃ r ∈ store.records, r.lineage = l := by
    intro l hl
    by_cases hnil : l = .nil
    · exact .inl hnil
    · exact .inr (hrooted.parents record hrecord l hl hnil)
  obtain ⟨-, ⟨-, rfl⟩ | ⟨-, -, rfl | rfl⟩ | ⟨-, rfl⟩⟩ := h
  · exact ⟨by simp [recordedDomains], .inl rfl, .inl rfl, .inr (.inl ⟨record, hrecord, rfl⟩)⟩
  · exact ⟨by simp [recordedDomains], hparent _ (.inl rfl), .inl rfl,
      .inr (.inl ⟨record, hrecord, rfl⟩)⟩
  · exact ⟨by simp [recordedDomains], hparent _ (.inl rfl), .inl rfl,
      .inr (.inl ⟨record, hrecord, rfl⟩)⟩
  · exact ⟨by simp [recordedDomains], hparent _ (.inl rfl), hparent _ (.inr rfl), .inl rfl⟩

/-- What establishes the lineage of a partition is a record of its membership and its parent. -/
theorem Partition.DerivedFrom.of_establishes {p : Partition} {x : LineagePreimage}
    (h : p.DerivedFrom x) {record : LineageRecord} (hrecord : record.Establishes x) :
    record.membership = p.membership ∧ record.parentLeft = p.parentLineage ∨
      record.event = .genesis ∧ record.membership = p.membership ∧ p.parentLineage = .nil := by
  obtain ⟨-, hdomain, hleft, hright, hmembership⟩ := h
  obtain ⟨-, ⟨hevent, rfl⟩ | ⟨-, -, rfl | rfl⟩ | ⟨-, rfl⟩⟩ := hrecord
  · exact .inr ⟨hevent, hmembership, hleft.symm⟩
  · exact .inl ⟨hmembership, hleft⟩
  · exact .inl ⟨hmembership, hleft⟩
  · simp at hdomain

namespace Surveys

variable {store store' : LineageStore} {ps : List Partition} {p q : Partition} {x : LineagePreimage}

theorem derived_occurs (h : Surveys store ps store') (hp : p ∈ ps) (hx : p.DerivedFrom x)
    (hparent : p.parentLineage = .nil ∨ p.parentLineage ∈ intersecting store p.members) :
    Occurs store' ps x := by
  refine ⟨?_, ?_, .inl hx.right, .inr (.inr ⟨p, hp, hx.membership.symm⟩)⟩
  · rcases hx.domain with hd | hd | hd <;> simp [recordedDomains, hd]
  · rw [hx.left]
    refine hparent.imp_right fun hmeets => ?_
    obtain ⟨-, record, hlatest, -⟩ := mem_intersecting.mp hmeets
    obtain ⟨hmem, hlineage⟩ := LineageStore.latest_mem hlatest
    exact ⟨record, h.grows.subset hmem, hlineage⟩

/-- **A lineage that is not inherited has one membership**: a record of it, in any store on the way,
has the membership of the partition, and descends from the same parent. -/
theorem derived_unique (h : Surveys store ps store') (hrooted : store.Rooted)
    (hdistinct : Distinct store' ps) (hp : p ∈ ps) (hx : p.DerivedFrom x)
    (hparent : p.parentLineage = .nil ∨ p.parentLineage ∈ intersecting store p.members)
    {mid : LineageStore} (hmid : mid.Rooted) (hsub : mid.records ⊆ store'.records)
    {record : LineageRecord} (hrecord : record ∈ mid.records) (hl : record.lineage = p.lineage) :
    record.membership = p.membership ∧
      (p.parentLineage = .nil ∨ ∃ origin ∈ mid.records, origin.parentLeft = p.parentLineage) := by
  obtain ⟨origin, ho, ⟨y, hy⟩, hol, hom⟩ := hmid.established record hrecord
  have hid : y.id = x.id := by rw [← hy.1, hol, hl, hx.id]
  have hyx := hdistinct.lineage y x
    (.of_establishes (h.rooted hrooted) (hsub ho) hy) (h.derived_occurs hp hx hparent) hid
  rw [hyx] at hy
  rcases hx.of_establishes hy with ⟨hmembership, hleft⟩ | ⟨-, hmembership, hnil⟩
  · exact ⟨hom.symm.trans hmembership, .inr ⟨origin, ho, hleft⟩⟩
  · exact ⟨hom.symm.trans hmembership, .inl hnil⟩

/-- A partition that descends from a live lineage has a lineage that was not recorded before. -/
theorem descend_new (h : Surveys store ps store') (hrooted : store.Rooted)
    (hdistinct : Distinct store' ps) (hp : p ∈ ps) (hx : p.DerivedFrom x)
    (hmeets : p.parentLineage ∈ intersecting store p.members) {record : LineageRecord}
    (hrecord : record ∈ store.records) : record.lineage ≠ p.lineage := by
  intro hl
  obtain ⟨hlive, latest, hlatest, -⟩ := mem_intersecting.mp hmeets
  obtain ⟨hmem, hlineage⟩ := LineageStore.latest_mem hlatest
  have hne : p.parentLineage ≠ .nil := hlineage ▸ hrooted.named latest hmem
  obtain ⟨-, hnil | ⟨origin, ho, hleft⟩⟩ := h.derived_unique hrooted hdistinct hp hx (.inr hmeets)
    hrooted h.grows.subset hrecord hl
  · exact hne hnil
  · -- The record of the other child supersedes the parent.
    exact (LineageStore.mem_liveLineages.mp hlive).2
      (LineageStore.mem_superseded.mpr ⟨hne, origin, ho, .inl hleft⟩)

/-- Partitions of one lineage have one membership. -/
theorem lineage_membership (h : Surveys store ps store') (hrooted : store.Rooted)
    (hdistinct : Distinct store' ps) (hpending : ∀ p ∈ ps, p.pendingMergeParents = [])
    (hp : p ∈ ps) (hq : q ∈ ps) (hl : p.lineage = q.lineage) : p.membership = q.membership := by
  rcases ((h.classified p hp).origin (hpending p hp)).derived with
    ⟨record, hlatest, hsame⟩ | ⟨x, hx, hxparent⟩
  · rcases ((h.classified q hq).origin (hpending q hq)).derived with
      ⟨other, hother, hsame'⟩ | ⟨y, hy, hyparent⟩
    · rw [hl, hother] at hlatest
      rw [← hsame, ← hsame', Option.some.inj hlatest]
    · obtain ⟨hmem, hlineage⟩ := LineageStore.latest_mem hlatest
      exact hsame.symm.trans (h.derived_unique hrooted hdistinct hq hy hyparent hrooted
        h.grows.subset hmem (hlineage.trans hl)).1
  · rcases ((h.classified q hq).origin (hpending q hq)).derived with
      ⟨other, hother, hsame⟩ | ⟨y, hy, hyparent⟩
    · obtain ⟨hmem, hlineage⟩ := LineageStore.latest_mem hother
      exact ((h.derived_unique hrooted hdistinct hp hx hxparent hrooted h.grows.subset hmem
        (hlineage.trans hl.symm)).1.symm.trans hsame)
    · have hxy := hdistinct.lineage x y (h.derived_occurs hp hx hxparent)
        (h.derived_occurs hq hy hyparent) (by rw [← hx.id, ← hy.id, hl])
      rw [← hx.membership, ← hy.membership, hxy]

/-- A committed partition has its membership on record at the end. -/
theorem latest_membership (h : Surveys store ps store') (hrooted : store.Rooted)
    (hdistinct : Distinct store' ps) (hpending : ∀ p ∈ ps, p.pendingMergeParents = [])
    (hp : p ∈ ps) (hcommitted : CommittedBy store ps store' p) :
    ∃ record, store'.latest p.lineage = some record ∧ record.membership = p.membership := by
  obtain ⟨mid, record, -, hlatest, hsame, hback⟩ := hcommitted
  rcases hback.latest_cases p.lineage with heq | ⟨later, ⟨q, hq, hrecords⟩, hl, heq⟩
  · exact ⟨record, heq.trans hlatest, hsame⟩
  · refine ⟨_, heq, ?_⟩
    have hlineage : q.lineage = p.lineage := hrecords.lineage.symm.trans hl
    exact hrecords.membership.trans (h.lineage_membership hrooted hdistinct hpending hq hp hlineage)

/-- A record with the membership of a partition has its members. -/
theorem members_of_membership (h : Surveys store ps store') (hrooted : store.Rooted)
    (hdistinct : Distinct store' ps) (hp : p ∈ ps) {record : LineageRecord}
    (hrecord : record ∈ store'.records) (hsame : record.membership = p.membership) :
    record.members = p.members := by
  refine hdistinct.membership _ _ (.inl ⟨record, hrecord, rfl⟩) (.inr ⟨p, hp, rfl⟩) ?_
  rw [← ((h.rooted hrooted).members record hrecord).2, hsame, (h.classified p hp).membership]

/-- The parents that become superseded are those of the partitions. -/
theorem names_cases (h : Surveys store ps store') {record : LineageRecord}
    (hrecord : record ∈ store'.records) {l : LineageId} (hl : l ≠ .nil) (hnames : record.Names l) :
    (∃ old ∈ store.records, old.Names l) ∨ ∃ q ∈ ps, q.pendingMergeParents = [] ∧ q.parentLineage = l := by
  rcases h.grows.mem hrecord with hold | ⟨new, ⟨q, hq, hrecords⟩, rfl⟩
  · exact .inl ⟨record, hold, hnames⟩
  · rcases hnames with hleft | hright
    · exact .inr ⟨q, hq, hrecords.pending, hrecords.left.symm.trans hleft⟩
    · exact absurd (hright.symm.trans hrecords.right) hl

/-- A live lineage that a partition meets afterwards is its own. -/
theorem meets_own (h : Surveys store ps store') (hrooted : store.Rooted)
    (hdistinct : Distinct store' ps) (hpending : ∀ p ∈ ps, p.pendingMergeParents = [])
    (hcommitted : ∀ p ∈ ps, CommittedBy store ps store' p) (hp : p ∈ ps) {l : LineageId}
    (hl : l ∈ intersecting store' p.members) : l = p.lineage := by
  obtain ⟨hlive, record, hlatest, c, hc, hcr⟩ := mem_intersecting.mp hl
  obtain ⟨⟨newest, hnewest, hretire⟩, hsup⟩ := LineageStore.mem_liveLineages.mp hlive
  obtain rfl : newest = record := Option.some.inj (hnewest.symm.trans hlatest)
  rcases h.grows.latest_cases l with heq | ⟨new, ⟨q, hq, hrecords⟩, hnew, heq⟩
  · -- The lineage was live before: the partition met it then, and would have superseded it.
    rw [heq] at hlatest
    obtain ⟨hmem, hlineage⟩ := LineageStore.latest_mem hlatest
    have hne : l ≠ .nil := hlineage ▸ hrooted.named newest hmem
    have hbefore : l ∈ intersecting store p.members := by
      refine mem_intersecting.mpr ⟨LineageStore.mem_liveLineages.mpr ⟨⟨newest, hlatest, hretire⟩,
        fun hold => hsup ?_⟩, newest, hlatest, c, hc, hcr⟩
      obtain ⟨-, old, hold, hnames⟩ := LineageStore.mem_superseded.mp hold
      exact LineageStore.mem_superseded.mpr ⟨hne, old, h.grows.subset hold, hnames⟩
    rcases (h.classified p hp).origin (hpending p hp) with ⟨hmeets, -, -⟩ | ⟨hmeets, -, -, -⟩ |
      ⟨hmeets, -, -, -, hx⟩
    · rw [hmeets] at hbefore
      cases hbefore
    · rw [hmeets] at hbefore
      exact List.mem_singleton.mp hbefore
    · have hparent : p.parentLineage ∈ intersecting store p.members := by
        rw [hmeets]
        exact List.mem_singleton_self _
      rw [hmeets] at hbefore
      obtain rfl := List.mem_singleton.mp hbefore
      obtain ⟨own, hown, -⟩ := h.latest_membership hrooted hdistinct hpending hp (hcommitted p hp)
      obtain ⟨hownmem, hownlineage⟩ := LineageStore.latest_mem hown
      obtain ⟨-, hnil | ⟨origin, ho, hleft⟩⟩ := h.derived_unique hrooted hdistinct hp hx
        (.inr hparent) (h.rooted hrooted) (fun _ hr => hr) hownmem hownlineage
      · exact absurd hnil hne
      · exact absurd (LineageStore.mem_superseded.mpr ⟨hne, origin, ho, .inl hleft⟩) hsup
  · -- It was recorded for a partition with a common member, which is this one.
    rw [heq] at hlatest
    obtain rfl := Option.some.inj hlatest
    have hcq : c ∈ q.members := by
      rw [← hrecords.members]
      exact hcr
    have hmembers := h.apart q hq p hp c hcq hc
    exact hnew.symm.trans (hrecords.lineage.trans
      ((h.classified q hq).eq (h.classified p hp) hmembers).1)

/-- A lineage that a partition inherits is not superseded: what descends from it would meet the
members it stands for, which are those of the partition. -/
theorem inherited_live (h : Surveys store ps store') (hrooted : store.Rooted)
    (hdistinct : Distinct store' ps) (hp : p ∈ ps)
    (hinherit : intersecting store p.members = [p.lineage]) (hparent : p.parentLineage = .nil)
    {latest : LineageRecord} (hlatest : store.latest p.lineage = some latest)
    (hsame : latest.membership = p.membership) : p.lineage ∉ store'.superseded := by
  intro hsup
  obtain ⟨hne, record, hrecord, hnames⟩ := LineageStore.mem_superseded.mp hsup
  have hmeets : p.lineage ∈ intersecting store p.members := by
    rw [hinherit]
    exact List.mem_singleton_self _
  rcases h.names_cases hrecord hne hnames with ⟨old, hold, hnames⟩ | ⟨q, hq, hqpending, hqparent⟩
  · exact (LineageStore.mem_liveLineages.mp (mem_intersecting.mp hmeets).1).2
      (LineageStore.mem_superseded.mpr ⟨hne, old, hold, hnames⟩)
  · rcases ((h.classified q hq).origin hqpending).parent with hnil | hqmeets
    · exact hne (hqparent.symm.trans hnil)
    · obtain ⟨-, r, hr, d, hd, hdr⟩ := mem_intersecting.mp hqmeets
      rw [hqparent, hlatest] at hr
      obtain rfl := Option.some.inj hr
      obtain ⟨hrmem, -⟩ := LineageStore.latest_mem hlatest
      have hrmembers := h.members_of_membership hrooted hdistinct hp (h.grows.subset hrmem) hsame
      have hqp := h.apart q hq p hp d hd (hrmembers ▸ hdr)
      obtain ⟨-, hparents⟩ := (h.classified q hq).eq (h.classified p hp) hqp
      exact hne (hqparent.symm.trans (hparents.trans hparent))

/-- A lineage that was not recorded before is not superseded: parents are recorded, and live. -/
theorem new_live (h : Surveys store ps store') (hrooted : store.Rooted)
    {l : LineageId} (hfresh : ∀ r ∈ store.records, r.lineage ≠ l) : l ∉ store'.superseded := by
  intro hsup
  obtain ⟨hne, record, hrecord, hnames⟩ := LineageStore.mem_superseded.mp hsup
  rcases h.names_cases hrecord hne hnames with ⟨old, hold, hnames⟩ | ⟨q, hq, hqpending, hqparent⟩
  · obtain ⟨parent, hparent, hpl⟩ := hrooted.parents old hold l hnames hne
    exact hfresh parent hparent hpl
  · rcases ((h.classified q hq).origin hqpending).parent with hnil | hqmeets
    · exact hne (hqparent.symm.trans hnil)
    · obtain ⟨-, r, hr, -⟩ := mem_intersecting.mp hqmeets
      obtain ⟨hrmem, hrlineage⟩ := LineageStore.latest_mem hr
      exact hfresh r hrmem (hrlineage.trans hqparent)

/-- A partition that met a live lineage has its own lineage live afterwards. -/
theorem meets_lineage (h : Surveys store ps store') (hrooted : store.Rooted)
    (hdistinct : Distinct store' ps) (hpending : ∀ p ∈ ps, p.pendingMergeParents = [])
    (hcommitted : ∀ p ∈ ps, CommittedBy store ps store' p) (hp : p ∈ ps)
    (hmeets : intersecting store p.members ≠ []) : p.lineage ∈ intersecting store' p.members := by
  obtain ⟨own, hown, hsame⟩ := h.latest_membership hrooted hdistinct hpending hp (hcommitted p hp)
  obtain ⟨hownmem, hownlineage⟩ := LineageStore.latest_mem hown
  have hmembers := h.members_of_membership hrooted hdistinct hp hownmem hsame
  obtain ⟨c, hc⟩ := List.exists_mem_of_ne_nil _ ((h.rooted hrooted).members own hownmem).1
  have hlive : own.event ≠ .retire ∧ p.lineage ∉ store'.superseded := by
    rcases (h.classified p hp).origin (hpending p hp) with ⟨hnone, -, -⟩ |
      ⟨hinherit, hparent, hlatest, hold⟩ | ⟨hdescend, -, -, -, hx⟩
    · exact absurd hnone hmeets
    · refine ⟨?_, h.inherited_live hrooted hdistinct hp hinherit hparent hlatest hold⟩
      have hbefore : p.lineage ∈ store.liveLineages := (mem_intersecting.mp (by
        rw [hinherit]
        exact List.mem_singleton_self _)).1
      obtain ⟨⟨newest, hnewest, hretire⟩, -⟩ := LineageStore.mem_liveLineages.mp hbefore
      rcases h.grows.latest_cases p.lineage with heq | ⟨record, ⟨q, -, hrecords⟩, -, heq⟩
      · rw [hown, hnewest] at heq
        rw [Option.some.inj heq]
        exact hretire
      · rw [hown] at heq
        rw [Option.some.inj heq]
        exact hrecords.not_retire
    · have hfresh : ∀ r ∈ store.records, r.lineage ≠ p.lineage := fun r hr =>
        h.descend_new hrooted hdistinct hp hx (by
          rw [hdescend]
          exact List.mem_singleton_self _) hr
      refine ⟨?_, h.new_live hrooted hfresh⟩
      rcases h.grows.mem hownmem with hold | ⟨record, ⟨q, -, hrecords⟩, heq⟩
      · exact absurd hownlineage (hfresh own hold)
      · rw [heq]
        exact hrecords.not_retire
  rw [mem_intersecting, LineageStore.mem_liveLineages]
  exact ⟨⟨⟨own, hown, hlive.1⟩, hlive.2⟩, own, hown, c, hmembers ▸ hc, hc⟩

/-- **An assessment that commits every partition settles them all**: against the store it leaves, the
same component sets have the same lineages, and nothing is left to record. -/
theorem settles (h : Surveys store ps store') (hrooted : store.Rooted)
    (hdistinct : Distinct store' ps) (hpending : ∀ p ∈ ps, p.pendingMergeParents = [])
    (hcommitted : ∀ p ∈ ps, CommittedBy store ps store' p) (hp : p ∈ ps) :
    Settles store' p := by
  obtain ⟨own, hown, hsame⟩ := h.latest_membership hrooted hdistinct hpending hp (hcommitted p hp)
  have hsub : ∀ l ∈ intersecting store' p.members, l = p.lineage :=
    fun l hl => h.meets_own hrooted hdistinct hpending hcommitted hp hl
  rcases hmeets : intersecting store' p.members with _ | ⟨l, _ | ⟨k, rest⟩⟩
  · -- Nothing live is met: the lineage is the genesis lineage of a membership that is on record.
    have hgenesis : p.lineage = genesisLineageId p.membership := by
      rcases (h.classified p hp).origin (hpending p hp) with ⟨-, -, hx⟩ | ⟨hold, -, -, -⟩ |
        ⟨hold, -, -, -, -⟩
      · exact hx.id
      all_goals
        have hown := h.meets_lineage hrooted hdistinct hpending hcommitted hp (by rw [hold]; simp)
        rw [hmeets] at hown
        cases hown
    refine ⟨?_, ?_, own, hown, hsame⟩
    all_goals rw [classifyLineage, hmeets]
    exact hgenesis.symm
  · obtain rfl := hsub l (by rw [hmeets]; exact List.mem_singleton_self l)
    refine ⟨?_, ?_, own, hown, hsame⟩
    all_goals
      rw [classifyLineage, hmeets]
      dsimp only
      rw [hown]
      dsimp only
      rw [if_pos hsame]
  · have hnodup := intersecting_nodup store' p.members
    have hl := hsub l (by rw [hmeets]; simp)
    have hk := hsub k (by rw [hmeets]; simp)
    rw [hmeets, List.nodup_cons, hl, hk] at hnodup
    exact absurd List.mem_cons_self hnodup.1

end Surveys

end FabricPartition
