import FabricPartition.Ancestry

/-!
# Histories of the lineage store

A lineage store is what its calls of `append` have left, accepted and refused ones alike.  This module
is about every such history:

* `represented` — the indexes, the counters and the ancestry graph agree with the records, and the
  walks over them end;
* `retirementTerminal_iff` — a retirement is not terminal.  The loop of `append` that looks for an
  earlier retirement leaves at the first record of the lineage, which never is one
  (`Appended.earliest_not_retire`), so a record of a retired lineage is refused by the other checks or
  not at all.
-/

set_option autoImplicit false

namespace FabricPartition

namespace LineageStore

open Exploration

/-! ## Histories -/

/-- A call of `LineageStore::append`: the store it leaves, and what it returns. -/
def offer (store : LineageStore) (record : LineageRecord) : LineageStore × Bool :=
  match store.append record with
  | some store' => (store', true)
  | none => (store, false)

/-- The store that some calls of `append` leave. -/
def offerAll (store : LineageStore) (records : List LineageRecord) : LineageStore :=
  records.foldl (fun store record => (store.offer record).1) store

theorem offer_eq (store : LineageStore) (record : LineageRecord) :
    store.offer record =
      if store.admits record then (store.push record, true) else (store, false) := by
  rw [offer, append]
  by_cases h : store.admits record = true
  · rw [if_pos h, if_pos h]
  · rw [if_neg h, if_neg h]

theorem offer_accepts (store : LineageStore) (record : LineageRecord) :
    (store.offer record).2 = store.admits record := by
  rw [offer_eq]
  split <;> simp_all

/-- **A refused call leaves the store alone.** -/
theorem offer_refused {store : LineageStore} {record : LineageRecord}
    (h : (store.offer record).2 = false) : (store.offer record).1 = store := by
  rw [offer_accepts] at h
  rw [offer_eq, if_neg (by simp [h])]

/-- What calls of `append` leave was built by the accepted ones. -/
theorem offerAll_appended (limits : Limits) (records : List LineageRecord) :
    (({ limits := limits } : LineageStore).offerAll records).Appended := by
  suffices h : ∀ store : LineageStore, store.Appended → (store.offerAll records).Appended from
    h _ ⟨limits, .refl⟩
  induction records with
  | nil => exact fun store h => h
  | cons record rest ih =>
    intro store h
    refine ih (store.offer record).1 ?_
    rw [offer_eq]
    split
    · rename_i hadmits
      obtain ⟨limits, hgrows⟩ := h
      exact ⟨limits, .push hgrows hadmits trivial⟩
    · exact h

/-! ## What the checks say -/

theorem mem_generations {store : LineageStore} {record : LineageRecord} :
    store.knownGeneration record = true ↔
      ∃ r ∈ store.records, r.lineage = record.lineage ∧ r.generation = record.generation := by
  rw [knownGeneration, List.contains_iff_mem, store.indexed.generations]
  refine exists_congr fun r => and_congr_right fun _ => ?_
  rw [Prod.mk.injEq]
  refine and_congr_right fun _ => ⟨fun h => ?_, fun h => by rw [h]⟩
  exact congrArg Counter.mk h

/-- The checks of `append` but the one of the event, in their order. -/
def otherChecks (store : LineageStore) (record : LineageRecord) : Bool :=
  decide (store.records.length < store.limits.maxLineageRecords)
    && !record.lineage.isNil && !record.sequence.isZero
    && (store.records.isEmpty || decide (store.highestSequence.value < record.sequence.value))
    && store.parentsAdmitted record
    && !record.members.isEmpty && decide (record.members.length ≤ store.limits.maxComponents)
    && membersOrdered record.members
    && (computeMembershipDigest record.members == record.membership)
    && ((checkedSizeAdd store.retainedMemberEntries record.members.length).any fun total =>
        decide (total ≤ store.limits.maxLineageMemberEntries))

theorem admits_eq (store : LineageStore) (record : LineageRecord) :
    store.admits record = (store.otherChecks record && store.eventAdmitted record) := by
  rw [admits, otherChecks, Bool.eq_iff_iff]
  simp only [Bool.and_eq_true]
  tauto

theorem admits_event {store : LineageStore} {record : LineageRecord}
    (h : store.admits record = true) : store.eventAdmitted record = true := by
  rw [admits_eq, Bool.and_eq_true] at h
  exact h.2

theorem admits_sequence {store : LineageStore} {record : LineageRecord}
    (h : store.admits record = true) :
    store.records = [] ∨ store.highestSequence.value < record.sequence.value := by
  rw [admits_eq, Bool.and_eq_true, otherChecks] at h
  simp only [Bool.and_eq_true, Bool.or_eq_true, List.isEmpty_iff, decide_eq_true_eq] at h
  exact h.1.1.1.1.1.1.1.2

/-- A retirement names a generation of its lineage that is recorded. -/
theorem eventAdmitted_retire {store : LineageStore} {record : LineageRecord}
    (h : store.eventAdmitted record = true) (hretire : record.event = .retire) :
    store.knownGeneration record = true := by
  rw [eventAdmitted, if_pos hretire, Bool.and_eq_true] at h
  exact h.1

/-- Every other event introduces a generation that is not. -/
theorem eventAdmitted_other {store : LineageStore} {record : LineageRecord}
    (h : store.eventAdmitted record = true) (hretire : record.event ≠ .retire) :
    store.knownGeneration record = false := by
  rwa [eventAdmitted, if_neg hretire, Bool.not_eq_true'] at h

/-! ## The representation -/

/-- The loop of `collect_ancestors`, with no bound on its turns. -/
inductive Walks (store : LineageStore) (limits : Limits) :
    List (LineageId × Nat) → AncestryWalk → AncestryWalk → Prop
  | done (walk : AncestryWalk) : Walks store limits [] walk walk
  | again {lineage : LineageId} {depth : Nat} {frontier : List (LineageId × Nat)}
      {walk result : AncestryWalk} (hvisited : lineage ∈ walk.visited)
      (h : Walks store limits frontier walk result) :
      Walks store limits ((lineage, depth) :: frontier) walk result
  | cut {lineage : LineageId} {depth : Nat} {frontier : List (LineageId × Nat)}
      {walk : AncestryWalk} (hnew : lineage ∉ walk.visited)
      (hbudget : walk.visited.length ≥ limits.maxLineageWalkNodes ∨
        depth > limits.maxLineageWalkDepth) :
      Walks store limits ((lineage, depth) :: frontier) walk { walk with truncated := true }
  | visit {lineage : LineageId} {depth : Nat} {frontier : List (LineageId × Nat)}
      {walk result : AncestryWalk} (hnew : lineage ∉ walk.visited)
      (hbudget : ¬ (walk.visited.length ≥ limits.maxLineageWalkNodes ∨
        depth > limits.maxLineageWalkDepth))
      (h : Walks store limits
        (match store.earliest lineage with
          | none => frontier
          | some record => sortFrontier (frontier ++ parentsAt record (depth + 1)))
        { walk with visited := walk.visited ++ [lineage] } result) :
      Walks store limits ((lineage, depth) :: frontier) walk result

/-- The call of `collect_ancestors` ends in a walk. -/
inductive Collects (store : LineageStore) (limits : Limits) (start : LineageId) :
    AncestryWalk → Prop
  | unknown (h : store.earliest start = none) : Collects store limits start { truncated := true }
  | walked {first : LineageRecord} {walk : AncestryWalk} (hfirst : store.earliest start = some first)
      (h : Walks store limits (sortFrontier (parentsAt first 1)) {} walk) :
      Collects store limits start walk

/-- **The loop ends**: its turns are bounded by the frontier and the budget of nodes. -/
theorem walkFrontier_walks {store : LineageStore} {limits : Limits} {turns : Nat}
    {frontier : List (LineageId × Nat)} {walk : AncestryWalk}
    (hturns : frontier.length + 2 * (limits.maxLineageWalkNodes - walk.visited.length) < turns) :
    store.Walks limits frontier walk (store.walkFrontier limits turns frontier walk) := by
  induction turns generalizing frontier walk with
  | zero => omega
  | succ turns ih =>
    rcases frontier with _ | ⟨⟨lineage, depth⟩, frontier⟩
    · exact .done walk
    rw [List.length_cons] at hturns
    rw [walkFrontier]
    split
    · rename_i hvisited
      exact .again (by simpa using hvisited) (ih (by omega))
    · rename_i hnew
      have hnew : lineage ∉ walk.visited := by simpa using hnew
      split
      · rename_i hbudget
        exact .cut hnew hbudget
      · rename_i hbudget
        have hroom : walk.visited.length < limits.maxLineageWalkNodes :=
          Nat.lt_of_not_le fun hle => hbudget (.inl hle)
        refine .visit hnew hbudget ?_
        dsimp only
        rcases store.earliest lineage with _ | record
        · refine ih ?_
          dsimp only
          rw [List.length_append, List.length_singleton]
          omega
        · refine ih ?_
          dsimp only
          have hparents := length_parentsAt_le record (depth + 1)
          rw [(sortFrontier_perm _).length_eq, List.length_append, List.length_append,
            List.length_singleton]
          omega

theorem collectAncestors_collects (store : LineageStore) (limits : Limits) (start : LineageId) :
    store.Collects limits start (store.collectAncestors start limits) := by
  rw [collectAncestors]
  rcases hfirst : store.earliest start with _ | first
  · exact .unknown hfirst
  · refine .walked hfirst (walkFrontier_walks ?_)
    have hparents := length_parentsAt_le first 1
    rw [(sortFrontier_perm _).length_eq, List.length_nil]
    omega

theorem contains_eq (store : LineageStore) (l : LineageId) :
    store.contains l = store.records.any fun r => r.lineage == l := by
  rw [Bool.eq_iff_iff, contains_iff, List.any_eq_true]
  simp only [beq_iff_eq]

/-- **A walk that is not cut short** visits every proper ancestor once, and nothing else. -/
theorem collectAncestors_ancestors {store : LineageStore} {limits : Limits} {start : LineageId}
    (hcut : (store.collectAncestors start limits).truncated = false) :
    (store.collectAncestors start limits).visited.Nodup ∧
      ∀ l, l ∈ (store.collectAncestors start limits).visited ↔ store.Ancestor l start := by
  have hstart : store.contains start = true := by
    rw [contains_eq, List.any_eq_true]
    rcases hfirst : store.earliest start with _ | first
    · rw [collectAncestors, hfirst] at hcut
      cases hcut
    · rw [earliest_eq] at hfirst
      have hlineage := List.find?_some hfirst
      exact ⟨first, List.mem_of_find?_eq_some hfirst, hlineage⟩
  obtain ⟨rest, hwalk, hrest⟩ := collectAncestors_rest limits hstart
  rw [hrest hcut] at hwalk
  exact ⟨hwalk.nodup, fun l => hwalk.complete⟩

/-- The records, the indexes and the graph of a store agree. -/
structure Represented (store : LineageStore) : Prop where
  increasing : store.records.Pairwise fun r s => r.sequence.value < s.sequence.value
  contains : ∀ l, store.contains l = store.records.any fun r => r.lineage == l
  latest : ∀ l, store.latest l = store.records.reverse.find? fun r => r.lineage == l
  earliest : ∀ l, store.earliest l = store.records.find? fun r => r.lineage == l
  /-- One record at most introduces a generation of a lineage. -/
  generations : ∀ l g, (store.records.filter fun r =>
    r.lineage = l ∧ r.generation = g ∧ r.event ≠ .retire).length ≤ 1
  retained : store.retainedMemberEntries = (store.records.map fun r => r.members.length).sum
  /-- The parents of a record were recorded before it. -/
  parents : ∀ before record after, store.records = before ++ record :: after →
    ∀ l, record.Names l → l ≠ .nil → ∃ parent ∈ before, parent.lineage = l
  acyclic : ∀ l, ¬ store.Ancestor l l
  refused : ∀ record, (store.offer record).2 = false → (store.offer record).1 = store
  walks : ∀ limits start, store.Collects limits start (store.collectAncestors start limits)
  /-- A walk that is not cut short visits every proper ancestor, once. -/
  ancestors : ∀ limits start, (store.collectAncestors start limits).truncated = false →
    (store.collectAncestors start limits).visited.Nodup ∧
      ∀ l, l ∈ (store.collectAncestors start limits).visited ↔ store.Ancestor l start

/-- Sequences increase, up to the highest one. -/
theorem Appended.increasing {store : LineageStore} (h : store.Appended) :
    (store.records.Pairwise fun r s => r.sequence.value < s.sequence.value) ∧
      ∀ r ∈ store.records, r.sequence.value ≤ store.highestSequence.value := by
  obtain ⟨limits, h⟩ := h
  induction h with
  | refl => exact ⟨.nil, List.forall_mem_nil _⟩
  | @push store record _ hadmits _ ih =>
    have hnext : ∀ r ∈ store.records, r.sequence.value < record.sequence.value := by
      intro r hr
      rcases admits_sequence hadmits with hnone | hlt
      · rw [hnone] at hr
        cases hr
      · exact UInt64.lt_of_le_of_lt (ih.2 r hr) hlt
    refine ⟨?_, fun r hr => ?_⟩
    · rw [records_push, List.pairwise_append]
      refine ⟨ih.1, List.pairwise_singleton _ _, fun r hr s hs => ?_⟩
      rw [List.mem_singleton.mp hs]
      exact hnext r hr
    · rcases mem_push.mp hr with hr | rfl
      · exact UInt64.le_of_lt (hnext r hr)
      · exact UInt64.le_refl _

theorem Appended.generations {store : LineageStore} (h : store.Appended) (l : LineageId)
    (g : PartitionGeneration) : (store.records.filter fun r =>
      r.lineage = l ∧ r.generation = g ∧ r.event ≠ .retire).length ≤ 1 := by
  obtain ⟨limits, h⟩ := h
  induction h with
  | refl => exact Nat.zero_le 1
  | @push store record _ hadmits _ ih =>
    rw [records_push, List.filter_append, List.length_append]
    by_cases hhit : record.lineage = l ∧ record.generation = g ∧ record.event ≠ .retire
    · -- a generation that is introduced was not known
      have hunknown := eventAdmitted_other (admits_event hadmits) hhit.2.2
      have hnone : (store.records.filter fun r =>
          r.lineage = l ∧ r.generation = g ∧ r.event ≠ .retire) = [] := by
        rw [List.filter_eq_nil_iff]
        intro r hr hsame
        rw [decide_eq_true_eq] at hsame
        rw [mem_generations.mpr ⟨r, hr, hsame.1.trans hhit.1.symm,
          hsame.2.1.trans hhit.2.1.symm⟩] at hunknown
        cases hunknown
      rw [hnone, List.length_nil, Nat.zero_add]
      exact List.length_filter_le _ _
    · rw [List.filter_cons_of_neg (by simpa using hhit), List.filter_nil]
      exact ih

theorem Appended.parents_before {store : LineageStore} (h : store.Appended)
    (before : List LineageRecord) (record : LineageRecord) (after : List LineageRecord)
    (hsplit : store.records = before ++ record :: after) (l : LineageId) (hnames : record.Names l)
    (hl : l ≠ .nil) : ∃ parent ∈ before, parent.lineage = l := by
  obtain ⟨limits, h⟩ := h
  induction h generalizing after with
  | refl => simp at hsplit
  | @push store pushed _ hadmits _ ih =>
    rw [records_push] at hsplit
    rcases List.eq_nil_or_concat after with rfl | ⟨after, last, rfl⟩
    · obtain ⟨hbefore, hlast⟩ := List.append_inj' hsplit rfl
      rw [List.cons.injEq] at hlast
      have hpushed : pushed.Names l := by
        rw [← hlast.1] at hnames
        exact hnames
      rw [← hbefore]
      exact (admits_sound hadmits).parents l hpushed hl
    · rw [List.concat_eq_append, ← List.cons_append, ← List.append_assoc] at hsplit
      exact ih after (List.append_inj' hsplit rfl).1

/-- **What every history leaves** is a store whose parts agree. -/
theorem represented (limits : Limits) (records : List LineageRecord) :
    Represented (({ limits := limits } : LineageStore).offerAll records) := by
  have happended := offerAll_appended limits records
  generalize ({ limits := limits } : LineageStore).offerAll records = store at happended
  exact
    { increasing := happended.increasing.1
      contains := store.contains_eq
      latest := store.latest_eq
      earliest := store.earliest_eq
      generations := happended.generations
      retained := store.indexed.retained
      parents := happended.parents_before
      acyclic := fun l hl => Nat.lt_irrefl _ (happended.ancestor_birth_lt hl)
      refused := fun _ => offer_refused
      walks := store.collectAncestors_collects
      ancestors := fun limits start hcut => collectAncestors_ancestors hcut }

/-! ## Retirement -/

/-- A retirement of the lineage is recorded. -/
def Retired (store : LineageStore) (l : LineageId) : Prop :=
  ∃ r ∈ store.records, r.lineage = l ∧ r.event = .retire

instance (store : LineageStore) (l : LineageId) : Decidable (store.Retired l) :=
  inferInstanceAs (Decidable (∃ r ∈ store.records, r.lineage = l ∧ r.event = .retire))

/-- The first record of a lineage is no retirement: it would have to name a recorded generation. -/
theorem Appended.earliest_not_retire {store : LineageStore} (h : store.Appended) {l : LineageId}
    {first : LineageRecord} (hfirst : store.earliest l = some first) : first.event ≠ .retire := by
  obtain ⟨limits, h⟩ := h
  induction h generalizing l first with
  | refl =>
    rw [earliest_eq] at hfirst
    cases hfirst
  | @push store record _ hadmits _ ih =>
    rw [earliest_push] at hfirst
    rcases hold : store.earliest l with _ | old
    · rw [hold, Option.none_or] at hfirst
      split at hfirst
      · rename_i hlineage
        cases hfirst
        intro hretire
        obtain ⟨r, hr, hsame, -⟩ := mem_generations.mp
          (eventAdmitted_retire (admits_event hadmits) hretire)
        rw [earliest_eq, List.find?_eq_none] at hold
        exact hold r hr (beq_iff_eq.mpr (hsame.trans hlineage))
      · cases hfirst
    · rw [hold, Option.some_or] at hfirst
      cases hfirst
      exact ih hold

/-- **The event check never finds a retirement**: it asks a retirement for a known generation, and
every other event for a new one, of a retired lineage as of any other. -/
theorem Appended.eventAdmitted_iff {store : LineageStore} (h : store.Appended)
    (record : LineageRecord) : store.eventAdmitted record = true ↔
      (record.event = .retire ↔ store.knownGeneration record = true) := by
  have hfirst : ((store.records.find? fun r => r.lineage == record.lineage).any
      (·.event == .retire)) = false := by
    rw [← earliest_eq]
    rcases hearliest : store.earliest record.lineage with _ | first
    · rfl
    · exact beq_false_of_ne (h.earliest_not_retire hearliest)
  rw [eventAdmitted, hfirst, Bool.not_false, Bool.and_true]
  by_cases hretire : record.event = .retire
  · rw [if_pos hretire, iff_true_left hretire]
  · rw [if_neg hretire, iff_false_left hretire, Bool.not_eq_true', Bool.not_eq_true]

/-- In the history, no record of a lineage is accepted once the lineage is retired. -/
def RetirementTerminal (limits : Limits) (records : List LineageRecord) : Prop :=
  ∀ before record after, records = before ++ record :: after →
    (({ limits := limits } : LineageStore).offerAll before).Retired record.lineage →
      ((({ limits := limits } : LineageStore).offerAll before).offer record).2 = false

/-- **A retirement is terminal** in a history exactly when every later record of a retired lineage
fails another check: the store is full, the sequence or the members are wrong, a parent is missing, or
the generation is known and the event no retirement, or the other way round. -/
theorem retirementTerminal_iff (limits : Limits) (records : List LineageRecord) :
    RetirementTerminal limits records ↔
      ∀ before record after, records = before ++ record :: after →
        (({ limits := limits } : LineageStore).offerAll before).Retired record.lineage →
          ¬ ((({ limits := limits } : LineageStore).offerAll before).otherChecks record = true ∧
            (record.event = .retire ↔
              (({ limits := limits } : LineageStore).offerAll before).knownGeneration record
                = true)) := by
  refine forall_congr' fun before => forall_congr' fun record => forall_congr' fun after =>
    imp_congr_right fun _ => imp_congr_right fun _ => ?_
  rw [offer_accepts, admits_eq, ← (offerAll_appended limits before).eventAdmitted_iff,
    ← Bool.and_eq_true, Bool.not_eq_true]

theorem not_terminal_of_accepted {limits : Limits} {before : List LineageRecord}
    {record : LineageRecord}
    (h : (({ limits := limits } : LineageStore).offerAll before).Retired record.lineage ∧
      ((({ limits := limits } : LineageStore).offerAll before).offer record).2 = true) :
    ¬ RetirementTerminal limits (before ++ [record]) := by
  intro hterminal
  have hrefused := hterminal before record [] rfl h.1
  rw [h.2] at hrefused
  cases hrefused

/-- The first record of a lineage. -/
def bornRecord : LineageRecord := kinRecord 1 .genesis genesisLineageId .nil .nil ["a", "b"]

/-- The lineage is retired. -/
def retiredRecord : LineageRecord := { bornRecord with sequence := ⟨2⟩, event := .retire }

/-- It is retired once more. -/
def retiredAgain : LineageRecord := { bornRecord with sequence := ⟨3⟩, event := .retire }

/-- Instead, it is continued under a new generation. -/
def resumedRecord : LineageRecord :=
  { bornRecord with
    sequence := ⟨3⟩, generation := ⟨2⟩, event := .revalidate, parentLeft := bornRecord.lineage }

/-- Both are accepted. -/
theorem retirement_not_terminal :
    ¬ RetirementTerminal {} ([bornRecord, retiredRecord] ++ [retiredAgain]) ∧
      ¬ RetirementTerminal {} ([bornRecord, retiredRecord] ++ [resumedRecord]) := by
  refine ⟨not_terminal_of_accepted ?_, not_terminal_of_accepted ?_⟩ <;> decide +kernel

end LineageStore

end FabricPartition
