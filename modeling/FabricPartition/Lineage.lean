import FabricPartition.Lib.Sorted
import FabricPartition.Topology

/-!
# Lineage

`lineage.hpp`: the append-only history of component sets, and the identities derived from it.

The store answers its lookups from two indexes, a slot map and a set of (lineage, generation) pairs.
That the indexes agree with the record list is a field of the store (`Indexed`), which `push` — the
only way to grow it — re-establishes once; so `latest` and `earliest` can be read as scans of the
records (`latest_eq`, `earliest_eq`) everywhere else.

`liveLineages` is what the rest of the program sees of the history.  `mem_liveLineages` says which
lineages are live: recorded, not retired by their latest record, and named as a parent by no record.
-/

set_option autoImplicit false

namespace FabricPartition

/-- What a lineage record reports. -/
inductive LineageEventKind
  | genesis | split | merge | revalidate | retire
  deriving DecidableEq

namespace LineageEventKind

/-- The value of the enumerator. -/
def code : LineageEventKind → UInt8
  | .genesis => 0
  | .split => 1
  | .merge => 2
  | .revalidate => 3
  | .retire => 4

/-- The enumerator with a value, if there is one. -/
def ofCode (v : UInt8) : Option LineageEventKind :=
  [genesis, split, merge, revalidate, retire].find? fun k => k.code == v

@[simp]
theorem ofCode_code (k : LineageEventKind) : ofCode k.code = some k := by
  cases k <;> rfl

end LineageEventKind

/-- The ancestry relation of two lineages. -/
inductive LineageRelation
  | identical | ancestorOf | descendantOf | divergent | unrelated | indeterminate
  deriving DecidableEq

/-- `lineage_relation_name`. -/
def LineageRelation.name : LineageRelation → String
  | .identical => "IDENTICAL"
  | .ancestorOf => "ANCESTOR_OF"
  | .descendantOf => "DESCENDANT_OF"
  | .divergent => "DIVERGENT"
  | .unrelated => "UNRELATED"
  | .indeterminate => "INDETERMINATE"

/-- One record of the history. -/
structure LineageRecord where
  sequence : LineageSequence
  lineage : LineageId
  generation : PartitionGeneration
  membership : MembershipDigest
  members : List ComponentId
  event : LineageEventKind := .genesis
  parentLeft : LineageId := .nil
  parentRight : LineageId := .nil
  epoch : CoordinatorEpoch
  boot : CoordinatorBootId
  decision : DecisionId
  tick : UInt64 := 0
  digest : LineageDigest := default
  deriving DecidableEq

/-- A record names a lineage as a parent. -/
def LineageRecord.Names (r : LineageRecord) (l : LineageId) : Prop :=
  r.parentLeft = l ∨ r.parentRight = l

/-- `compute_lineage_digest`. -/
def computeLineageDigest (record : LineageRecord) : LineageDigest :=
  let hasher := ({} : Sha256).updateText (ascii "fabric-partition-manager/lineage-record/v1")
  let hasher := (hasher.updateBe64 record.sequence.value).updateText record.lineage.text
  let hasher := (hasher.updateBe64 record.generation.value).update record.membership.value.bytes
  let hasher := updateTexts (hasher.updateBe64 (UInt64.ofNat record.members.length)) record.members
  let hasher := (hasher.updateU8 record.event.code).updateText record.parentLeft.text
  let hasher := (hasher.updateText record.parentRight.text).updateBe64 record.epoch.value
  let hasher := (hasher.update record.boot.bytes).updateText record.decision.text
  ⟨(hasher.updateBe64 record.tick).finish⟩

/-! ## Derived identities -/

/-- `hex_identifier`: a letter and the first half of a digest in hexadecimal. -/
def hexIdentifier (letter : UInt8) (digest : Digest) : Text := letter :: (hex digest.bytes).take 32

theorem isValidId_hexIdentifier {maxLength : Nat} (h : 33 ≤ maxLength) {letter : UInt8}
    (hletter : isIdAlphanumeric letter = true) (digest : Digest) :
    isValidId maxLength (hexIdentifier letter digest) = true := by
  refine isValidId_of_alphanumeric (by simp [hexIdentifier]) ?_ ?_
  · rw [hexIdentifier, List.length_cons, List.length_take]
    omega
  · intro b hb
    rcases List.mem_cons.mp hb with rfl | hb
    · exact hletter
    · exact hex_alphanumeric _ b (List.mem_of_mem_take hb)

/-- `derive_lineage_id`. -/
def deriveLineageId (domain : String) (left right : LineageId) (membership : MembershipDigest) :
    LineageId :=
  let hasher := ({} : Sha256).updateText (ascii "fabric-partition-manager/lineage-identity/v1")
  let hasher := ((hasher.updateText (ascii domain)).updateText left.text).updateText right.text
  TextId.fromValidated (hexIdentifier 108 (hasher.update membership.value.bytes).finish)
    (isValidId_hexIdentifier (by decide) (by decide) _)

/-- `genesis_lineage_id`. -/
def genesisLineageId (membership : MembershipDigest) : LineageId :=
  deriveLineageId "genesis" .nil .nil membership

/-- `split_lineage_id`. -/
def splitLineageId (parent : LineageId) (membership : MembershipDigest) : LineageId :=
  deriveLineageId "split" parent .nil membership

/-- `merge_lineage_id`, which does not depend on the order of its arguments. -/
def mergeLineageId (left right : LineageId) : LineageId :=
  let first := if left < right then left else right
  let second := if left < right then right else left
  deriveLineageId "merge" first second default

theorem deriveLineageId_ne_nil (domain : String) (left right : LineageId)
    (membership : MembershipDigest) : deriveLineageId domain left right membership ≠ .nil := by
  intro h
  have ht := congrArg TextId.text h
  simp [deriveLineageId, TextId.fromValidated, hexIdentifier, TextId.nil] at ht

/-! ## The store -/

/-- The index of the first and of the last record of a lineage. -/
structure LineageSlot where
  earliest : Nat
  latest : Nat
  deriving DecidableEq

/-- Look a lineage up in the slot map. -/
def slotOf : List (LineageId × LineageSlot) → LineageId → Option LineageSlot
  | [], _ => none
  | (key, slot) :: rest, lineage => if key = lineage then some slot else slotOf rest lineage

/-- The slot map after a record was pushed at an index. -/
def updateSlot : List (LineageId × LineageSlot) → LineageId → Nat → List (LineageId × LineageSlot)
  | [], lineage, index => [(lineage, ⟨index, index⟩)]
  | (key, slot) :: rest, lineage, index =>
    if key = lineage then (key, { slot with latest := index }) :: rest
    else (key, slot) :: updateSlot rest lineage index

theorem slotOf_updateSlot (slots : List (LineageId × LineageSlot)) (lineage l : LineageId)
    (index : Nat) : slotOf (updateSlot slots lineage index) l =
      if l = lineage then
        some ⟨((slotOf slots lineage).map LineageSlot.earliest).getD index, index⟩
      else slotOf slots l := by
  induction slots with
  | nil =>
    by_cases hl : l = lineage
    · simp [slotOf, updateSlot, hl]
    · simp [slotOf, updateSlot, hl, Ne.symm hl]
  | cons entry rest ih =>
    obtain ⟨key, slot⟩ := entry
    by_cases hkey : key = lineage
    · subst hkey
      by_cases hl : l = key
      · simp [slotOf, updateSlot, hl]
      · simp [slotOf, updateSlot, hl, Ne.symm hl]
    · by_cases hl : key = l
      · subst hl
        simp [slotOf, updateSlot, hkey]
      · simp only [slotOf, updateSlot, if_neg hkey, if_neg hl, ih]

/-- The indexes and totals of a store agree with its records. -/
structure Indexed (records : List LineageRecord) (slots : List (LineageId × LineageSlot))
    (generations : List (LineageId × UInt64)) (highestSequence : LineageSequence)
    (retainedMemberEntries : Nat) : Prop where
  earliest : ∀ l, ((slotOf slots l).bind fun s => records[s.earliest]?)
    = records.find? fun r => r.lineage == l
  latest : ∀ l, ((slotOf slots l).bind fun s => records[s.latest]?)
    = records.reverse.find? fun r => r.lineage == l
  slot_lt : ∀ l s, slotOf slots l = some s → s.earliest < records.length ∧ s.latest < records.length
  generations : ∀ key, key ∈ generations ↔ ∃ r ∈ records, (r.lineage, r.generation.value) = key
  highest : highestSequence = (records.getLast?.map LineageRecord.sequence).getD .zero
  retained : retainedMemberEntries = (records.map fun r => r.members.length).sum

theorem Indexed.initial : Indexed [] [] [] .zero 0 :=
  ⟨by simp [slotOf], by simp [slotOf], by simp [slotOf], by simp, rfl, rfl⟩

/-- The append-only store of lineage records. -/
structure LineageStore where
  limits : Limits
  records : List LineageRecord := []
  slots : List (LineageId × LineageSlot) := []
  generations : List (LineageId × UInt64) := []
  highestSequence : LineageSequence := .zero
  retainedMemberEntries : Nat := 0
  /-- The indexes agree with the records. -/
  indexed : Indexed records slots generations highestSequence retainedMemberEntries :=
    by exact .initial

namespace LineageStore

/-- `LineageStore::contains`. -/
def contains (store : LineageStore) (lineage : LineageId) : Bool :=
  (slotOf store.slots lineage).isSome

/-- `LineageStore::latest`. -/
def latest (store : LineageStore) (lineage : LineageId) : Option LineageRecord :=
  (slotOf store.slots lineage).bind fun s => store.records[s.latest]?

/-- `LineageStore::earliest`. -/
def earliest (store : LineageStore) (lineage : LineageId) : Option LineageRecord :=
  (slotOf store.slots lineage).bind fun s => store.records[s.earliest]?

/-- `LineageStore::size`. -/
def size (store : LineageStore) : Nat := store.records.length

/-- Is the (lineage, generation) pair of a record in the store already? -/
def knownGeneration (store : LineageStore) (record : LineageRecord) : Bool :=
  store.generations.contains (record.lineage, record.generation.value)

/-- The event check: a retirement must name a known generation of a lineage whose *first* record is
not a retirement — the loop of the source leaves after the first record it compares — and every
other event must introduce a new generation. -/
def eventAdmitted (store : LineageStore) (record : LineageRecord) : Bool :=
  if record.event = .retire then
    store.knownGeneration record
      && !(store.records.find? fun r => r.lineage == record.lineage).any (·.event == .retire)
  else !store.knownGeneration record

/-- The parent check: none for a genesis or a retirement, recorded ones otherwise. -/
def parentsAdmitted (store : LineageStore) (record : LineageRecord) : Bool :=
  if record.event = .genesis ∨ record.event = .retire then
    record.parentLeft.isNil && record.parentRight.isNil
  else
    !record.parentLeft.isNil && store.contains record.parentLeft
      && (record.parentRight.isNil || store.contains record.parentRight)
      && !(record.event == .merge && record.parentRight.isNil)

/-- The loop over the members: no nil member, and each strictly after its predecessor. -/
def membersOrdered : List ComponentId → Bool
  | [] => true
  | [c] => !c.isNil
  | c :: d :: rest => !c.isNil && decide (c < d) && membersOrdered (d :: rest)

/-- `LineageStore::append`'s checks, in its order. -/
def admits (store : LineageStore) (record : LineageRecord) : Bool :=
  decide (store.records.length < store.limits.maxLineageRecords)
    && !record.lineage.isNil && !record.sequence.isZero
    && (store.records.isEmpty || decide (store.highestSequence.value < record.sequence.value))
    && store.eventAdmitted record
    && store.parentsAdmitted record
    && !record.members.isEmpty && decide (record.members.length ≤ store.limits.maxComponents)
    && membersOrdered record.members
    && (computeMembershipDigest record.members == record.membership)
    && ((checkedSizeAdd store.retainedMemberEntries record.members.length).any fun total =>
        decide (total ≤ store.limits.maxLineageMemberEntries))

end LineageStore

/-- Pushing a record keeps the indexes in agreement. -/
theorem Indexed.push {records : List LineageRecord} {slots : List (LineageId × LineageSlot)}
    {generations : List (LineageId × UInt64)} {highest : LineageSequence} {retained : Nat}
    (h : Indexed records slots generations highest retained) (record : LineageRecord) :
    Indexed (records ++ [record]) (updateSlot slots record.lineage records.length)
      ((record.lineage, record.generation.value) :: generations) record.sequence
      (retained + record.members.length) where
  earliest l := by
    have hl := h.earliest l
    rw [slotOf_updateSlot, List.find?_append]
    by_cases heq : l = record.lineage
    · subst heq
      rw [if_pos rfl]
      cases hs : slotOf slots record.lineage with
      | none =>
        rw [hs] at hl
        simp [← hl]
      | some s =>
        have hlt := (h.slot_lt _ _ hs).1
        rw [hs] at hl
        simp only [Option.bind_some, List.getElem?_eq_getElem hlt] at hl
        simp [← hl, List.getElem?_append_left hlt, List.getElem?_eq_getElem hlt]
    · have hne : (record.lineage == l) = false := by simpa using Ne.symm heq
      rw [if_neg heq, ← hl]
      cases hs : slotOf slots l with
      | none => simp [hne]
      | some s =>
        have hlt := (h.slot_lt _ _ hs).1
        simp [List.getElem?_append_left hlt, List.getElem?_eq_getElem hlt]
  latest l := by
    have hl := h.latest l
    rw [slotOf_updateSlot, List.reverse_append, List.find?_append]
    by_cases heq : l = record.lineage
    · subst heq
      simp
    · have hne : (record.lineage == l) = false := by simpa using Ne.symm heq
      rw [if_neg heq, ← hl]
      cases hs : slotOf slots l with
      | none => simp [hne]
      | some s => simp [hne, List.getElem?_append_left (h.slot_lt _ _ hs).2]
  slot_lt l s hs := by
    rw [slotOf_updateSlot] at hs
    rw [List.length_append, List.length_singleton]
    split at hs
    · cases hs
      refine ⟨?_, Nat.lt_succ_self _⟩
      cases hslot : slotOf slots record.lineage with
      | none => simp
      | some s' =>
        have := (h.slot_lt _ _ hslot).1
        simp
        omega
    · have := h.slot_lt l s hs
      omega
  generations key := by
    rw [List.mem_cons, h.generations key]
    refine ⟨?_, ?_⟩
    · rintro (rfl | ⟨r, hr, hkey⟩)
      · exact ⟨record, by simp, rfl⟩
      · exact ⟨r, List.mem_append_left _ hr, hkey⟩
    · rintro ⟨r, hr, hkey⟩
      rcases List.mem_append.mp hr with hr | hr
      · exact .inr ⟨r, hr, hkey⟩
      · rw [List.mem_singleton.mp hr] at hkey
        exact .inl hkey.symm
  highest := by simp
  retained := by simp [h.retained]

namespace LineageStore

/-- What an accepted record does to the store; its digest is recomputed. -/
def push (store : LineageStore) (record : LineageRecord) : LineageStore where
  limits := store.limits
  records := store.records ++ [{ record with digest := computeLineageDigest record }]
  slots := updateSlot store.slots record.lineage store.records.length
  generations := (record.lineage, record.generation.value) :: store.generations
  highestSequence := record.sequence
  retainedMemberEntries := store.retainedMemberEntries + record.members.length
  indexed := store.indexed.push { record with digest := computeLineageDigest record }

/-- `LineageStore::append`: nothing when it refuses. -/
def append (store : LineageStore) (record : LineageRecord) : Option LineageStore :=
  if store.admits record then some (store.push record) else none

theorem latest_eq (store : LineageStore) (l : LineageId) :
    store.latest l = store.records.reverse.find? fun r => r.lineage == l :=
  store.indexed.latest l

theorem earliest_eq (store : LineageStore) (l : LineageId) :
    store.earliest l = store.records.find? fun r => r.lineage == l :=
  store.indexed.earliest l

theorem contains_iff {store : LineageStore} {l : LineageId} :
    store.contains l = true ↔ ∃ r ∈ store.records, r.lineage = l := by
  have hl := store.indexed.earliest l
  rw [contains]
  cases hs : slotOf store.slots l with
  | none =>
    rw [hs, Option.bind_none, eq_comm, List.find?_eq_none] at hl
    simp only [Option.isSome_none, Bool.false_eq_true, false_iff, not_exists, not_and]
    exact fun r hr => by simpa using hl r hr
  | some s =>
    have hlt := (store.indexed.slot_lt _ _ hs).1
    rw [hs, Option.bind_some, List.getElem?_eq_getElem hlt, eq_comm] at hl
    simp only [Option.isSome_some, true_iff]
    exact ⟨_, List.mem_of_find?_eq_some hl, by simpa using List.find?_some hl⟩

theorem latest_mem {store : LineageStore} {l : LineageId} {r : LineageRecord}
    (h : store.latest l = some r) : r ∈ store.records ∧ r.lineage = l := by
  rw [latest_eq] at h
  exact ⟨List.mem_reverse.mp (List.mem_of_find?_eq_some h), by simpa using List.find?_some h⟩

theorem exists_latest {store : LineageStore} {r : LineageRecord} (h : r ∈ store.records) :
    ∃ n, store.latest r.lineage = some n := by
  cases hn : store.latest r.lineage with
  | some n => exact ⟨n, rfl⟩
  | none =>
    rw [latest_eq, List.find?_eq_none] at hn
    exact absurd (beq_self_eq_true r.lineage) (hn r (List.mem_reverse.mpr h))

/-- A pushed record is the latest of its lineage, and no other lineage notices. -/
theorem latest_push (store : LineageStore) (record : LineageRecord) (l : LineageId) :
    (store.push record).latest l =
      if record.lineage = l then some { record with digest := computeLineageDigest record }
      else store.latest l := by
  rw [latest_eq, latest_eq]
  by_cases h : record.lineage = l
  · simp [push, h]
  · simp [push, h]

/-! ### Live lineages -/

/-- The lineages some record names as a parent. -/
def superseded (store : LineageStore) : List LineageId :=
  SortedList.unique ((store.records.flatMap fun r =>
    (if r.parentLeft.isNil then [] else [r.parentLeft])
      ++ (if r.parentRight.isNil then [] else [r.parentRight])).insertionSort (· ≤ ·))

/-- `LineageStore::live_lineages`. -/
def liveLineages (store : LineageStore) : List LineageId :=
  let superseded := store.superseded
  SortedList.unique ((store.records.filterMap fun r =>
    match store.latest r.lineage with
    | none => none
    | some newest =>
      if newest.event = .retire then none
      else if superseded.contains r.lineage then none
      else some r.lineage).insertionSort (· ≤ ·))

theorem mem_superseded {store : LineageStore} {l : LineageId} :
    l ∈ store.superseded ↔ l ≠ .nil ∧ ∃ r ∈ store.records, r.Names l := by
  rw [superseded, SortedList.mem_unique (List.pairwise_insertionSort _ _),
    List.mem_insertionSort, List.mem_flatMap]
  refine ⟨?_, ?_⟩
  · rintro ⟨r, hr, hl⟩
    rcases List.mem_append.mp hl with hl | hl <;> split at hl
    · cases hl
    · rename_i hnil
      rw [List.mem_singleton] at hl
      subst hl
      exact ⟨fun h => hnil (TextId.isNil_iff.mpr h), r, hr, .inl rfl⟩
    · cases hl
    · rename_i hnil
      rw [List.mem_singleton] at hl
      subst hl
      exact ⟨fun h => hnil (TextId.isNil_iff.mpr h), r, hr, .inr rfl⟩
  · rintro ⟨hne, r, hr, hl | hl⟩
    · refine ⟨r, hr, List.mem_append_left _ ?_⟩
      rw [hl, if_neg fun h => hne (TextId.isNil_iff.mp h)]
      exact List.mem_singleton_self l
    · refine ⟨r, hr, List.mem_append_right _ ?_⟩
      rw [hl, if_neg fun h => hne (TextId.isNil_iff.mp h)]
      exact List.mem_singleton_self l

/-- **A lineage is live** when it is recorded, its latest record does not retire it, and no record
names it as a parent. -/
theorem mem_liveLineages {store : LineageStore} {l : LineageId} :
    l ∈ store.liveLineages ↔
      (∃ n, store.latest l = some n ∧ n.event ≠ .retire) ∧ l ∉ store.superseded := by
  rw [liveLineages, SortedList.mem_unique (List.pairwise_insertionSort _ _),
    List.mem_insertionSort, List.mem_filterMap]
  refine ⟨?_, ?_⟩
  · rintro ⟨r, hr, hl⟩
    split at hl
    · cases hl
    · rename_i newest hnewest
      split at hl
      · cases hl
      · rename_i hretire
        split at hl
        · cases hl
        · rename_i hsup
          cases hl
          exact ⟨⟨newest, hnewest, hretire⟩, by simpa using hsup⟩
  · rintro ⟨⟨n, hn, hretire⟩, hsup⟩
    obtain ⟨hmem, rfl⟩ := latest_mem hn
    refine ⟨n, hmem, ?_⟩
    simp [hn, hretire, hsup]

theorem liveLineages_lt (store : LineageStore) : store.liveLineages.Pairwise (· < ·) :=
  SortedList.unique_pairwise_lt (List.pairwise_insertionSort _ _)

/-! ### Growth -/

/-- The store after some admitted records that a predicate allows. -/
inductive Grows (allowed : LineageRecord → Prop) (store : LineageStore) : LineageStore → Prop
  | refl : Grows allowed store store
  | push {store' : LineageStore} {record : LineageRecord} (h : Grows allowed store store')
      (hadmits : store'.admits record = true) (ha : allowed record) :
      Grows allowed store (store'.push record)

namespace Grows

variable {allowed allowed' : LineageRecord → Prop} {s t u : LineageStore}

theorem trans (h : Grows allowed s t) (h' : Grows allowed t u) : Grows allowed s u := by
  induction h' with
  | refl => exact h
  | push _ hadmits ha ih => exact .push ih hadmits ha

theorem mono (hle : ∀ record, allowed record → allowed' record) (h : Grows allowed s t) :
    Grows allowed' s t := by
  induction h with
  | refl => exact .refl
  | push _ hadmits ha ih => exact .push ih hadmits (hle _ ha)

/-- A lineage under which nothing is recorded keeps its latest record. -/
theorem latest_eq {l : LineageId} (h : Grows allowed s t)
    (hl : ∀ record, allowed record → record.lineage ≠ l) : t.latest l = s.latest l := by
  induction h with
  | refl => rfl
  | push _ _ ha ih => rw [latest_push, if_neg (hl _ ha), ih]

end Grows

/-! ### Ancestry -/

/-- The visited lineages of an ancestry walk, and whether it was cut short. -/
structure AncestryWalk where
  visited : List LineageId := []
  truncated : Bool := false
  deriving DecidableEq

/-- The parents of a record, with a depth. -/
def parentsAt (record : LineageRecord) (depth : Nat) : List (LineageId × Nat) :=
  (if record.parentLeft.isNil then [] else [(record.parentLeft, depth)])
    ++ (if record.parentRight.isNil then [] else [(record.parentRight, depth)])

/-- The frontier in canonical lineage order. -/
def sortFrontier (frontier : List (LineageId × Nat)) : List (LineageId × Nat) :=
  frontier.insertionSort fun lhs rhs => lhs.1 ≤ rhs.1

/-- The `while (!frontier.empty())` loop.  Every turn takes an entry off the frontier, and only a
turn that visits a new lineage adds entries, at most two; the walk visits at most
`maxLineageWalkNodes` lineages, which bounds the turns. -/
def walkFrontier (store : LineageStore) (limits : Limits) :
    Nat → List (LineageId × Nat) → AncestryWalk → AncestryWalk
  | 0, _, walk => walk
  | _ + 1, [], walk => walk
  | turns + 1, (lineage, depth) :: frontier, walk =>
    if walk.visited.contains lineage then walkFrontier store limits turns frontier walk
    else if walk.visited.length ≥ limits.maxLineageWalkNodes ∨
        depth > limits.maxLineageWalkDepth then
      { walk with truncated := true }
    else
      let walk := { walk with visited := walk.visited ++ [lineage] }
      match store.earliest lineage with
      | none => walkFrontier store limits turns frontier walk
      | some record =>
        walkFrontier store limits turns (sortFrontier (frontier ++ parentsAt record (depth + 1)))
          walk

/-- `collect_ancestors`. -/
def collectAncestors (store : LineageStore) (start : LineageId) (limits : Limits) : AncestryWalk :=
  match store.earliest start with
  | none => { truncated := true }
  | some first =>
    walkFrontier store limits (2 * limits.maxLineageWalkNodes + 3)
      (sortFrontier (parentsAt first 1)) {}

/-- `LineageStore::has_common_ancestor`. -/
def hasCommonAncestor (store : LineageStore) (left right : LineageId) : Bool :=
  let leftWalk := store.collectAncestors left store.limits
  let rightWalk := store.collectAncestors right store.limits
  leftWalk.visited.any fun value => rightWalk.visited.contains value

/-- `LineageStore::relate`: the relation, and `limit_reached`. -/
def relate (store : LineageStore) (left right : LineageId) : LineageRelation × Bool :=
  if left = right then (.identical, false)
  else if !store.contains left || !store.contains right then (.indeterminate, false)
  else
    let leftWalk := store.collectAncestors left store.limits
    let rightWalk := store.collectAncestors right store.limits
    if rightWalk.visited.contains left then (.ancestorOf, false)
    else if leftWalk.visited.contains right then (.descendantOf, false)
    else
      let common := store.hasCommonAncestor left right
      if leftWalk.truncated || rightWalk.truncated then
        if common then (.divergent, false) else (.indeterminate, true)
      else if common then (.divergent, false)
      else (.unrelated, false)

end LineageStore

end FabricPartition
