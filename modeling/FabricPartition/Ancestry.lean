import FabricPartition.Lib.Exploration
import FabricPartition.Descent
import FabricPartition.Run

/-!
# Ancestry answers

`LineageStore.relate` answers from two walks up the parents of the earliest records, each cut short by
a budget of nodes and a budget of depth.  The graph it walks has no cycle: `append` admits a lineage
only with parents that are recorded already, so that a parent's first record comes before its child's
(`Appended.birth_lt`).

* `collectAncestors_explored` — a walk finds ancestors only, and all of them when it is not cut short;
* `collectAncestors_ample` — budgets of the size of the store cut nothing short;
* `relate_sound_iff` — the answer is the relation of the two lineages, or it is left open, exactly when
  no walk was cut short before the other lineage while a common ancestor was found: `relate` takes the
  common ancestor for a divergence.
-/

set_option autoImplicit false

namespace FabricPartition

namespace LineageStore

open Exploration Relation

/-! ## The graph -/

/-- The parents of the earliest record of a lineage. -/
def parents (store : LineageStore) (l : LineageId) : List LineageId :=
  match store.earliest l with
  | none => []
  | some record => (parentsAt record 0).map Prod.fst

/-- The edges of the ancestry graph, upwards. -/
def Parent (store : LineageStore) (child parent : LineageId) : Prop := parent ∈ store.parents child

instance (store : LineageStore) (child parent : LineageId) : Decidable (store.Parent child parent) :=
  inferInstanceAs (Decidable (_ ∈ _))

/-- The first lineage is a proper ancestor of the second. -/
def Ancestor (store : LineageStore) (ancestor lineage : LineageId) : Prop :=
  TransGen store.Parent lineage ancestor

/-- The position of the first record of a lineage. -/
def birth (store : LineageStore) (l : LineageId) : Nat :=
  store.records.findIdx fun r => r.lineage == l

/-- A store that was built by `append`. -/
def Appended (store : LineageStore) : Prop :=
  ∃ limits : Limits, Grows (fun _ => True) { limits := limits } store

theorem mem_parentsAt {record : LineageRecord} {depth : Nat} {e : LineageId × Nat} :
    e ∈ parentsAt record depth ↔ record.Names e.1 ∧ e.1 ≠ .nil ∧ e.2 = depth := by
  obtain ⟨l, d⟩ := e
  have hside : ∀ k : LineageId, (l, d) ∈ (if k.isNil then [] else [(k, depth)]) ↔
      k = l ∧ l ≠ .nil ∧ d = depth := by
    intro k
    by_cases hk : k.isNil = true
    · rw [if_pos hk, TextId.isNil_iff.mp hk]
      exact iff_of_false List.not_mem_nil fun h => h.2.1 h.1.symm
    · rw [if_neg hk, List.mem_singleton, Prod.mk.injEq]
      refine ⟨fun h => ⟨h.1.symm, fun hl => hk (TextId.isNil_iff.mpr (h.1 ▸ hl)), h.2⟩,
        fun h => ⟨h.1.symm, h.2.2⟩⟩
  rw [parentsAt, List.mem_append, hside, hside, LineageRecord.Names, or_and_right]

theorem parents_of_earliest {store : LineageStore} {l : LineageId} {record : LineageRecord}
    (h : store.earliest l = some record) (depth : Nat) :
    store.parents l = (parentsAt record depth).map Prod.fst := by
  rw [parents, h]
  dsimp only
  rw [parentsAt, parentsAt]
  split <;> split <;> rfl

theorem parent_iff {store : LineageStore} {child parent : LineageId} :
    store.Parent child parent ↔
      ∃ record, store.earliest child = some record ∧ record.Names parent ∧ parent ≠ .nil := by
  rw [Parent, parents]
  rcases store.earliest child with _ | record
  · simp
  · simp only [List.mem_map, mem_parentsAt, Option.some.injEq, exists_eq_left']
    exact ⟨fun ⟨e, he, hp⟩ => hp ▸ ⟨he.1, he.2.1⟩, fun h => ⟨(parent, 0), ⟨h.1, h.2, rfl⟩, rfl⟩⟩

theorem birth_lt_length {store : LineageStore} {l : LineageId} :
    store.birth l < store.records.length ↔ ∃ r ∈ store.records, r.lineage = l := by
  rw [birth, List.findIdx_lt_length]
  simp only [beq_iff_eq]

/-- Positions tell recorded lineages apart. -/
theorem birth_inj {store : LineageStore} {l l' : LineageId}
    (hl : store.birth l < store.records.length) (h : store.birth l = store.birth l') : l = l' := by
  have hl' : store.birth l' < store.records.length := h ▸ hl
  have hfirst := beq_iff_eq.mp (List.findIdx_getElem (w := hl))
  have hfirst' := beq_iff_eq.mp (List.findIdx_getElem (w := hl'))
  rw [← hfirst, ← hfirst']
  exact congrArg LineageRecord.lineage (getElem_congr_idx h)

theorem earliest_push (store : LineageStore) (record : LineageRecord) (l : LineageId) :
    (store.push record).earliest l = (store.earliest l).or
      (if record.lineage = l then some { record with digest := computeLineageDigest record }
        else none) := by
  rw [earliest_eq, earliest_eq, push, List.find?_append, List.find?_singleton]
  simp only [beq_iff_eq]

theorem birth_push_of_lt {store : LineageStore} {l : LineageId}
    (h : store.birth l < store.records.length) (record : LineageRecord) :
    (store.push record).birth l = store.birth l := by
  rw [birth] at h
  rw [birth, push, List.findIdx_append, if_pos h, birth]

theorem birth_push_ge {store : LineageStore} {l : LineageId}
    (h : ¬ store.birth l < store.records.length) (record : LineageRecord) :
    store.records.length ≤ (store.push record).birth l := by
  rw [birth] at h
  rw [birth, push, List.findIdx_append, if_neg h]
  exact Nat.le_add_left _ _

theorem birth_lt_of_earliest {store : LineageStore} {l : LineageId} {record : LineageRecord}
    (h : store.earliest l = some record) : store.birth l < store.records.length := by
  rw [earliest_eq] at h
  exact birth_lt_length.mpr
    ⟨record, List.mem_of_find?_eq_some h, by simpa using List.find?_some h⟩

theorem exists_earliest {store : LineageStore} {l : LineageId} (h : store.contains l = true) :
    ∃ record, store.earliest l = some record := by
  obtain ⟨r, hr, hl⟩ := contains_iff.mp h
  rw [← Option.isSome_iff_exists, earliest_eq, List.find?_isSome]
  exact ⟨r, hr, beq_iff_eq.mpr hl⟩

/-- **Parents come first**: the first record of a parent precedes the first record of its child. -/
theorem Appended.birth_lt {store : LineageStore} (h : store.Appended) {child parent : LineageId}
    (hparent : store.Parent child parent) : store.birth parent < store.birth child := by
  obtain ⟨limits, h⟩ := h
  induction h generalizing child parent with
  | refl =>
    obtain ⟨record, hrecord, -⟩ := parent_iff.mp hparent
    rw [earliest_eq] at hrecord
    cases hrecord
  | @push store record _ hadmits _ ih =>
    obtain ⟨first, hfirst, hnames, hnil⟩ := parent_iff.mp hparent
    rw [earliest_push] at hfirst
    rcases hchild : store.earliest child with _ | old
    · -- the record is the first one of the child, and its parents were there already
      rw [hchild, Option.none_or] at hfirst
      split at hfirst
      · rename_i hlineage
        cases hfirst
        have hrecorded : store.birth parent < store.records.length :=
          birth_lt_length.mpr ((admits_sound hadmits).parents parent hnames hnil)
        have hnew : ¬ store.birth child < store.records.length := by
          rw [birth_lt_length]
          rintro ⟨r, hr, hrl⟩
          rw [earliest_eq, List.find?_eq_none] at hchild
          exact hchild r hr (beq_iff_eq.mpr hrl)
        rw [birth_push_of_lt hrecorded]
        exact Nat.lt_of_lt_of_le hrecorded (birth_push_ge hnew record)
      · cases hfirst
    · rw [hchild, Option.some_or] at hfirst
      cases hfirst
      have hlt := ih (parent_iff.mpr ⟨first, hchild, hnames, hnil⟩)
      have hold := birth_lt_of_earliest hchild
      rwa [birth_push_of_lt (Nat.lt_trans hlt hold), birth_push_of_lt hold]

section Appended

variable {store : LineageStore}

theorem Appended.ancestor_birth_lt (h : store.Appended) {a l : LineageId}
    (ha : store.Ancestor a l) : store.birth a < store.birth l :=
  rank_lt_of_reachable (fun _ _ hparent => h.birth_lt hparent) ha

/-- No lineage is its own ancestor. -/
theorem Appended.not_mutual (h : store.Appended) {a l : LineageId} (ha : store.Ancestor a l) :
    ¬ store.Ancestor l a := fun hl =>
  Nat.lt_asymm (h.ancestor_birth_lt ha) (h.ancestor_birth_lt hl)

theorem ancestor_birth_lt_length {a l : LineageId} (h : store.Appended) (ha : store.Ancestor a l) :
    store.birth a < store.records.length := by
  refine Nat.lt_of_lt_of_le (h.ancestor_birth_lt ha) ?_
  exact List.findIdx_le_length

end Appended

/-! ## The walks -/

theorem sortFrontier_perm (frontier : List (LineageId × Nat)) :
    (sortFrontier frontier).Perm frontier :=
  List.perm_insertionSort _ frontier

theorem length_parentsAt_le (record : LineageRecord) (depth : Nat) :
    (parentsAt record depth).length ≤ 2 := by
  rw [parentsAt, List.length_append]
  refine Nat.add_le_add (b := 1) (d := 1) ?_ ?_ <;> split <;> simp

/-- **A walk from an explored frontier** stays among the ancestors, and leaves no frontier unless it
is cut short. -/
theorem walkFrontier_explored {store : LineageStore} {limits : Limits} {start : LineageId}
    {turns : Nat} {frontier : List (LineageId × Nat)} {walk : AncestryWalk}
    (h : Explored store.Parent start walk.visited (frontier.map Prod.fst))
    (hturns : frontier.length + 2 * (limits.maxLineageWalkNodes - walk.visited.length) < turns) :
    ∃ rest, Explored store.Parent start (store.walkFrontier limits turns frontier walk).visited rest ∧
      ((store.walkFrontier limits turns frontier walk).truncated = false → rest = []) := by
  induction turns generalizing frontier walk with
  | zero => omega
  | succ turns ih =>
    rcases frontier with _ | ⟨⟨lineage, depth⟩, frontier⟩
    · exact ⟨[], h, fun _ => rfl⟩
    rw [List.length_cons] at hturns
    rw [walkFrontier]
    split
    · rename_i hvisited
      exact ih (h.skip (by simpa using hvisited)) (by omega)
    · rename_i hnew
      have hnew : lineage ∉ walk.visited := by simpa using hnew
      split
      · exact ⟨_, h, fun hcut => by cases hcut⟩
      · rename_i hbudget
        have hroom : walk.visited.length < limits.maxLineageWalkNodes :=
          Nat.lt_of_not_le fun hle => hbudget (.inl hle)
        dsimp only
        have hvisit := h.visit hnew (store.parents lineage) fun _ => Iff.rfl
        rcases hrecord : store.earliest lineage with _ | record
        · rw [parents, hrecord, List.append_nil] at hvisit
          refine ih hvisit ?_
          rw [List.length_append, List.length_singleton]
          omega
        · rw [parents_of_earliest hrecord (depth + 1), ← List.map_append] at hvisit
          have hperm := sortFrontier_perm (frontier ++ parentsAt record (depth + 1))
          refine ih (hvisit.reorder (hperm.symm.map Prod.fst)) ?_
          have hparents := length_parentsAt_le record (depth + 1)
          rw [hperm.length_eq, List.length_append, List.length_append, List.length_singleton]
          omega

/-- A walk begins with the parents of its start. -/
theorem explored_parents {store : LineageStore} {start : LineageId} {first : LineageRecord}
    (hfirst : store.earliest start = some first) :
    Explored store.Parent start [] ((sortFrontier (parentsAt first 1)).map Prod.fst) := by
  refine (Explored.initial (store.parents start) fun _ => Iff.rfl).reorder ?_
  rw [parents_of_earliest hfirst 1]
  exact (sortFrontier_perm _).symm.map Prod.fst

/-- The walk of a recorded lineage, and the frontier it leaves. -/
theorem collectAncestors_rest {store : LineageStore} {start : LineageId} (limits : Limits)
    (hstart : store.contains start = true) :
    ∃ rest, Explored store.Parent start (store.collectAncestors start limits).visited rest ∧
      ((store.collectAncestors start limits).truncated = false → rest = []) := by
  obtain ⟨first, hfirst⟩ := exists_earliest hstart
  rw [collectAncestors, hfirst]
  dsimp only
  have hperm := sortFrontier_perm (parentsAt first 1)
  refine @walkFrontier_explored store limits start _ _ {} (explored_parents hfirst) ?_
  have hparents := length_parentsAt_le first 1
  rw [hperm.length_eq, List.length_nil]
  omega

/-- **The ancestry walk of a recorded lineage** finds ancestors only, and all of them when it is not
cut short. -/
theorem collectAncestors_explored {store : LineageStore} {start : LineageId} (limits : Limits)
    (hstart : store.contains start = true) :
    (∀ v ∈ (store.collectAncestors start limits).visited, store.Ancestor v start) ∧
      ((store.collectAncestors start limits).truncated = false →
        ∀ v, store.Ancestor v start → v ∈ (store.collectAncestors start limits).visited) := by
  obtain ⟨rest, hwalk, hrest⟩ := collectAncestors_rest limits hstart
  refine ⟨hwalk.sound, fun hcut v hv => ?_⟩
  rw [hrest hcut] at hwalk
  exact hwalk.complete.mpr hv

/-- Budgets of the size of the start's history cut nothing short. -/
theorem walkFrontier_ample {store : LineageStore} (happended : store.Appended) {limits : Limits}
    {start : LineageId} (hnodes : store.birth start ≤ limits.maxLineageWalkNodes)
    (hdepth : store.birth start ≤ limits.maxLineageWalkDepth) {turns : Nat}
    {frontier : List (LineageId × Nat)} {walk : AncestryWalk}
    (h : Explored store.Parent start walk.visited (frontier.map Prod.fst))
    (hdepths : ∀ e ∈ frontier, e.2 + store.birth e.1 ≤ store.birth start)
    (hcut : walk.truncated = false) :
    (store.walkFrontier limits turns frontier walk).truncated = false := by
  induction turns generalizing frontier walk with
  | zero => exact hcut
  | succ turns ih =>
    rcases frontier with _ | ⟨⟨lineage, depth⟩, frontier⟩
    · exact hcut
    rw [walkFrontier]
    split
    · rename_i hvisited
      exact ih (h.skip (by simpa using hvisited))
        (fun e he => hdepths e (List.mem_cons_of_mem _ he)) hcut
    · rename_i hnew
      have hnew : lineage ∉ walk.visited := by simpa using hnew
      have hvisit := h.visit hnew (store.parents lineage) fun _ => Iff.rfl
      have hlength := hvisit.length_le store.birth
        (fun _ _ hparent => happended.birth_lt hparent) fun v w hv _ hvw =>
          birth_inj (ancestor_birth_lt_length happended hv) hvw
      rw [List.length_append, List.length_singleton] at hlength
      have hhere := hdepths _ List.mem_cons_self
      rw [if_neg (by dsimp only at hhere; omega)]
      dsimp only
      rcases hrecord : store.earliest lineage with _ | record
      · rw [parents, hrecord, List.append_nil] at hvisit
        exact ih hvisit (fun e he => hdepths e (List.mem_cons_of_mem _ he)) hcut
      · rw [parents_of_earliest hrecord (depth + 1), ← List.map_append] at hvisit
        have hperm := sortFrontier_perm (frontier ++ parentsAt record (depth + 1))
        refine ih (hvisit.reorder (hperm.symm.map Prod.fst)) (fun e he => ?_) hcut
        rcases List.mem_append.mp (hperm.mem_iff.mp he) with he | he
        · exact hdepths e (List.mem_cons_of_mem _ he)
        · obtain ⟨hnames, hnil, hd⟩ := mem_parentsAt.mp he
          have hlt := happended.birth_lt (parent_iff.mpr ⟨record, hrecord, hnames, hnil⟩)
          dsimp only at hhere
          omega

/-- **Budgets of the size of the store** cut no walk short. -/
theorem collectAncestors_ample {store : LineageStore} (happended : store.Appended) {limits : Limits}
    (hnodes : store.size ≤ limits.maxLineageWalkNodes)
    (hdepth : store.size ≤ limits.maxLineageWalkDepth) {start : LineageId}
    (hstart : store.contains start = true) :
    (store.collectAncestors start limits).truncated = false := by
  obtain ⟨first, hfirst⟩ := exists_earliest hstart
  have hbirth : store.birth start ≤ store.size := List.findIdx_le_length
  rw [collectAncestors, hfirst]
  dsimp only
  have hperm := sortFrontier_perm (parentsAt first 1)
  refine walkFrontier_ample happended (hbirth.trans hnodes) (hbirth.trans hdepth)
    (explored_parents hfirst) (fun e he => ?_) rfl
  obtain ⟨hnames, hnil, hd⟩ := mem_parentsAt.mp (hperm.mem_iff.mp he)
  have hlt := happended.birth_lt (parent_iff.mpr ⟨first, hfirst, hnames, hnil⟩)
  omega

/-! ## The relation -/

/-- **The relation of two lineages** in the whole ancestry graph. -/
def Related (store : LineageStore) (left right : LineageId) : LineageRelation → Prop
  | .identical => left = right
  | .ancestorOf => store.Ancestor left right
  | .descendantOf => store.Ancestor right left
  | .divergent => left ≠ right ∧ ¬ store.Ancestor left right ∧ ¬ store.Ancestor right left ∧
      ∃ shared, store.Ancestor shared left ∧ store.Ancestor shared right
  | .unrelated => left ≠ right ∧ ¬ store.Ancestor left right ∧ ¬ store.Ancestor right left ∧
      ¬ ∃ shared, store.Ancestor shared left ∧ store.Ancestor shared right
  | .indeterminate => False

/-- Two lineages have one relation at most. -/
theorem Appended.related_unique {store : LineageStore} (h : store.Appended) {left right : LineageId}
    {a b : LineageRelation} (ha : store.Related left right a) (hb : store.Related left right b) :
    a = b := by
  have hself : left = right → ¬ store.Ancestor left right ∧ ¬ store.Ancestor right left := by
    rintro rfl
    exact ⟨fun hl => h.not_mutual hl hl, fun hl => h.not_mutual hl hl⟩
  have hmutual := h.not_mutual (a := left) (l := right)
  cases a <;> cases b <;> simp only [Related] at ha hb <;> first
    | rfl
    | exact absurd ha.2.2.2 hb.2.2.2
    | exact absurd hb.2.2.2 ha.2.2.2
    | tauto

/-- One of the two walks was cut short. -/
def CutShort (store : LineageStore) (left right : LineageId) : Prop :=
  (store.collectAncestors left store.limits).truncated = true ∨
    (store.collectAncestors right store.limits).truncated = true

instance (store : LineageStore) (left right : LineageId) : Decidable (store.CutShort left right) :=
  inferInstanceAs (Decidable (_ ∨ _))

/-- **What an ancestry answer owes**: it is the relation of the two lineages, or it is left open, the
limit reported; and budgets of the size of the store leave nothing open. -/
structure SoundAnswer (store : LineageStore) (left right : LineageId) : Prop where
  decided : (store.Related left right (store.relate left right).1 ∧
      (store.relate left right).2 = false) ∨
    store.relate left right = (.indeterminate, true) ∧ store.CutShort left right
  ample : store.size ≤ store.limits.maxLineageWalkNodes →
    store.size ≤ store.limits.maxLineageWalkDepth →
    store.Related left right (store.relate left right).1

/-- The walk from a lineage was cut short of an ancestor, and the two walks share a lineage. -/
def Overlooks (store : LineageStore) (ancestor lineage : LineageId) : Prop :=
  store.Ancestor ancestor lineage ∧
    ancestor ∉ (store.collectAncestors lineage store.limits).visited ∧
    ∃ shared ∈ (store.collectAncestors ancestor store.limits).visited,
      shared ∈ (store.collectAncestors lineage store.limits).visited

/-- The answer about two recorded lineages, from the two walks. -/
theorem relate_eq {store : LineageStore} {left right : LineageId} (hne : left ≠ right)
    (hleft : store.contains left = true) (hright : store.contains right = true) :
    store.relate left right =
      if left ∈ (store.collectAncestors right store.limits).visited then (.ancestorOf, false)
      else if right ∈ (store.collectAncestors left store.limits).visited then (.descendantOf, false)
      else if ∃ shared ∈ (store.collectAncestors left store.limits).visited,
          shared ∈ (store.collectAncestors right store.limits).visited then (.divergent, false)
      else if store.CutShort left right then (.indeterminate, true)
      else (.unrelated, false) := by
  have hcommon : store.hasCommonAncestor left right = true ↔
      ∃ shared ∈ (store.collectAncestors left store.limits).visited,
        shared ∈ (store.collectAncestors right store.limits).visited := by
    simp only [hasCommonAncestor, List.any_eq_true, List.contains_iff_mem]
  have hshort : store.CutShort left right ↔
      ((store.collectAncestors left store.limits).truncated
        || (store.collectAncestors right store.limits).truncated) = true := by
    rw [CutShort, Bool.or_eq_true]
  rw [relate, if_neg hne, if_neg (by simp [hleft, hright])]
  simp only [List.contains_iff_mem, ← hcommon]
  split
  · rfl
  · split
    · rfl
    · split
      · rename_i hcut
        by_cases hc : store.hasCommonAncestor left right = true
        · rw [if_pos hc, if_pos hc]
        · rw [if_neg hc, if_neg hc, if_pos (hshort.mpr hcut)]
      · rename_i hcut
        by_cases hc : store.hasCommonAncestor left right = true
        · rw [if_pos hc, if_pos hc]
        · rw [if_neg hc, if_neg hc, if_neg fun h => hcut (hshort.mp h)]

/-- **An ancestry answer is sound** exactly when neither walk was cut short of the other lineage while
a common ancestor was in sight. -/
theorem relate_sound_iff {store : LineageStore} (happended : store.Appended)
    {left right : LineageId} (hleft : store.contains left = true)
    (hright : store.contains right = true) :
    store.SoundAnswer left right ↔ ¬ store.Overlooks left right ∧ ¬ store.Overlooks right left := by
  obtain ⟨hleftSound, hleftAll⟩ := collectAncestors_explored store.limits hleft
  obtain ⟨hrightSound, hrightAll⟩ := collectAncestors_explored store.limits hright
  have hample : store.size ≤ store.limits.maxLineageWalkNodes →
      store.size ≤ store.limits.maxLineageWalkDepth → ¬ store.CutShort left right := by
    rintro hnodes hdepth (hcut | hcut)
    · rw [collectAncestors_ample happended hnodes hdepth hleft] at hcut
      cases hcut
    · rw [collectAncestors_ample happended hnodes hdepth hright] at hcut
      cases hcut
  by_cases hsame : left = right
  · subst hsame
    have hnot : ¬ store.Overlooks left left := fun h => happended.not_mutual h.1 h.1
    have hanswer : store.relate left left = (.identical, false) := by rw [relate, if_pos rfl]
    refine iff_of_true ⟨.inl ?_, fun _ _ => ?_⟩ ⟨hnot, hnot⟩ <;> rw [hanswer]
    · exact ⟨rfl, rfl⟩
    · exact rfl
  have hanswer := relate_eq hsame hleft hright
  by_cases hancestor : left ∈ (store.collectAncestors right store.limits).visited
  · rw [if_pos hancestor] at hanswer
    have hrelated : store.Related left right .ancestorOf := hrightSound left hancestor
    refine iff_of_true ⟨.inl ?_, fun _ _ => ?_⟩ ⟨fun h => h.2.1 hancestor,
      fun h => happended.not_mutual h.1 hrelated⟩ <;> rw [hanswer]
    · exact ⟨hrelated, rfl⟩
    · exact hrelated
  rw [if_neg hancestor] at hanswer
  by_cases hdescendant : right ∈ (store.collectAncestors left store.limits).visited
  · rw [if_pos hdescendant] at hanswer
    have hrelated : store.Related left right .descendantOf := hleftSound right hdescendant
    refine iff_of_true ⟨.inl ?_, fun _ _ => ?_⟩ ⟨fun h => happended.not_mutual h.1 hrelated,
      fun h => h.2.1 hdescendant⟩ <;> rw [hanswer]
    · exact ⟨hrelated, rfl⟩
    · exact hrelated
  rw [if_neg hdescendant] at hanswer
  by_cases hshared : ∃ shared ∈ (store.collectAncestors left store.limits).visited,
      shared ∈ (store.collectAncestors right store.limits).visited
  · -- a common ancestor makes the answer divergent, whatever the walks have missed
    rw [if_pos hshared] at hanswer
    obtain ⟨shared, hinLeft, hinRight⟩ := hshared
    have hrelated : store.Related left right .divergent ↔
        ¬ store.Overlooks left right ∧ ¬ store.Overlooks right left := by
      refine ⟨fun h => ⟨fun ho => h.2.1 ho.1, fun ho => h.2.2.1 ho.1⟩, fun h => ⟨hsame, ?_, ?_,
        shared, hleftSound shared hinLeft, hrightSound shared hinRight⟩⟩
      · exact fun ha => h.1 ⟨ha, hancestor, shared, hinLeft, hinRight⟩
      · exact fun ha => h.2 ⟨ha, hdescendant, shared, hinRight, hinLeft⟩
    rw [← hrelated]
    refine ⟨fun h => ?_, fun h => ⟨.inl ?_, fun _ _ => ?_⟩⟩
    · rcases h.decided with ⟨hdecided, -⟩ | ⟨hopen, -⟩
      · rwa [hanswer] at hdecided
      · rw [hanswer] at hopen
        cases hopen
    · rw [hanswer]
      exact ⟨h, rfl⟩
    · rw [hanswer]
      exact h
  rw [if_neg hshared] at hanswer
  have hnot : ¬ store.Overlooks left right ∧ ¬ store.Overlooks right left :=
    ⟨fun ⟨_, _, shared, hinLeft, hinRight⟩ => hshared ⟨shared, hinLeft, hinRight⟩,
      fun ⟨_, _, shared, hinRight, hinLeft⟩ => hshared ⟨shared, hinLeft, hinRight⟩⟩
  by_cases hcut : store.CutShort left right
  · rw [if_pos hcut] at hanswer
    exact iff_of_true ⟨.inr ⟨hanswer, hcut⟩, fun hn hd => absurd hcut (hample hn hd)⟩ hnot
  · rw [if_neg hcut] at hanswer
    rw [CutShort, not_or, Bool.not_eq_true, Bool.not_eq_true] at hcut
    have hrelated : store.Related left right .unrelated := by
      refine ⟨hsame, fun ha => hancestor (hrightAll hcut.2 left ha),
        fun ha => hdescendant (hleftAll hcut.1 right ha), fun ⟨shared, hl, hr⟩ => hshared ?_⟩
      exact ⟨shared, hleftAll hcut.1 shared hl, hrightAll hcut.2 shared hr⟩
    refine iff_of_true ⟨.inl ?_, fun _ _ => ?_⟩ hnot <;> rw [hanswer]
    · exact ⟨hrelated, rfl⟩
    · exact hrelated

theorem Appended.of_foldlM {records : List LineageRecord} {limits : Limits} {store : LineageStore}
    (h : records.foldlM append ({ limits := limits } : LineageStore) = some store) :
    store.Appended := by
  suffices hgrows : ∀ s t : LineageStore, records.foldlM append s = some t →
      Grows (fun _ => True) s t from ⟨limits, hgrows _ _ h⟩
  clear h
  induction records with
  | nil =>
    intro s t h
    cases h
    exact .refl
  | cons record rest ih =>
    intro s t h
    rw [List.foldlM_cons] at h
    obtain ⟨mid, hmid, hrest⟩ := Option.bind_eq_some_iff.mp h
    rw [append] at hmid
    split at hmid
    · rename_i hadmits
      cases hmid
      exact Grows.trans (.push .refl hadmits trivial) (ih _ _ hrest)
    · cases hmid

/-- A record of some components. -/
def kinRecord (sequence : UInt64) (event : LineageEventKind)
    (lineage : MembershipDigest → LineageId) (left right : LineageId) (names : List String) :
    LineageRecord :=
  let members : List ComponentId := names.map (named _)
  { sequence := ⟨sequence⟩
    lineage := lineage (computeMembershipDigest members)
    generation := ⟨1⟩
    membership := computeMembershipDigest members
    members := members
    event := event
    parentLeft := left
    parentRight := right
    epoch := ⟨1⟩
    boot := default
    decision := named _ "d1" }

/-- Three components part from the third one, and the first two from each other; then the first one
merges with the third. -/
def kin : List LineageRecord :=
  let whole := kinRecord 1 .genesis genesisLineageId .nil .nil ["a", "b", "c"]
  let pair := kinRecord 2 .split (splitLineageId whole.lineage) whole.lineage .nil ["a", "b"]
  let third := kinRecord 3 .split (splitLineageId whole.lineage) whole.lineage .nil ["c"]
  let first := kinRecord 4 .split (splitLineageId pair.lineage) pair.lineage .nil ["a"]
  let merged := kinRecord 5 .merge (fun _ => mergeLineageId first.lineage third.lineage)
    first.lineage third.lineage ["a", "c"]
  [whole, pair, third, first, merged]

/-- The lineage of the record at a position. -/
def kinLineage (store : LineageStore) (i : Nat) : LineageId :=
  (store.records.map LineageRecord.lineage).getD i .nil

/-- Three lineages may be visited, and the pair the first component came from would be the fourth: the
walks share the whole, and the pair is said to have diverged from its descendant. -/
theorem truncated_ancestor_divergent :
    ∃ store ∈ kin.foldlM append ({ limits := { maxLineageWalkNodes := 3 } } : LineageStore),
      store.Appended ∧ store.contains (kinLineage store 1) = true ∧
        store.contains (kinLineage store 4) = true ∧
        store.Ancestor (kinLineage store 1) (kinLineage store 4) ∧
        store.relate (kinLineage store 1) (kinLineage store 4) = (.divergent, false) := by
  have hrun : ∃ store ∈ kin.foldlM append
        ({ limits := { maxLineageWalkNodes := 3 } } : LineageStore),
      store.contains (kinLineage store 1) = true ∧ store.contains (kinLineage store 4) = true ∧
        store.Parent (kinLineage store 4) (kinLineage store 3) ∧
        store.Parent (kinLineage store 3) (kinLineage store 1) ∧
        store.relate (kinLineage store 1) (kinLineage store 4) = (.divergent, false) := by
    decide +kernel
  obtain ⟨store, hstore, hleft, hright, hfirst, hpair, hanswer⟩ := hrun
  exact ⟨store, hstore, .of_foldlM hstore, hleft, hright, .tail (.single hfirst) hpair, hanswer⟩

theorem ample_ancestor_found :
    ∃ store ∈ (kin.take 2).foldlM append ({ limits := {} } : LineageStore),
      store.relate (kinLineage store 0) (kinLineage store 1) = (.ancestorOf, false) ∧
        store.SoundAnswer (kinLineage store 0) (kinLineage store 1) := by
  have hrun : ∃ store ∈ (kin.take 2).foldlM append ({ limits := {} } : LineageStore),
      store.contains (kinLineage store 0) = true ∧ store.contains (kinLineage store 1) = true ∧
        store.Parent (kinLineage store 1) (kinLineage store 0) ∧
        store.relate (kinLineage store 0) (kinLineage store 1) = (.ancestorOf, false) ∧
        kinLineage store 0
          ∈ (store.collectAncestors (kinLineage store 1) store.limits).visited := by
    decide +kernel
  obtain ⟨store, hstore, hwhole, hpair, hparent, hanswer, hvisited⟩ := hrun
  have happended : store.Appended := .of_foldlM hstore
  have hancestor : store.Ancestor (kinLineage store 0) (kinLineage store 1) := .single hparent
  exact ⟨store, hstore, hanswer, (relate_sound_iff happended hwhole hpair).mpr
    ⟨fun h => h.2.1 hvisited, fun h => happended.not_mutual h.1 hancestor⟩⟩

end LineageStore

end FabricPartition
