import FabricPartition.Ledger
import FabricPartition.Topology
import Mathlib.Data.UInt

/-!
# Synthetic fabrics

`synthetic.cpp` makes a roster and one bundle of evidence from a list of group sizes: a random
spanning tree for each group, some more edges inside the groups, and no edge between two of them.
Tests and benchmarks compare what the detection finds with the groups the fixture was made from.

The trees need no luck: each index is linked to an earlier one of its group (`Spanning`), whatever is
drawn.  `buildSyntheticFabric_madeOf` says what the builder makes: groups that share the components
out in order, and observations of edges that span them and join no two.

The generator is splitmix64.  It rejects draws until one is below its limit; the state runs through
all 64-bit words, and the word that the state zero gives is never rejected, so the loop ends.
-/

set_option autoImplicit false

namespace FabricPartition

/-! ## The generator -/

/-- `DeterministicRandom`. -/
structure DeterministicRandom where
  state : UInt64

namespace DeterministicRandom

/-- What is added to the state at each draw. -/
def increment : UInt64 := 0x9E3779B97F4A7C15

/-- `next_u64`. -/
def nextU64 (random : DeterministicRandom) : UInt64 × DeterministicRandom :=
  let state := random.state + increment
  let value := (state ^^^ (state >>> 30)) * 0xBF58476D1CE4E5B9
  let value := (value ^^^ (value >>> 27)) * 0x94D049BB133111EB
  (value ^^^ (value >>> 31), ⟨state⟩)

/-- How many draws there are before the state is zero. -/
def distance (random : DeterministicRandom) : Nat :=
  if random.state = 0 then 2 ^ 64 else (-random.state * 0xF1DE83E19937733D).toNat

theorem distance_lt {random : DeterministicRandom} (h : random.nextU64.2.state ≠ 0) :
    random.nextU64.2.distance < random.distance := by
  rw [distance, if_neg h, distance]
  have hback : -random.nextU64.2.state * 0xF1DE83E19937733D
      = -random.state * 0xF1DE83E19937733D - 1 := by
    show -(random.state + 0x9E3779B97F4A7C15) * 0xF1DE83E19937733D = _
    grind
  rw [hback]
  split
  · exact UInt64.toNat_lt _
  · rename_i hstate
    have hne : -random.state * 0xF1DE83E19937733D ≠ 0 := fun hzero => hstate (by grind)
    have hone : (1 : UInt64) ≤ -random.state * 0xF1DE83E19937733D := by grind
    rw [UInt64.toNat_sub_of_le _ _ hone, UInt64.toNat_one]
    have hpos := UInt64.le_iff_toNat_le.mp hone
    rw [UInt64.toNat_one] at hpos
    omega

theorem nextU64_of_zero {random : DeterministicRandom} (h : random.nextU64.2.state = 0) :
    random.nextU64.1 = 0 := by
  have hstate : random.state + increment = 0 := h
  rw [nextU64, hstate]
  decide

/-- The loop of `next_below`. -/
def search (limit bound : UInt64) (hlimit : 0 < limit) (random : DeterministicRandom) :
    UInt32 × DeterministicRandom :=
  let value := random.nextU64.1 &&& 0xFFFFFFFF
  if _h : value < limit then ((value % bound).toUInt32, random.nextU64.2)
  else search limit bound hlimit random.nextU64.2
termination_by random.distance
decreasing_by
  refine distance_lt fun hzero => _h ?_
  show random.nextU64.1 &&& 0xFFFFFFFF < limit
  rwa [nextU64_of_zero hzero, UInt64.zero_and]

theorem limit_pos {bound : UInt32} (h : ¬ bound < 2) :
    0 < (0x100000000 / bound.toUInt64) * bound.toUInt64 := by
  have hbound : 2 ≤ bound.toNat := Nat.not_lt.mp fun hlt => h (UInt32.lt_iff_toNat_lt.mpr hlt)
  have hsmall := bound.toNat_lt
  have hquotient : 1 ≤ 2 ^ 32 / bound.toNat := Nat.div_pos (by omega) (by omega)
  have hproduct := Nat.div_mul_le_self (2 ^ 32) bound.toNat
  rw [UInt64.lt_iff_toNat_lt, UInt64.toNat_mul, UInt64.toNat_div, UInt32.toNat_toUInt64,
    show (0x100000000 : UInt64).toNat = 2 ^ 32 from rfl,
    Nat.mod_eq_of_lt (hproduct.trans_lt (by decide))]
  exact Nat.mul_pos hquotient (by omega)

/-- `next_below`. -/
def nextBelow (random : DeterministicRandom) (bound : UInt32) : UInt32 × DeterministicRandom :=
  if h : bound < 2 then (0, random)
  else
    search ((0x100000000 / bound.toUInt64) * bound.toUInt64) bound.toUInt64 (limit_pos h) random

theorem search_lt {limit bound : UInt64} (hlimit : 0 < limit) (hbound : 0 < bound.toNat)
    (hsmall : bound.toNat < 2 ^ 32) (random : DeterministicRandom) :
    (search limit bound hlimit random).1.toNat < bound.toNat := by
  induction random using search.induct limit hlimit with
  | case1 random value hvalue =>
    rw [search, dif_pos hvalue]
    have hlt := Nat.mod_lt value.toNat hbound
    show ((value % bound).toUInt32).toNat < _
    rw [UInt64.toNat_toUInt32, UInt64.toNat_mod, Nat.mod_eq_of_lt (hlt.trans hsmall)]
    exact hlt
  | case2 random value hvalue ih =>
    rw [search, dif_neg hvalue]
    exact ih

/-- What is drawn is below the bound. -/
theorem nextBelow_lt (random : DeterministicRandom) (bound : UInt32) (h : 0 < bound.toNat) :
    (random.nextBelow bound).1.toNat < bound.toNat := by
  rw [nextBelow]
  split
  · exact h
  · have hlt := @search_lt _ bound.toUInt64 (limit_pos ‹_›) h bound.toNat_lt random
    rwa [UInt32.toNat_toUInt64] at hlt

end DeterministicRandom

/-! ## The fixture -/

/-- `pad`: the last digits of a number, as many as there are positions. -/
def padded : Nat → Nat → Text
  | 0, _ => []
  | positions + 1, value => padded positions (value / 10) ++ [UInt8.ofNat (48 + value % 10)]

theorem padded_alphanumeric (positions value : Nat) :
    ∀ b ∈ padded positions value, isIdAlphanumeric b = true := by
  have hdigit : ∀ m < 10, isIdAlphanumeric (UInt8.ofNat (48 + m)) = true := by decide
  induction positions generalizing value with
  | zero => simp [padded]
  | succ positions ih =>
    intro b hb
    rcases List.mem_append.mp hb with hb | hb
    · exact ih _ b hb
    · rw [List.mem_singleton.mp hb]
      exact hdigit _ (Nat.mod_lt _ (by decide))

theorem length_padded (positions value : Nat) : (padded positions value).length = positions := by
  induction positions generalizing value with
  | zero => rfl
  | succ positions ih => simp [padded, ih]

theorem isValidId_synthetic (index : Nat) :
    isValidId (IdTag.maxLength .component) (ascii "node" ++ 45 :: padded 10 index) = true := by
  refine isValidId_join (by decide) ?_ ?_ rfl (List.all_eq_true.mp (by decide))
    (padded_alphanumeric 10 index)
  · exact List.ne_nil_of_length_pos (by simp [length_padded])
  · rw [length_padded]
    decide

/-- `synthetic_component_id`. -/
def syntheticComponentId (index : Nat) : ComponentId :=
  .fromValidated (ascii "node" ++ 45 :: padded 10 index) (isValidId_synthetic index)

/-- `SyntheticFabricOptions`. -/
structure SyntheticFabricOptions where
  groupSizes : List UInt32 := []
  extraIntraEdges : UInt32 := 0
  completeCoverage : Bool := true
  seed : UInt64 := 1
  topologyGeneration : TopologyGeneration := .zero
  reachabilityGeneration : ReachabilityGeneration := .zero
  observedAtTick : UInt64 := 0
  validityTicks : UInt64 := 1000000
  publisher : PublisherId := .nil
  evidenceId : EvidenceId := .nil
  provenance : Provenance := .nil

/-- `SyntheticFabric`. -/
structure SyntheticFabric where
  components : List ComponentId
  topology : TopologyDefinition
  evidence : ReachabilityEvidence
  groups : List (List ComponentId)

/-- The sum of the group sizes, in checked arithmetic. -/
def totalSize (sizes : List UInt32) : Option UInt64 :=
  sizes.foldlM (fun total size => checkedAdd total size.toUInt64) 0

/-- The offsets of `build_common`, in pairs: where a group begins, and where it ends. -/
def groupSpans : UInt32 → List UInt32 → List (UInt32 × UInt32)
  | _, [] => []
  | running, size :: sizes => (running, running + size) :: groupSpans (running + size) sizes

/-- `build_common`: the fixture with neither groups nor observations. -/
def buildCommon (options : SyntheticFabricOptions) (limits : Limits) (boot : PublisherBootId) :
    Option SyntheticFabric :=
  match totalSize options.groupSizes with
  | none => none
  | some total =>
    if total = 0 ∨ total.toNat > limits.maxComponents then none
    else
      let components := (List.range total.toNat).map syntheticComponentId
      some
        { components := components
          topology :=
            { id := .fromValidated (ascii "synthetic.topology") (by decide)
              generation := options.topologyGeneration
              provenance := .fromValidated (ascii "synthetic") (by decide)
              components := components }
          evidence :=
            { id :=
                if options.evidenceId.isNil then
                  .fromValidated (ascii "synthetic.evidence") (by decide)
                else options.evidenceId
              sequence := ⟨1⟩
              publisher :=
                if options.publisher.isNil then
                  .fromValidated (ascii "synthetic.publisher") (by decide)
                else options.publisher
              publisherBoot := boot
              topologyGeneration := options.topologyGeneration
              generation := options.reachabilityGeneration
              observedAtTick := options.observedAtTick
              validityTicks := options.validityTicks
              completeness := if options.completeCoverage then .complete else .partialCoverage
              provenance :=
                if options.provenance.isNil then .fromValidated (ascii "synthetic") (by decide)
                else options.provenance }
          groups := [] }

/-- The generator, and the observations made so far. -/
structure Sketch where
  random : DeterministicRandom
  observations : List LinkObservation := []

/-- The two observations of an edge. -/
def observeEdge (components : List ComponentId) (lhs rhs : Nat) : List LinkObservation :=
  let a := components.getD lhs .nil
  let b := components.getD rhs .nil
  [⟨a, b, .reachable⟩, ⟨b, a, .reachable⟩]

/-- The indices from one offset up to another. -/
def indicesBetween (start stop : UInt32) : List UInt32 :=
  (List.range' start.toNat (stop.toNat - start.toNat)).map UInt32.ofNat

namespace Sketch

/-- The edge that joins an index to the tree of its group. -/
def attach (components : List ComponentId) (start : UInt32) (sketch : Sketch) (index : UInt32) :
    Sketch :=
  let draw := sketch.random.nextBelow (index - start)
  let parent := start + draw.1
  { random := draw.2
    observations := sketch.observations ++ observeEdge components index.toNat parent.toNat }

/-- One more edge of a group, if two different ends are drawn. -/
def addExtra (components : List ComponentId) (start span : UInt32) (sketch : Sketch) : Sketch :=
  let first := sketch.random.nextBelow span
  let second := first.2.nextBelow span
  let lhs := start + first.1
  let rhs := start + second.1
  if lhs = rhs then { sketch with random := second.2 }
  else
    { random := second.2
      observations := sketch.observations ++ observeEdge components lhs.toNat rhs.toNat }

/-- The loop over the extra edges, which a group of fewer than two members leaves at once. -/
def addExtras (components : List ComponentId) (start span : UInt32) : Nat → Sketch → Sketch
  | 0, sketch => sketch
  | count + 1, sketch =>
    if span < 2 then sketch
    else addExtras components start span count (sketch.addExtra components start span)

/-- The edges of a group: a spanning tree, and some more. -/
def addGroup (components : List ComponentId) (extra : UInt32) (sketch : Sketch)
    (span : UInt32 × UInt32) : Sketch :=
  ((indicesBetween (span.1 + 1) span.2).foldl (attach components span.1) sketch).addExtras
    components span.1 (span.2 - span.1) extra.toNat

end Sketch

/-- `finalize`: observations and coverage in canonical order. -/
def SyntheticFabric.finalize (fabric : SyntheticFabric) (options : SyntheticFabricOptions) :
    SyntheticFabric :=
  { fabric with
    evidence :=
      { fabric.evidence with
        observations := canonicalObservations fabric.evidence.observations
        coveredSources :=
          sortedComponents
            (if options.completeCoverage then fabric.components
             else fabric.evidence.coveredSources) } }

/-- `build_synthetic_fabric`. -/
def buildSyntheticFabric (options : SyntheticFabricOptions) (limits : Limits)
    (boot : PublisherBootId) : Option SyntheticFabric :=
  match buildCommon options limits boot with
  | none => none
  | some fabric =>
    let spans := groupSpans 0 options.groupSizes
    let sketch := spans.foldl (Sketch.addGroup fabric.components options.extraIntraEdges)
      { random := ⟨options.seed⟩ }
    let groups := spans.map fun span =>
      (indicesBetween span.1 span.2).map fun index => fabric.components.getD index.toNat .nil
    if sketch.observations.length > limits.maxObservationsPerEvidence then none
    else
      some (SyntheticFabric.finalize
        { fabric with
          groups := groups
          evidence := { fabric.evidence with observations := sketch.observations } } options)

/-- `checked_narrow_u32`. -/
def checkedNarrowU32 (value : Nat) : Option UInt32 :=
  if value > 0xFFFFFFFF then none else some (UInt32.ofNat value)

/-- `build_synthetic_sparse_chain`: one group of the given length, and groups of one. -/
def buildSyntheticSparseChain (options : SyntheticFabricOptions) (chainLength isolatedCount : Nat)
    (limits : Limits) (boot : PublisherBootId) : Option SyntheticFabric :=
  match checkedNarrowU32 chainLength, checkedNarrowU32 isolatedCount with
  | some chain, some _ =>
    let sizes := (if chainLength ≠ 0 then [chain] else []) ++ List.replicate isolatedCount 1
    buildSyntheticFabric { options with groupSizes := sizes, extraIntraEdges := 0 } limits boot
  | _, _ => none

/-! ## The edges that are drawn -/

/-- The observations of some edges, given by their indices. -/
def observeEdges (components : List ComponentId) (edges : List (Nat × Nat)) :
    List LinkObservation :=
  edges.flatMap fun edge => observeEdge components edge.1 edge.2

/-- Edges inside a group, each between two members. -/
def EdgesInside (start stop : Nat) (edges : List (Nat × Nat)) : Prop :=
  ∀ e ∈ edges, (start ≤ e.1 ∧ e.1 < stop) ∧ (start ≤ e.2 ∧ e.2 < stop) ∧ e.1 ≠ e.2

/-- Edges that span a group: every index behind the first is joined to an earlier one. -/
structure Spanning (start stop : Nat) (edges : List (Nat × Nat)) : Prop where
  inside : EdgesInside start stop edges
  joined : ∀ i, start < i → i < stop → ∃ j, start ≤ j ∧ j < i ∧ (i, j) ∈ edges

theorem EdgesInside.append {start stop : Nat} {es fs : List (Nat × Nat)}
    (h : EdgesInside start stop es) (h' : EdgesInside start stop fs) :
    EdgesInside start stop (es ++ fs) := by
  intro e he
  exact (List.mem_append.mp he).elim (h e) (h' e)

theorem mem_indicesBetween {start stop i : UInt32} :
    i ∈ indicesBetween start stop ↔ start.toNat ≤ i.toNat ∧ i.toNat < stop.toNat := by
  have hstop := stop.toNat_lt
  simp only [indicesBetween, List.mem_map, List.mem_range'_1]
  constructor
  · rintro ⟨k, hk, rfl⟩
    rw [UInt32.toNat_ofNat_of_lt' (show k < UInt32.size by have : UInt32.size = 2 ^ 32 := rfl; omega)]
    omega
  · intro h
    exact ⟨i.toNat, by omega, UInt32.ofNat_toNat⟩

namespace Sketch

variable {components : List ComponentId}

/-- A sketch with the observations of some more edges. -/
def Extends (components : List ComponentId) (edges : List (Nat × Nat)) (sketch later : Sketch) :
    Prop :=
  later.observations = sketch.observations ++ observeEdges components edges

theorem Extends.trans {es fs : List (Nat × Nat)} {a b c : Sketch}
    (h : Extends components es a b) (h' : Extends components fs b c) :
    Extends components (es ++ fs) a c := by
  rw [Extends] at *
  rw [h', h, List.append_assoc, observeEdges, observeEdges, observeEdges, List.flatMap_append]

theorem Extends.refl (sketch : Sketch) : Extends components [] sketch sketch :=
  (List.append_nil _).symm

variable (components)

/-- The edge of an index leads to an earlier index of its group. -/
theorem attach_extends (start : UInt32) (sketch : Sketch) {index : UInt32}
    (h : start.toNat < index.toNat) :
    ∃ j, start.toNat ≤ j ∧ j < index.toNat ∧
      Extends components [(index.toNat, j)] sketch (attach components start sketch index) := by
  have hbehind : (index - start).toNat = index.toNat - start.toNat :=
    UInt32.toNat_sub_of_le _ _ (UInt32.le_iff_toNat_le.mpr h.le)
  have hdraw := sketch.random.nextBelow_lt (index - start) (by omega)
  have hindex := index.toNat_lt
  have hparent : (start + (sketch.random.nextBelow (index - start)).1).toNat
      = start.toNat + (sketch.random.nextBelow (index - start)).1.toNat := by
    rw [UInt32.toNat_add]
    omega
  refine ⟨_, ?_, ?_, by rw [Extends, observeEdges, List.flatMap_singleton, attach]⟩ <;> omega

/-- **The loop over the members** joins each to an earlier one. -/
theorem foldl_attach_extends (start : UInt32) (stop : Nat) {indices : List UInt32}
    (hindices : ∀ i ∈ indices, start.toNat < i.toNat ∧ i.toNat < stop) (sketch : Sketch) :
    ∃ edges, EdgesInside start.toNat stop edges ∧
      (∀ i ∈ indices, ∃ j, start.toNat ≤ j ∧ j < i.toNat ∧ (i.toNat, j) ∈ edges) ∧
      Extends components edges sketch (indices.foldl (attach components start) sketch) := by
  induction indices generalizing sketch with
  | nil => exact ⟨[], by simp [EdgesInside], by simp, .refl sketch⟩
  | cons index indices ih =>
    have hindex := hindices index List.mem_cons_self
    obtain ⟨j, hj, hlt, hfirst⟩ := attach_extends components start sketch hindex.1
    obtain ⟨edges, hinside, hjoined, hrest⟩ :=
      ih (fun i hi => hindices i (List.mem_cons_of_mem _ hi)) (attach components start sketch index)
    refine ⟨[(index.toNat, j)] ++ edges, ?_, ?_, hfirst.trans hrest⟩
    · refine EdgesInside.append ?_ hinside
      intro e he
      rw [List.mem_singleton.mp he]
      dsimp only
      omega
    · intro i hi
      rcases List.mem_cons.mp hi with rfl | hi
      · exact ⟨j, hj, hlt, by simp⟩
      · obtain ⟨k, hk, hki, hmem⟩ := hjoined i hi
        exact ⟨k, hk, hki, List.mem_append_right _ hmem⟩

/-- An extra edge is one between two members, or there is none. -/
theorem addExtra_extends {start span : UInt32} (hspan : 0 < span.toNat)
    (hfits : start.toNat + span.toNat < 2 ^ 32) (sketch : Sketch) :
    ∃ edges, EdgesInside start.toNat (start.toNat + span.toNat) edges ∧
      Extends components edges sketch (sketch.addExtra components start span) := by
  have hfirst := sketch.random.nextBelow_lt span hspan
  have hsecond := (sketch.random.nextBelow span).2.nextBelow_lt span hspan
  rw [addExtra]
  split
  · exact ⟨[], by simp [EdgesInside], .refl sketch⟩
  · rename_i hne
    have hplace : ∀ draw : UInt32, draw.toNat < span.toNat →
        (start + draw).toNat = start.toNat + draw.toNat := by
      intro draw hdraw
      rw [UInt32.toNat_add]
      omega
    refine ⟨[(_, _)], ?_, by rw [Extends, observeEdges, List.flatMap_singleton]⟩
    intro e he
    rw [List.mem_singleton.mp he]
    have hdiffer : (start + (sketch.random.nextBelow span).1).toNat
        ≠ (start + ((sketch.random.nextBelow span).2.nextBelow span).1).toNat :=
      fun heq => hne (UInt32.toNat_inj.mp heq)
    rw [hplace _ hfirst, hplace _ hsecond] at hdiffer ⊢
    dsimp only
    omega

theorem addExtras_extends {start span : UInt32} (hfits : start.toNat + span.toNat < 2 ^ 32)
    (count : Nat) (sketch : Sketch) :
    ∃ edges, EdgesInside start.toNat (start.toNat + span.toNat) edges ∧
      Extends components edges sketch (sketch.addExtras components start span count) := by
  induction count generalizing sketch with
  | zero => exact ⟨[], by simp [EdgesInside], .refl sketch⟩
  | succ count ih =>
    rw [addExtras]
    split
    · exact ⟨[], by simp [EdgesInside], .refl sketch⟩
    · rename_i hspan
      have hpos : 2 ≤ span.toNat := Nat.not_lt.mp fun hlt => hspan (UInt32.lt_iff_toNat_lt.mpr hlt)
      obtain ⟨es, hes, hfirst⟩ := addExtra_extends components (by omega) hfits sketch
      obtain ⟨fs, hfs, hrest⟩ := ih (sketch.addExtra components start span)
      exact ⟨es ++ fs, hes.append hfs, hfirst.trans hrest⟩

/-- **The edges of a group span it**, whatever is drawn. -/
theorem addGroup_extends (extra : UInt32) (sketch : Sketch) {span : UInt32 × UInt32}
    (hspan : span.1.toNat ≤ span.2.toNat) (hfits : span.2.toNat + 1 < 2 ^ 32) :
    ∃ edges, Spanning span.1.toNat span.2.toNat edges ∧
      Extends components edges sketch (sketch.addGroup components extra span) := by
  have hnext : (span.1 + 1).toNat = span.1.toNat + 1 := by
    rw [UInt32.toNat_add, UInt32.toNat_one]
    omega
  have hsize : (span.2 - span.1).toNat = span.2.toNat - span.1.toNat :=
    UInt32.toNat_sub_of_le _ _ (UInt32.le_iff_toNat_le.mpr hspan)
  have hmembers : ∀ i ∈ indicesBetween (span.1 + 1) span.2,
      span.1.toNat < i.toNat ∧ i.toNat < span.2.toNat := by
    intro i hi
    have hi := mem_indicesBetween.mp hi
    omega
  obtain ⟨tree, hinside, hjoined, htree⟩ := foldl_attach_extends components span.1 span.2.toNat hmembers
    sketch
  have hwhole : span.1.toNat + (span.2 - span.1).toNat < 2 ^ 32 := by omega
  obtain ⟨more, hmore, hextras⟩ := addExtras_extends components hwhole extra.toNat
    ((indicesBetween (span.1 + 1) span.2).foldl (attach components span.1) sketch)
  rw [hsize, Nat.add_sub_cancel' hspan] at hmore
  refine ⟨tree ++ more, ⟨hinside.append hmore, fun i hlt hi => ?_⟩, htree.trans hextras⟩
  have hi' : (UInt32.ofNat i).toNat = i := UInt32.toNat_ofNat_of_lt' (by
    have hwide : UInt32.size = 2 ^ 32 := rfl
    omega)
  obtain ⟨j, hj, hji, hmem⟩ := hjoined (UInt32.ofNat i) (mem_indicesBetween.mpr (by omega))
  rw [hi'] at hji hmem
  exact ⟨j, hj, hji, List.mem_append_left _ hmem⟩

end Sketch

/-! ## The groups share the indices out -/

/-- The indices of a group. -/
def spanIndices (span : UInt32 × UInt32) : List Nat :=
  List.range' span.1.toNat (span.2.toNat - span.1.toNat)

/-- Groups that cover a stretch of indices, one behind the other. -/
structure Tiles (low high : Nat) (spans : List (UInt32 × UInt32)) : Prop where
  flatten : (spans.map spanIndices).flatten = List.range' low (high - low)
  bounds : ∀ s ∈ spans, low ≤ s.1.toNat ∧ s.1.toNat ≤ s.2.toNat ∧ s.2.toNat ≤ high
  ordered : spans.Pairwise fun s t => s.2.toNat ≤ t.1.toNat

theorem mem_spanIndices {span : UInt32 × UInt32} {i : Nat} :
    i ∈ spanIndices span ↔ span.1.toNat ≤ i ∧ i < span.2.toNat := by
  rw [spanIndices, List.mem_range'_1]
  omega

/-- **The offsets tile the indices**, as long as their sums do not wrap. -/
theorem groupSpans_tiles (running : UInt32) (sizes : List UInt32)
    (h : running.toNat + (sizes.map UInt32.toNat).sum < 2 ^ 32) :
    Tiles running.toNat (running.toNat + (sizes.map UInt32.toNat).sum)
      (groupSpans running sizes) := by
  induction sizes generalizing running with
  | nil => exact ⟨by simp [groupSpans], by simp [groupSpans], by simp [groupSpans]⟩
  | cons size sizes ih =>
    rw [List.map_cons, List.sum_cons] at h ⊢
    have hnext : (running + size).toNat = running.toNat + size.toNat := by
      rw [UInt32.toNat_add]
      omega
    have hrest := ih (running + size) (by omega)
    rw [hnext] at hrest
    rw [groupSpans]
    refine ⟨?_, ?_, ?_⟩
    · rw [List.map_cons, List.flatten_cons, hrest.flatten, spanIndices, hnext]
      have hfirst := List.range'_append_1 (s := running.toNat) (m := size.toNat)
        (n := (sizes.map UInt32.toNat).sum)
      rw [Nat.add_sub_cancel_left, Nat.add_sub_cancel_left,
        show running.toNat + (size.toNat + (sizes.map UInt32.toNat).sum) - running.toNat
          = size.toNat + (sizes.map UInt32.toNat).sum by omega, ← hfirst]
    · intro s hs
      rcases List.mem_cons.mp hs with rfl | hs
      · dsimp only
        omega
      · have := hrest.bounds s hs
        omega
    · refine List.Pairwise.cons (fun s hs => ?_) hrest.ordered
      have := hrest.bounds s hs
      dsimp only
      omega

theorem groupSpans_sizes (running : UInt32) (sizes : List UInt32)
    (h : running.toNat + (sizes.map UInt32.toNat).sum < 2 ^ 32) :
    (groupSpans running sizes).map (fun s => (spanIndices s).length) = sizes.map UInt32.toNat := by
  induction sizes generalizing running with
  | nil => rfl
  | cons size sizes ih =>
    rw [List.map_cons, List.sum_cons] at h
    have hnext : (running + size).toNat = running.toNat + size.toNat := by
      rw [UInt32.toNat_add]
      omega
    rw [groupSpans, List.map_cons, List.map_cons, ih _ (by omega), spanIndices, List.length_range',
      hnext, Nat.add_sub_cancel_left]

theorem checkedAdd_toNat {lhs rhs total : UInt64} (h : checkedAdd lhs rhs = some total) :
    total.toNat = lhs.toNat + rhs.toNat := by
  rw [checkedAdd] at h
  split at h
  · cases h
  · rename_i hle
    cases h
    have hmax : (0xFFFFFFFFFFFFFFFF - lhs).toNat = 2 ^ 64 - 1 - lhs.toNat := by
      rw [UInt64.toNat_sub_of_le _ _ (UInt64.le_iff_toNat_le.mpr ?_)]
      · rfl
      · have := lhs.toNat_lt
        exact Nat.le_of_lt_succ this
    have hrhs : rhs.toNat ≤ 2 ^ 64 - 1 - lhs.toNat := by
      rw [← hmax]
      exact UInt64.le_iff_toNat_le.mp (UInt64.not_lt.mp hle)
    have := lhs.toNat_lt
    rw [UInt64.toNat_add]
    omega

theorem totalSize_toNat {sizes : List UInt32} {total : UInt64} (h : totalSize sizes = some total) :
    total.toNat = (sizes.map UInt32.toNat).sum := by
  have hfold : ∀ (sizes : List UInt32) (low total : UInt64),
      sizes.foldlM (fun total size => checkedAdd total size.toUInt64) low = some total →
      total.toNat = low.toNat + (sizes.map UInt32.toNat).sum := by
    intro sizes
    induction sizes with
    | nil =>
      intro low total h
      cases h
      simp
    | cons size sizes ih =>
      intro low total h
      rw [List.foldlM_cons] at h
      obtain ⟨next, hnext, hrest⟩ := Option.bind_eq_some_iff.mp h
      rw [ih next total hrest, checkedAdd_toNat hnext, UInt32.toNat_toUInt64, List.map_cons,
        List.sum_cons, Nat.add_assoc]
  simpa using hfold sizes 0 total h

/-- The edges drawn for all groups. -/
structure Drawn (spans : List (UInt32 × UInt32)) (edges : List (Nat × Nat)) : Prop where
  inside : ∀ e ∈ edges, ∃ s ∈ spans, e.1 ∈ spanIndices s ∧ e.2 ∈ spanIndices s ∧ e.1 ≠ e.2
  joined : ∀ s ∈ spans, ∀ i ∈ spanIndices s,
    i = s.1.toNat ∨ ∃ j < i, j ∈ spanIndices s ∧ (i, j) ∈ edges

theorem Sketch.foldl_addGroup_extends (components : List ComponentId) (extra : UInt32)
    {spans : List (UInt32 × UInt32)}
    (hspans : ∀ s ∈ spans, s.1.toNat ≤ s.2.toNat ∧ s.2.toNat + 1 < 2 ^ 32) (sketch : Sketch) :
    ∃ edges, Drawn spans edges ∧
      Extends components edges sketch (spans.foldl (addGroup components extra) sketch) := by
  induction spans generalizing sketch with
  | nil => exact ⟨[], ⟨by simp, by simp⟩, .refl sketch⟩
  | cons span spans ih =>
    have hspan := hspans span List.mem_cons_self
    obtain ⟨es, hes, hfirst⟩ := addGroup_extends components extra sketch hspan.1 hspan.2
    obtain ⟨fs, hfs, hrest⟩ := ih (fun s hs => hspans s (List.mem_cons_of_mem _ hs))
      (sketch.addGroup components extra span)
    refine ⟨es ++ fs, ⟨fun e he => ?_, fun s hs i hi => ?_⟩, hfirst.trans hrest⟩
    · rcases List.mem_append.mp he with he | he
      · obtain ⟨h₁, h₂, hne⟩ := hes.inside e he
        exact ⟨span, List.mem_cons_self, mem_spanIndices.mpr h₁, mem_spanIndices.mpr h₂, hne⟩
      · obtain ⟨s, hs, h⟩ := hfs.inside e he
        exact ⟨s, List.mem_cons_of_mem _ hs, h⟩
    · rcases List.mem_cons.mp hs with rfl | hs
      · have hmem := mem_spanIndices.mp hi
        rcases hmem.1.eq_or_lt with heq | hlt
        · exact .inl heq.symm
        · obtain ⟨j, hj, hji, he⟩ := hes.joined i hlt hmem.2
          exact .inr ⟨j, hji, mem_spanIndices.mpr ⟨hj, hji.trans hmem.2⟩,
            List.mem_append_left _ he⟩
      · refine (hfs.joined s hs i hi).imp_right fun ⟨j, hji, hj, he⟩ => ?_
        exact ⟨j, hji, hj, List.mem_append_right _ he⟩

/-! ## The identifiers -/

/-- The first digit comes off the front as well. -/
theorem padded_succ (positions value : Nat) :
    padded (positions + 1) value
      = UInt8.ofNat (48 + value / 10 ^ positions % 10) :: padded positions value := by
  induction positions generalizing value with
  | zero => simp [padded]
  | succ positions ih =>
    rw [padded, ih, List.cons_append, Nat.div_div_eq_div_mul, ← Nat.pow_succ']
    rfl

/-- Padded numbers are ordered as the numbers are, as far as the digits show them. -/
theorem padded_lt {positions : Nat} {v w : Nat} (h : v % 10 ^ positions < w % 10 ^ positions) :
    (padded positions v).map UInt8.toNat < (padded positions w).map UInt8.toNat := by
  induction positions with
  | zero =>
    rw [pow_zero, Nat.mod_one, Nat.mod_one] at h
    exact absurd h (lt_irrefl 0)
  | succ positions ih =>
    have hdigit : ∀ m < 10, (UInt8.ofNat (48 + m)).toNat = 48 + m := by decide
    have hv := hdigit _ (Nat.mod_lt (v / 10 ^ positions) (by decide))
    have hw := hdigit _ (Nat.mod_lt (w / 10 ^ positions) (by decide))
    rw [padded_succ, padded_succ, List.map_cons, List.map_cons, hv, hw, List.cons_lt_cons_iff]
    rw [Nat.mod_pow_succ, Nat.mod_pow_succ] at h
    rcases Nat.lt_trichotomy (v / 10 ^ positions % 10) (w / 10 ^ positions % 10)
      with hlt | heq | hgt
    · exact .inl (Nat.add_lt_add_left hlt 48)
    · rw [heq] at h ⊢
      exact .inr ⟨rfl, ih (Nat.lt_of_add_lt_add_right h)⟩
    · have hmul := Nat.mul_le_mul_left (10 ^ positions) (Nat.succ_le_of_lt hgt)
      have hlt := Nat.mod_lt w (Nat.pow_pos (n := positions) (show 0 < 10 by decide))
      rw [Nat.mul_succ] at hmul
      omega

theorem syntheticComponentId_lt {i j : Nat} (h : i < j) (hj : j < 10 ^ 10) :
    syntheticComponentId i < syntheticComponentId j := by
  have hdigits : (padded 10 i).map UInt8.toNat < (padded 10 j).map UInt8.toNat :=
    padded_lt (by rwa [Nat.mod_eq_of_lt (h.trans hj), Nat.mod_eq_of_lt hj])
  show (ascii "node" ++ 45 :: padded 10 i).map UInt8.toNat
    < (ascii "node" ++ 45 :: padded 10 j).map UInt8.toNat
  rw [List.map_append, List.map_append, List.map_cons, List.map_cons]
  exact List.append_left_lt (List.cons_lt_cons_self.mpr hdigits)

theorem syntheticComponentId_inj {i j : Nat} (hi : i < 10 ^ 10) (hj : j < 10 ^ 10) :
    syntheticComponentId i = syntheticComponentId j ↔ i = j := by
  refine ⟨fun h => ?_, fun h => h ▸ rfl⟩
  rcases Nat.lt_trichotomy i j with hlt | heq | hgt
  · exact absurd h (syntheticComponentId_lt hlt hj).ne
  · exact heq
  · exact absurd h.symm (syntheticComponentId_lt hgt hi).ne

theorem syntheticComponents_sorted (total : Nat) (h : total < 10 ^ 10) :
    ((List.range total).map syntheticComponentId).Pairwise (· < ·) := by
  rw [List.pairwise_map]
  refine List.pairwise_lt_range.imp_of_mem fun hi hj hlt => ?_
  exact syntheticComponentId_lt hlt ((List.mem_range.mp hj).trans h)

/-! ## The roster -/

theorem ComponentRoster.repeatsComponent_of_sorted {l : List ComponentId}
    (h : l.Pairwise (· < ·)) : ComponentRoster.repeatsComponent l = false := by
  induction l with
  | nil => rfl
  | cons a l ih =>
    rcases l with _ | ⟨b, rest⟩
    · rfl
    · have hab : b ≠ a := (List.rel_of_pairwise_cons h List.mem_cons_self).ne'
      rw [repeatsComponent, ih h.of_cons, Bool.or_false]
      exact beq_eq_false_iff_ne.mpr hab

theorem sortedComponents_of_sorted {l : List ComponentId} (h : l.Pairwise (· < ·)) :
    sortedComponents l = l :=
  List.Pairwise.insertionSort_eq (h.imp le_of_lt)

/-- **A definition in canonical order makes a roster of the same components.** -/
theorem ComponentRoster.create_of_sorted (definition : TopologyDefinition) (limits : Limits)
    (hid : definition.id.isNil = false) (hbound : definition.components.length ≤ limits.maxComponents)
    (hsorted : definition.components.Pairwise (· < ·))
    (hnil : ∀ c ∈ definition.components, c.isNil = false) :
    ∃ roster, ComponentRoster.create definition limits = some roster ∧
      roster.components = definition.components ∧ roster.generation = definition.generation ∧
      roster.set = true := by
  have hsame := sortedComponents_of_sorted hsorted
  rw [ComponentRoster.create, if_neg (by simp [hid]), if_neg (by omega), dif_pos (by rwa [hsame]),
    dif_pos (by rw [hsame]; exact repeatsComponent_of_sorted hsorted)]
  exact ⟨_, rfl, hsame, rfl, rfl⟩

/-! ## What is built -/

theorem mem_destutter_ne {α : Type} [DecidableEq α] {l : List α} {x : α} :
    x ∈ l.destutter (· ≠ ·) ↔ x ∈ l := by
  have hfrom : ∀ (l : List α) (a : α), x ∈ l.destutter' (· ≠ ·) a ↔ x ∈ a :: l := by
    intro l
    induction l with
    | nil => simp
    | cons b l ih =>
      intro a
      by_cases hab : a = b
      · rw [List.destutter'_cons_neg l (by simpa using hab), ih, hab]
        simp
      · rw [List.destutter'_cons_pos l hab, List.mem_cons, ih, List.mem_cons (l := b :: l)]
  rcases l with _ | ⟨a, l⟩
  · rfl
  · exact hfrom l a

theorem mem_canonicalObservations {observations : List LinkObservation} {o : LinkObservation} :
    o ∈ canonicalObservations observations ↔ o ∈ observations := by
  rw [canonicalObservations, mem_destutter_ne, List.mem_insertionSort]

/-- What a fixture is made of: groups that share its components out, and edges that span them. -/
structure SyntheticFabric.MadeOf (fabric : SyntheticFabric) (options : SyntheticFabricOptions)
    (total : Nat) (spans : List (UInt32 × UInt32)) (edges : List (Nat × Nat)) : Prop where
  positive : 0 < total
  small : total + 1 < 2 ^ 32
  tiles : Tiles 0 total spans
  drawn : Drawn spans edges
  sized : spans.map (fun s => (spanIndices s).length) = options.groupSizes.map UInt32.toNat
  components : fabric.components = (List.range total).map syntheticComponentId
  groups : fabric.groups = spans.map fun s => (spanIndices s).map syntheticComponentId
  named : fabric.topology.id.isNil = false
  listed : fabric.topology.components = fabric.components
  dated : fabric.evidence.topologyGeneration = fabric.topology.generation
  observed : ∀ o, o ∈ fabric.evidence.observations ↔ o ∈ observeEdges fabric.components edges
  once : fabric.evidence.observations.Nodup
  covered : fabric.evidence.coveredSources
    = if options.completeCoverage then fabric.components else []
  complete : fabric.evidence.completeness = .complete ↔ options.completeCoverage = true

theorem getD_syntheticComponents {total i : Nat} (h : i < total) :
    ((List.range total).map syntheticComponentId).getD i .nil = syntheticComponentId i := by
  simp [List.getD_eq_getElem?_getD, h]

/-- **The builder** makes such a fixture, of no more components than the limits allow. -/
theorem buildSyntheticFabric_madeOf {options : SyntheticFabricOptions} {limits : Limits}
    {boot : PublisherBootId} {fabric : SyntheticFabric} (hlimits : limits.maxComponents + 1 < 2 ^ 32)
    (h : buildSyntheticFabric options limits boot = some fabric) :
    ∃ total spans edges, fabric.MadeOf options total spans edges ∧ total ≤ limits.maxComponents := by
  rw [buildSyntheticFabric, buildCommon] at h
  cases htotal : totalSize options.groupSizes with
  | none => simp [htotal] at h
  | some total =>
    simp only [htotal] at h
    by_cases hrefused : total = 0 ∨ total.toNat > limits.maxComponents
    · simp [hrefused] at h
    · simp only [if_neg hrefused] at h
      split at h
      · cases h
      · cases h
        obtain ⟨hne, hle⟩ := not_or.mp hrefused
        have hpos : 0 < total.toNat :=
          Nat.pos_of_ne_zero fun hzero => hne (UInt64.toNat_inj.mp hzero)
        have hsum := totalSize_toNat htotal
        have htiles := groupSpans_tiles 0 options.groupSizes (by
          rw [UInt32.toNat_zero]
          omega)
        rw [UInt32.toNat_zero, Nat.zero_add, ← hsum] at htiles
        have hspans : ∀ s ∈ groupSpans 0 options.groupSizes,
            s.1.toNat ≤ s.2.toNat ∧ s.2.toNat + 1 < 2 ^ 32 := by
          intro s hs
          have := htiles.bounds s hs
          omega
        obtain ⟨edges, hdrawn, hextends⟩ := Sketch.foldl_addGroup_extends
          ((List.range total.toNat).map syntheticComponentId) options.extraIntraEdges hspans
          { random := ⟨options.seed⟩ }
        have hsorted := syntheticComponents_sorted total.toNat (by omega)
        refine ⟨total.toNat, groupSpans 0 options.groupSizes, edges, ?_, by omega⟩
        refine
          { positive := hpos
            small := by omega
            tiles := htiles
            drawn := hdrawn
            sized := groupSpans_sizes 0 options.groupSizes (by
              rw [UInt32.toNat_zero]
              omega)
            components := rfl
            groups := ?_
            named := rfl
            listed := rfl
            dated := rfl
            observed := fun o => mem_canonicalObservations.trans (by rw [hextends]; rfl)
            once := canonicalObservations_nodup _
            covered := ?_
            complete := ?_ }
        · refine List.map_congr_left fun s hs => ?_
          rw [indicesBetween, List.map_map, spanIndices]
          refine List.map_congr_left fun i hi => ?_
          have hi := List.mem_range'_1.mp hi
          have hbounds := htiles.bounds s hs
          have hwide : UInt32.size = 2 ^ 32 := rfl
          rw [Function.comp_apply, UInt32.toNat_ofNat_of_lt' (by omega),
            getD_syntheticComponents (by omega)]
        · show sortedComponents _ = _
          cases options.completeCoverage
          · rfl
          · exact sortedComponents_of_sorted hsorted
        · show (if options.completeCoverage then EvidenceCompleteness.complete
            else .partialCoverage) = .complete ↔ _
          cases options.completeCoverage <;> simp

end FabricPartition
