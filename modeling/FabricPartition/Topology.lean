import FabricPartition.Digest
import FabricPartition.Limits
import Mathlib.Data.List.Sort

/-!
# The authoritative roster

`topology.hpp`.  A roster is a topology definition put into canonical order.  The order is a field
of the structure — strictly increasing and without the nil component — so that the index of a
component, the membership of a partition and the reachability resolution never have to re-establish
it.  The default roster is unset; `create` is the only way to a set one.
-/

set_option autoImplicit false

namespace FabricPartition

/-- A topology definition as it is published: in any order. -/
structure TopologyDefinition where
  id : TopologyId
  generation : TopologyGeneration
  provenance : Provenance
  components : List ComponentId
  deriving DecidableEq

/-- The components of a definition in canonical order. -/
def sortedComponents (components : List ComponentId) : List ComponentId :=
  components.insertionSort (· ≤ ·)

/-- Feed a list of identifiers to the hasher, each with its length. -/
def updateTexts {tag : IdTag} (hasher : Sha256) (ids : List (TextId tag)) : Sha256 :=
  ids.foldl (fun h id => h.updateText id.text) hasher

/-- `compute_roster_digest`. -/
def computeRosterDigest (definition : TopologyDefinition) : MembershipDigest :=
  let sorted := sortedComponents definition.components
  let hasher := (({} : Sha256).updateText (ascii "fabric-partition-manager/roster/v1")).updateText
    definition.id.text
  let hasher := (hasher.updateBe64 definition.generation.value).updateText
    definition.provenance.text
  ⟨(updateTexts (hasher.updateBe64 (UInt64.ofNat sorted.length)) sorted).finish⟩

/-- `compute_membership_digest`. -/
def computeMembershipDigest (sortedMembers : List ComponentId) : MembershipDigest :=
  let hasher := ({} : Sha256).updateText (ascii "fabric-partition-manager/membership/v1")
  ⟨(updateTexts (hasher.updateBe64 (UInt64.ofNat sortedMembers.length)) sortedMembers).finish⟩

/-- A component roster. -/
structure ComponentRoster where
  id : TopologyId := .nil
  generation : TopologyGeneration := .zero
  provenance : Provenance := .nil
  /-- The components in canonical order. -/
  components : List ComponentId := []
  digest : MembershipDigest := default
  /-- `is_set`: a default roster is unset, a created one is set even when it is empty. -/
  set : Bool := false
  /-- The canonical order has no repetition. -/
  sorted : components.Pairwise (· < ·) := by simp
  /-- The nil component is not a member. -/
  nonNil : ∀ c ∈ components, c.isNil = false := by simp
  deriving DecidableEq

namespace ComponentRoster

/-- Does any component of a sorted list repeat its predecessor? -/
def repeatsComponent : List ComponentId → Bool
  | [] => false
  | [_] => false
  | a :: b :: rest => b == a || repeatsComponent (b :: rest)

theorem pairwise_lt_of_sorted {l : List ComponentId} (hle : l.Pairwise (· ≤ ·))
    (h : repeatsComponent l = false) : l.Pairwise (· < ·) := by
  induction l with
  | nil => exact List.Pairwise.nil
  | cons a l ih =>
    cases l with
    | nil => simp
    | cons b rest =>
      simp only [repeatsComponent, Bool.or_eq_false_iff, beq_eq_false_iff_ne] at h
      have htail := ih hle.of_cons h.2
      refine List.Pairwise.cons ?_ htail
      intro c hc
      have hab : a < b := lt_of_le_of_ne (List.rel_of_pairwise_cons hle List.mem_cons_self)
        (Ne.symm h.1)
      rcases List.mem_cons.mp hc with rfl | hc
      · exact hab
      · exact hab.trans (List.rel_of_pairwise_cons htail hc)

/-- `ComponentRoster::create`. -/
def create (definition : TopologyDefinition) (limits : Limits) : Option ComponentRoster :=
  let components := sortedComponents definition.components
  if definition.id.isNil then none
  else if definition.components.length > limits.maxComponents then none
  else if hnil : ∀ c ∈ components, c.isNil = false then
    if hrep : repeatsComponent components = false then
      some
        { id := definition.id
          generation := definition.generation
          provenance := definition.provenance
          components := components
          digest := computeRosterDigest definition
          set := true
          sorted := pairwise_lt_of_sorted (List.pairwise_insertionSort _ _) hrep
          nonNil := hnil }
    else none
  else none

/-- `ComponentRoster::size`. -/
def size (r : ComponentRoster) : Nat := r.components.length

/-- `ComponentRoster::contains`. -/
def contains (r : ComponentRoster) (c : ComponentId) : Bool := r.components.contains c

/-- `ComponentRoster::index_of`. -/
def indexOf (r : ComponentRoster) (c : ComponentId) : Option Nat := r.components.idxOf? c

theorem nodup (r : ComponentRoster) : r.components.Nodup :=
  r.sorted.imp fun h => ne_of_lt h

theorem indexOf_eq_some {r : ComponentRoster} {c : ComponentId} {i : Nat} :
    r.indexOf c = some i ↔ r.components[i]? = some c := by
  constructor
  · intro h
    obtain ⟨hi, hc, -⟩ := List.idxOf?_eq_some_iff.mp h
    rw [List.getElem?_eq_getElem hi, hc]
  · intro h
    obtain ⟨hi, hc⟩ := List.getElem?_eq_some_iff.mp h
    refine List.idxOf?_eq_some_iff.mpr ⟨hi, hc, ?_⟩
    intro j hj hcj
    have : j = i := (r.nodup.getElem_inj_iff).mp (hcj.trans hc.symm)
    omega

theorem indexOf_lt {r : ComponentRoster} {c : ComponentId} {i : Nat} (h : r.indexOf c = some i) :
    i < r.size :=
  (List.getElem?_eq_some_iff.mp (indexOf_eq_some.mp h)).1

end ComponentRoster

end FabricPartition
