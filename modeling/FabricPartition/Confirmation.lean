import FabricPartition.Accounting

/-!
# What CONFIRMED means

Evidence is partial, and every pair it leaves open could turn out either way.  A *world* is one way
it could: a relation that says of each ordered pair whether it is really connected, and that
contradicts nothing the resolution proves.  Two components belong together in a world when they are
joined by pairs connected in both directions.

The decomposition of a snapshot never puts two components together that some world keeps apart
(`decomposition_holds_in_every_world`, first half); and when the snapshot is confirmed, no world
puts two components together that the decomposition keeps apart: **all the worlds agree**, and the
decomposition is what they agree on.
-/

set_option autoImplicit false

namespace FabricPartition

/-- A world contradicts nothing a context resolves: what is proven reachable is connected, and what
is proven unreachable is not. -/
structure Admits (ctx : ResolutionContext) (roster : ComponentRoster)
    (world : ComponentId → ComponentId → Prop) : Prop where
  reachable : ∀ s < roster.size, ∀ t < roster.size, s ≠ t →
    ctx.resolveOrdered s t = .reachable → world (roster.at s) (roster.at t)
  unreachable : ∀ s < roster.size, ∀ t < roster.size, s ≠ t →
    ctx.resolveOrdered s t = .unreachable → ¬ world (roster.at s) (roster.at t)

/-- Two members of the roster that a world connects in both directions. -/
def WorldLink (roster : ComponentRoster) (world : ComponentId → ComponentId → Prop)
    (a b : ComponentId) : Prop :=
  a ∈ roster.components ∧ b ∈ roster.components ∧ world a b ∧ world b a

/-- Two components belong together in a world. -/
def Together (roster : ComponentRoster) (world : ComponentId → ComponentId → Prop) :
    ComponentId → ComponentId → Prop :=
  Relation.EqvGen (WorldLink roster world)

section Worlds

variable {roster : ComponentRoster} {ctx : ResolutionContext}
  {rule : ComponentId → ComponentId → PairResolution}
  (hrule : ∀ s < roster.size, ∀ t < roster.size,
    ctx.resolveOrdered s t = rule (roster.at s) (roster.at t))
  {world : ComponentId → ComponentId → Prop} (hworld : Admits ctx roster world)

include hrule hworld

/-- A usable edge is connected in every world. -/
theorem Link.worldLink {a b : ComponentId} (h : Link roster rule a b) :
    WorldLink roster world a b := by
  obtain ⟨ha, hb, hne, hjoin⟩ := h
  obtain ⟨s, hs, rfl⟩ := ComponentRoster.exists_at ha
  obtain ⟨t, ht, rfl⟩ := ComponentRoster.exists_at hb
  have hst : s ≠ t := fun heq => hne (by rw [heq])
  rw [joinDirections_eq_reachable_iff, ← hrule s hs t ht, ← hrule t ht s hs] at hjoin
  exact ⟨ha, hb, hworld.reachable s hs t ht hst hjoin.1,
    hworld.reachable t ht s hs hst.symm hjoin.2⟩

theorem Connected.together {a b : ComponentId} (h : Connected roster rule a b) :
    Together roster world a b :=
  Relation.EqvGen.mono (fun _ _ (hab : Link roster rule _ _) => hab.worldLink hrule hworld) a b h

/-- Across a boundary that is proven unreachable no world has a link. -/
theorem WorldLink.connected (hconfirmed : ReferenceConfirmed roster rule) {a b : ComponentId}
    (h : WorldLink roster world a b) : Connected roster rule a b := by
  obtain ⟨ha, hb, hab, -⟩ := h
  by_cases hne : a = b
  · rw [hne]
    exact .refl b
  · by_contra hcon
    have hunreachable := hconfirmed a ha b hb hne hcon
    obtain ⟨s, hs, rfl⟩ := ComponentRoster.exists_at ha
    obtain ⟨t, ht, rfl⟩ := ComponentRoster.exists_at hb
    have hst : s ≠ t := fun heq => hne (by rw [heq])
    exact hworld.unreachable s hs t ht hst ((hrule s hs t ht).trans hunreachable) hab

theorem Together.connected (hconfirmed : ReferenceConfirmed roster rule) {a b : ComponentId}
    (h : Together roster world a b) : Connected roster rule a b := by
  induction h with
  | rel a b hab => exact hab.connected hrule hworld hconfirmed
  | refl a => exact .refl a
  | symm a b _ ih => exact ih.symm
  | trans a b c _ _ ih1 ih2 => exact ih1.trans _ _ _ ih2

end Worlds

/-- The labels of a snapshot, in terms of the usable edges of the documented rule. -/
theorem componentOf_eq_iff {roster : ComponentRoster} {evidence : List ReachabilityEvidence}
    {policy : Option PartitionPolicy} {tick : UInt64} {limits : Limits} (hset : roster.set = true)
    (hform : ∀ b ∈ evidence, LedgerForm roster b) {s t : Nat} (hs : s < roster.size)
    (ht : t < roster.size) :
    let snapshot := buildReachabilitySnapshot roster evidence policy tick limits
    snapshot.componentOf.getD s 0 = snapshot.componentOf.getD t 0 ↔
      Connected roster (evidenceRule roster evidence policy tick) (roster.at s) (roster.at t) := by
  dsimp only
  have hregular := @evidenceContext_regular roster (policyAge policy) tick limits evidence hform
  obtain ⟨hedges, hlabels, -⟩ :=
    buildReachabilitySnapshot_eq hset (Nat.ne_zero_of_lt hs) evidence policy tick limits
  rw [hedges] at hlabels
  rw [hlabels, (componentLabels_canonical (provenEdges_lt hregular)).eq_iff s hs t ht]
  exact eqvGen_edges_iff hregular (fun _ hs _ ht => resolveOrdered_eq_rule hform hs ht) hs ht

/-- **What CONFIRMED means.**  In every world the evidence admits, components with one label belong
together; and when the snapshot is confirmed, components belong together exactly when they have one
label. -/
theorem decomposition_holds_in_every_world {roster : ComponentRoster}
    {evidence : List ReachabilityEvidence} (policy : Option PartitionPolicy) (tick : UInt64)
    (limits : Limits) (hset : roster.set = true) (hform : ∀ b ∈ evidence, LedgerForm roster b)
    {world : ComponentId → ComponentId → Prop}
    (hworld : Admits (evidenceContext roster (policyAge policy) tick limits evidence) roster world) :
    let snapshot := buildReachabilitySnapshot roster evidence policy tick limits
    (∀ s < roster.size, ∀ t < roster.size,
        snapshot.componentOf.getD s 0 = snapshot.componentOf.getD t 0 →
        Together roster world (roster.at s) (roster.at t))
      ∧ (snapshot.confirmed = true → ∀ s < roster.size, ∀ t < roster.size,
        (snapshot.componentOf.getD s 0 = snapshot.componentOf.getD t 0 ↔
          Together roster world (roster.at s) (roster.at t))) := by
  dsimp only
  have hrule : ∀ s < roster.size, ∀ t < roster.size,
      (evidenceContext roster (policyAge policy) tick limits evidence).resolveOrdered s t
        = evidenceRule roster evidence policy tick (roster.at s) (roster.at t) :=
    fun s hs t ht => resolveOrdered_eq_rule hform hs ht
  have hrefines : ∀ s < roster.size, ∀ t < roster.size,
      (buildReachabilitySnapshot roster evidence policy tick limits).componentOf.getD s 0
        = (buildReachabilitySnapshot roster evidence policy tick limits).componentOf.getD t 0 →
      Together roster world (roster.at s) (roster.at t) := by
    intro s hs t ht hlabel
    exact ((componentOf_eq_iff hset hform hs ht).mp hlabel).together hrule hworld
  refine ⟨hrefines, fun hconfirmed s hs t ht => ⟨hrefines s hs t ht, fun htogether => ?_⟩⟩
  have hreference := (snapshot_accounting_exact roster evidence policy tick limits hset
    (Nat.ne_zero_of_lt hs) hform).2.1.mp hconfirmed
  exact (componentOf_eq_iff hset hform hs ht).mpr (htogether.connected hrule hworld hreference)

/-- The two components that reach each other belong together in the world where everything is
connected, and the snapshot says so. -/
theorem decomposition_holds_in_connected_world :
    (buildReachabilitySnapshot pairRoster [pairEvidence] none 0 defaultLimits).confirmed = true
      ∧ Together pairRoster (fun _ _ => True) (pairRoster.at 0) (pairRoster.at 1) := by
  have hworld : Admits (evidenceContext pairRoster (policyAge none) 0 defaultLimits [pairEvidence])
      pairRoster (fun _ _ => True) := by
    refine ⟨fun _ _ _ _ _ _ => trivial, ?_⟩
    have hresolve : ∀ s < pairRoster.size, ∀ t < pairRoster.size, s ≠ t →
        (evidenceContext pairRoster (policyAge none) 0 defaultLimits [pairEvidence]).resolveOrdered
          s t ≠ .unreachable := by decide +kernel
    exact fun s hs t ht hst h => absurd h (hresolve s hs t ht hst)
  refine ⟨by decide +kernel, ?_⟩
  exact (decomposition_holds_in_every_world none 0 defaultLimits rfl pairEvidence_ledgerForm
    hworld).1 0 (by decide) 1 (by decide) (by decide +kernel)

end FabricPartition
