import FabricPartition.Run

/-!
# Queries that agree

The runtime keeps its partitions twice: the list its checks read, and the one of its last assessment.
An assessment that completes writes both.  Two operations write one of them only: a roster that
supersedes another marks the first list, and an assessment refused on a closed runtime empties the
second.  **The queries agree throughout a run if and only if neither happens to a list that it
changes** (`queries_agree_iff`).

`Displays` says that what the queries read is as it was; the operations other than these two keep
to it, but for at most one assessment of an open runtime.
-/

set_option autoImplicit false

namespace FabricPartition

namespace PartitionRuntime

/-- `current_partitions` is the list of `last_assessment`, and `find_partition` finds exactly the
identities in it. -/
def QueriesAgree (r : PartitionRuntime) : Prop :=
  r.partitions = r.assessment.partitions ∧
    ∀ id, (r.partitionById id).isSome = true ↔ ∃ p ∈ r.assessment.partitions, p.id = id

/-- The second half follows from the first. -/
theorem queriesAgree_iff {r : PartitionRuntime} :
    r.QueriesAgree ↔ r.partitions = r.assessment.partitions := by
  refine ⟨And.left, fun h => ⟨h, fun id => ?_⟩⟩
  rw [partitionById, List.find?_isSome, h]
  simp

/-- Without a roster there are no partitions. -/
def Rostered (r : PartitionRuntime) : Prop := r.partitions ≠ [] → r.rosterSet = true

/-- What the queries read is as it was, and so is what decides whether an assessment is refused. -/
structure Displays (r r' : PartitionRuntime) : Prop where
  partitions : r'.partitions = r.partitions
  assessment : r'.assessment = r.assessment
  closed : r'.closed = r.closed
  roster : r'.rosterSet = r.rosterSet

namespace Displays

variable {r s t : PartitionRuntime}

theorem trans (h : Displays r s) (h' : Displays s t) : Displays r t :=
  ⟨h'.partitions.trans h.partitions, h'.assessment.trans h.assessment, h'.closed.trans h.closed,
    h'.roster.trans h.roster⟩

theorem agree (h : Displays r s) (hr : r.partitions = r.assessment.partitions) :
    s.partitions = s.assessment.partitions := by
  rw [h.partitions, h.assessment, hr]

theorem rostered (h : Displays r s) (hr : r.Rostered) : s.Rostered := by
  rw [Rostered, h.partitions, h.roster]
  exact hr

end Displays

theorem Quiet.displays {r r' : PartitionRuntime} (h : Quiet r r') : Displays r r' := by
  obtain ⟨_, _, _, _, _, -, rfl⟩ := h
  exact ⟨rfl, rfl, rfl, rfl⟩

theorem Stored.displays {type : DurableRecordType} {r r' : PartitionRuntime}
    (h : Stored type r r') : Displays r r' := by
  obtain ⟨_, -, rfl⟩ := h
  exact ⟨rfl, rfl, rfl, rfl⟩

theorem Fenced.displays {ns : List AuthoritySequence} {r r' : PartitionRuntime} (h : Fenced ns r r') :
    Displays r r' := by
  obtain ⟨_, _, _, -, -, -, rfl⟩ := h
  exact ⟨rfl, rfl, rfl, rfl⟩

theorem Interrupted.displays {ps : List Partition} {r r' : PartitionRuntime}
    (h : Interrupted ps r r') : Displays r r' := by
  obtain ⟨_, _, -, -, hfenced⟩ := h
  exact ⟨hfenced.displays.partitions, hfenced.displays.assessment, hfenced.displays.closed,
    hfenced.displays.roster⟩

theorem Touch.displays {r r' : PartitionRuntime} (h : Touch r r') : Displays r r' := by
  rcases h with hq | hst | tick | policy | hint | hf | isolations | keep | ⟨lineage, sequence⟩ | ack |
    effect
  · exact hq.displays
  · exact hst.displays
  · exact ⟨rfl, rfl, rfl, rfl⟩
  · exact ⟨rfl, rfl, rfl, rfl⟩
  · exact hint.displays
  · exact hf.displays
  · exact ⟨rfl, rfl, rfl, rfl⟩
  · exact ⟨rfl, rfl, rfl, rfl⟩
  · exact ⟨rfl, rfl, rfl, rfl⟩
  · exact ⟨rfl, rfl, rfl, rfl⟩
  · exact ⟨rfl, rfl, rfl, rfl⟩

theorem Touches.displays {r r' : PartitionRuntime} (h : Touches r r') : Displays r r' := by
  induction h with
  | refl => exact ⟨rfl, rfl, rfl, rfl⟩
  | tail _ hlast ih => exact ih.trans hlast.displays

/-! ## Assessments -/

/-- **An assessment of an open runtime** writes both lists, or neither. -/
theorem assessLocked_agree {allowRestore : Bool} {r : PartitionRuntime} (hopen : r.closed = false)
    (hrostered : r.Rostered) (hr : r.partitions = r.assessment.partitions) :
    (assessLocked allowRestore r).2.partitions
      = (assessLocked allowRestore r).2.assessment.partitions := by
  have hleaves := assessLocked_leaves allowRestore r
  rcases hrun : assessLocked allowRestore r with ⟨res, r'⟩
  rw [hrun] at hleaves
  rcases assessLocked_cases hrun with ⟨hrefused, s, assessment, hq, hr', -, hres⟩ | ⟨-, rfl⟩ |
    ⟨generation, -, -, -, ⟨-, hq⟩ | ⟨outcome, -, hs⟩⟩
  · have hset : ¬ r.rosterSet = true := by
      rcases hrefused with hclosed | hset
      · simp [hopen] at hclosed
      · simp [hset]
    have hnil : r.partitions = [] := by
      by_contra hne
      exact hset (hrostered hne)
    have hparts : r'.partitions = r.partitions := by
      rw [hr']
      exact hq.displays.partitions
    rw [hparts]
    rcases hres with ⟨a, rfl, ha⟩ | rfl
    · rw [show r'.assessment = a from hleaves, ha, hnil]
    · rw [show r'.assessment = r.assessment from hleaves, hr]
  · exact hr
  · exact hq.displays.agree hr
  · obtain ⟨-, -, _, _, _, _, _, _, _, _, _, -, rfl⟩ := hs.cases
    rfl

/-- A decision without an identity is finalized exactly while there are numbers left. -/
theorem finalizeDecision_returns {decision : Decision} (hnil : decision.id = .nil)
    (r : PartitionRuntime) :
    (r.state.decisionSequence.next = none ∧ ∃ e, (finalizeDecision decision r).1 = .error e) ∨
      r.state.decisionSequence.next ≠ none ∧ ∃ d, (finalizeDecision decision r).1 = .ok d := by
  have hid : ¬ (!decision.id.isNil) = true := by simp [TextId.isNil_iff.mpr hnil]
  unfold finalizeDecision
  rw [Act.bind_apply, assignDecisionIdentity, Act.read_bind, if_neg hid]
  rcases r.state.decisionSequence.next with _ | sequence
  · exact .inl ⟨rfl, _, rfl⟩
  · exact .inr ⟨by simp, _, rfl⟩

/-- **A refused assessment** empties one list, unless no decision can be drawn. -/
theorem refuseAssessment_lists (code : ReasonCode) (subject detail : String) (clear : Bool)
    (r : PartitionRuntime) :
    (refuseAssessment code subject detail clear r).2.partitions = r.partitions ∧
      (refuseAssessment code subject detail clear r).2.assessment.partitions
        = if r.state.decisionSequence.next = none then r.assessment.partitions else [] := by
  unfold refuseAssessment
  rw [Act.read_bind, Act.bind_apply]
  generalize hdecision : r.explain (r.makeDecision .assessFabric .invalid fabricScope) code
    (ascii subject) (ascii detail) = decision
  have hnil : decision.id = .nil := by
    rw [← hdecision]
    rfl
  have hreturns := finalizeDecision_returns hnil r
  rcases hrun : finalizeDecision decision r with ⟨e | d, s⟩
  · rw [hrun] at hreturns
    have hdisplays := (finalizeDecision_cases hrun).1.displays
    rcases hreturns with ⟨hnone, -⟩ | ⟨-, d, hd⟩
    · rw [if_pos hnone]
      exact ⟨hdisplays.partitions, congrArg PartitionAssessment.partitions hdisplays.assessment⟩
    · cases hd
  · rw [hrun] at hreturns
    have hdisplays := (finalizeDecision_cases hrun).1.displays
    rcases hreturns with ⟨-, e, he⟩ | ⟨hsome, -⟩
    · cases he
    · rw [if_neg hsome]
      exact ⟨hdisplays.partitions, rfl⟩

/-- On a closed runtime. -/
theorem assessLocked_closed (allowRestore : Bool) {r : PartitionRuntime} (hclosed : r.closed = true)
    (hr : r.partitions = r.assessment.partitions) :
    (assessLocked allowRestore r).2.partitions
        = (assessLocked allowRestore r).2.assessment.partitions ↔
      (r.state.decisionSequence.next ≠ none → r.partitions = []) := by
  rw [assessLocked, Act.read_bind, if_pos hclosed]
  obtain ⟨hparts, hlast⟩ :=
    refuseAssessment_lists .invalidRequest "runtime" "the runtime is closed" false r
  rw [hparts, hlast]
  split
  · rename_i hnone
    exact ⟨fun _ hsome => absurd hnone hsome, fun _ => hr⟩
  · rename_i hsome
    exact ⟨fun h _ => h, fun h => h hsome⟩

/-! ## Adoptions -/

/-- An adoption that supersedes the roster before it: the definition passes the checks and is
committed, and the fences of the interrupted grants do not run out. -/
def Supersedes (r : PartitionRuntime) (definition : TopologyDefinition) : Prop :=
  r.rosterSet = true ∧
    (∃ roster, r.adoptionCheck definition (r.makeDecision .adoptTopology .observed
      (namedScope .fabric (ascii "fabric"))) = .ok roster) ∧
    (commitRecord .topologyDefinition (encodeTopology definition) r).1 = true ∧
    (interruptAllAuthority .storeSequenceRegression
      (commitRecord .topologyDefinition (encodeTopology definition) r).2).1 = .ok ()

/-- Superseding marks the first list if the interruptions went through, and writes neither if not. -/
theorem supersedePartitions_lists (r : PartitionRuntime) :
    (supersedePartitions r).2.assessment = r.assessment ∧
      (((r.rosterSet = true ∧ (interruptAllAuthority .storeSequenceRegression r).1 = .ok ()) ∧
          (supersedePartitions r).2.partitions
            = r.partitions.map fun p => { p with lifecycle := .superseded }) ∨
        ¬ (r.rosterSet = true ∧ (interruptAllAuthority .storeSequenceRegression r).1 = .ok ()) ∧
          (supersedePartitions r).2.partitions = r.partitions) := by
  rw [supersedePartitions, Act.read_bind]
  split
  · rename_i hset
    rw [Act.bind_apply]
    rcases hrun : interruptAllAuthority .storeSequenceRegression r with ⟨e | _, t⟩ <;>
      obtain ⟨qs, -, hint, -⟩ := interruptAllAuthority_cases hrun
    · exact ⟨hint.displays.assessment, .inr ⟨fun h => (by cases h.2), hint.displays.partitions⟩⟩
    · refine ⟨hint.displays.assessment, .inl ⟨⟨hset, rfl⟩, ?_⟩⟩
      show t.partitions.map _ = _
      rw [hint.displays.partitions]
  · rename_i hset
    exact ⟨rfl, .inr ⟨fun h => hset h.1, rfl⟩⟩

/-- **The lists of an adoption.** -/
theorem adoptTopology_lists (definition : TopologyDefinition) (r : PartitionRuntime) :
    (adoptTopology definition r).2.assessment = r.assessment ∧
      ((r.Supersedes definition ∧ (adoptTopology definition r).2.partitions
          = r.partitions.map fun p => { p with lifecycle := .superseded }) ∨
        ¬ r.Supersedes definition ∧ (adoptTopology definition r).2.partitions = r.partitions) := by
  have hstored := (commitRecord_stored .topologyDefinition (encodeTopology definition) r).displays
  rcases adoptTopology_phases (Prod.eta (adoptTopology definition r)).symm with
    ⟨hq, refused, hrefused⟩ | ⟨roster, hcheck, ⟨s, hcommit, hq⟩ | ⟨s, hcommit, hrest⟩⟩
  · refine ⟨hq.displays.assessment, .inr ⟨?_, hq.displays.partitions⟩⟩
    rintro ⟨-, ⟨roster, hok⟩, -⟩
    rw [hrefused] at hok
    cases hok
  · rw [hcommit] at hstored
    have hdisplays := hstored.trans hq.displays
    refine ⟨hdisplays.assessment, .inr ⟨?_, hdisplays.partitions⟩⟩
    rintro ⟨-, -, hcommitted, -⟩
    rw [hcommit] at hcommitted
    cases hcommitted
  · rw [hcommit] at hstored
    obtain ⟨hlast, hlists⟩ := supersedePartitions_lists s
    have hiff : r.Supersedes definition ↔
        s.rosterSet = true ∧ (interruptAllAuthority .storeSequenceRegression s).1 = .ok () := by
      rw [Supersedes, hcommit, hstored.roster]
      exact ⟨fun h => ⟨h.1, h.2.2.2⟩, fun h => ⟨h.1, ⟨roster, hcheck⟩, rfl, h.2⟩⟩
    rw [hiff, ← hstored.partitions, ← hstored.assessment]
    rcases hrest with ⟨e, hsup⟩ | ⟨t, hsup, hq⟩
    · rw [hsup] at hlast hlists
      exact ⟨hlast, hlists⟩
    · rw [hsup] at hlast hlists
      rw [hq.displays.partitions, hq.displays.assessment]
      exact ⟨hlast, hlists⟩

/-- **The other operations** keep the lists the same. -/
theorem Refreshes.agree {r r' : PartitionRuntime} (h : Refreshes r r') (hrostered : r.Rostered)
    (hr : r.partitions = r.assessment.partitions) : r'.partitions = r'.assessment.partitions := by
  rcases h with h | ⟨allowRestore, s, hopen, hbefore, hafter⟩
  · exact h.displays.agree hr
  · exact hafter.displays.agree (assessLocked_agree (hbefore.displays.closed.trans hopen)
      (hbefore.displays.rostered hrostered) (hbefore.displays.agree hr))

/-! ## Runs -/

/-- The condition under which a call keeps the two lists the same: no assessment is refused on a
closed runtime that has partitions, and no adoption supersedes partitions that are not so marked. -/
def Consistent (r : PartitionRuntime) (c : Call) : Prop :=
  match c.operation with
  | .assess => r.closed = true → r.state.decisionSequence.next ≠ none → r.partitions = []
  | .adoptTopology definition =>
    (r.withFaults c.faults).Supersedes definition → ∀ p ∈ r.partitions, p.lifecycle = .superseded
  | _ => True

theorem superseded_eq_self {ps : List Partition} :
    (ps.map fun p => { p with lifecycle := PartitionLifecycle.superseded }) = ps ↔
      ∀ p ∈ ps, p.lifecycle = .superseded := by
  refine ⟨fun h p hp => ?_, fun h => ?_⟩
  · rw [← h] at hp
    obtain ⟨q, -, rfl⟩ := List.mem_map.mp hp
    rfl
  · refine (List.map_congr_left fun p hp => ?_).trans (List.map_id ps)
    rw [← h p hp]
    rfl

/-- **One call** keeps the lists the same exactly under the condition. -/
theorem call_agree_iff {r : PartitionRuntime} (hrostered : r.Rostered)
    (hr : r.partitions = r.assessment.partitions) (c : Call) :
    (r.call c).2.partitions = (r.call c).2.assessment.partitions ↔ r.Consistent c := by
  have hordinary (h : c.operation.Ordinary) :
      (r.call c).2.partitions = (r.call c).2.assessment.partitions :=
    (perform_refreshes (r.withFaults c.faults) h).agree hrostered hr
  obtain ⟨operation, faults⟩ := c
  rw [call] at hordinary ⊢
  dsimp only at hordinary ⊢
  rcases operation with delta | definition | policy | evidence | _ | request | request | request |
    request | request | ack | effect | _
  case adoptTopology =>
    rw [perform, respond_snd]
    obtain ⟨hlast, ⟨hsupersedes, hlist⟩ | ⟨hnot, hlist⟩⟩ :=
      adoptTopology_lists definition (r.withFaults faults)
    · rw [hlast, hlist]
      show (r.partitions.map _ = r.assessment.partitions) ↔ _
      rw [← hr, superseded_eq_self]
      exact ⟨fun h _ => h, fun h => h hsupersedes⟩
    · rw [hlast, hlist]
      exact ⟨fun _ h => absurd h hnot, fun _ => hr⟩
  case ingestEvidence =>
    rw [perform, respond_snd]
    rcases ingestEvidence_cases (Prod.eta (ingestEvidence evidence (r.withFaults faults))).symm with
      hq | hq
    · exact iff_true_intro (hq.displays.agree hr)
    · exact iff_true_intro (hq.displays.agree hr)
  case assess =>
    rw [perform, respond_snd]
    rcases hclosed : r.closed with _ | _
    · refine ⟨fun _ h => ?_, fun _ => assessLocked_agree hclosed hrostered hr⟩
      rw [hclosed] at h
      cases h
    · have hiff := assessLocked_closed false (r := r.withFaults faults) hclosed hr
      exact hiff.trans ⟨fun h _ => h, fun h => h hclosed⟩
  case close =>
    rw [perform, close]
    split
    · exact iff_true_intro hr
    · exact iff_true_intro hr
  all_goals exact iff_true_intro (hordinary trivial)

/-- Every move keeps a runtime without a roster without partitions. -/
theorem Move.rostered {r r' : PartitionRuntime} (h : Move r r') (hr : r.Rostered) : r'.Rostered := by
  rcases h with hq | hst | faults | tick | evidence | hcanonical | hcreate | _ | ⟨-, hint⟩ |
    ⟨-, hf⟩ | isolations | keep | ⟨-, -⟩ | ack | effect | hgen | ⟨hroster, -, hq⟩ |
    ⟨hroster, -, hs⟩ | store
  · exact hq.displays.rostered hr
  · exact hst.displays.rostered hr
  · exact hr
  · exact hr
  · exact hr
  · exact hr
  · exact fun _ => rfl
  · intro hne
    refine hr fun hnil => hne ?_
    show r.partitions.map _ = []
    rw [hnil]
    rfl
  · exact hint.displays.rostered hr
  · exact hf.displays.rostered hr
  · exact hr
  · exact hr
  · exact hr
  · exact hr
  · exact hr
  · exact hr
  · exact hq.displays.rostered fun _ => hroster
  · obtain ⟨-, -, _, _, _, _, _, _, _, _, _, -, rfl⟩ := hs.cases
    exact fun _ => hroster
  · exact hr

/-- A start leaves both lists empty. -/
theorem construct_lists {options : RuntimeOptions} {disk : Disk} {ids : BootIdentities}
    {faults : List (Option AppendFault)} {r : PartitionRuntime}
    (h : construct options disk ids faults = (.ok (), r)) :
    r.partitions = [] ∧ r.assessment.partitions = [] := by
  have hbooted := construct_booted options disk ids faults
  rw [h] at hbooted
  obtain ⟨t, rfl⟩ := construct_initial h
  exact ⟨hbooted.partitions, rfl⟩

/-- What holds before a run and is kept by the calls that meet a condition, and only by them, holds
throughout the runs whose calls all meet it. -/
theorem agree_throughout_iff {r : PartitionRuntime} (hrostered : r.Rostered)
    (hr : r.partitions = r.assessment.partitions) (cs : List Call) :
    (∀ ds, ds <+: cs → (r.after ds).partitions = (r.after ds).assessment.partitions) ↔
      ∀ s ∈ r.trace cs, s.before.Consistent s.call := by
  induction cs generalizing r with
  | nil =>
    refine ⟨fun _ s hs => (by cases hs), fun _ ds hds => ?_⟩
    rw [List.prefix_nil.mp hds]
    exact hr
  | cons c cs ih =>
    have hstep := call_agree_iff hrostered hr c
    have hnext : (r.call c).2.Rostered :=
      (call_evolves r c).invariant (fun _ _ hmove => hmove.rostered) hrostered
    constructor
    · intro hall s hs
      have hfirst := hall [c] (List.cons_prefix_cons.mpr ⟨rfl, List.nil_prefix⟩)
      rcases List.mem_cons.mp hs with rfl | hs
      · exact hstep.mp hfirst
      · exact (ih hnext hfirst).mp
          (fun ds hds => hall (c :: ds) (List.cons_prefix_cons.mpr ⟨rfl, hds⟩)) s hs
    · intro hall ds hds
      rcases ds with _ | ⟨d, ds⟩
      · exact hr
      · obtain ⟨rfl, htail⟩ := List.cons_prefix_cons.mp hds
        exact (ih hnext (hstep.mpr (hall _ List.mem_cons_self))).mpr
          (fun s hs => hall s (List.mem_cons_of_mem _ hs)) ds htail

/-- **Query agreement.**  In every run of a runtime from every start, the queries agree in every
state reached if and only if every call meets the condition. -/
theorem queries_agree_iff {options : RuntimeOptions} {disk : Disk} {ids : BootIdentities}
    {faults : List (Option AppendFault)} {r : PartitionRuntime}
    (h : construct options disk ids faults = (.ok (), r)) (cs : List Call) :
    (∀ ds, ds <+: cs → (r.after ds).QueriesAgree) ↔
      ∀ s ∈ r.trace cs, s.before.Consistent s.call := by
  obtain ⟨hlist, hlast⟩ := construct_lists h
  simp only [queriesAgree_iff]
  exact agree_throughout_iff (fun hne => absurd hlist hne) (hlist.trans hlast.symm) cs

/-- Two components that see each other are assessed. -/
def assessedCalls : List Call :=
  [⟨.adoptTopology (smallTopology 1 ["a", "b"]), []⟩,
    ⟨.ingestEvidence (smallBundle 1 0 (bothWays [("a", "b")] .reachable)), []⟩, ⟨.assess, []⟩]

/-- The queries agree after the assessment. -/
theorem assessedCalls_agree : (smallRuntime.after assessedCalls).QueriesAgree := by
  refine (queries_agree_iff smallRuntime_started assessedCalls).mpr (fun s hs => ?_) assessedCalls
    (List.prefix_refl _)
  rcases List.mem_cons.mp hs with rfl | hs
  · intro _ p hp
    rw [show smallRuntime.partitions = [] from (construct_lists smallRuntime_started).1] at hp
    cases hp
  rcases List.mem_cons.mp hs with rfl | hs
  · trivial
  rw [List.mem_singleton.mp hs]
  intro hclosed
  exact absurd hclosed (by decide +kernel)

/-- Closing the runtime and asking for one more assessment empties one list and not the other. -/
theorem queries_disagree :
    ¬ ∀ (options : RuntimeOptions) (disk : Disk) (ids : BootIdentities)
      (faults : List (Option AppendFault)) (r : PartitionRuntime) (cs : List Call),
      construct options disk ids faults = (.ok (), r) → (r.after cs).QueriesAgree := by
  intro h
  have hagree := h { durable := false } {} default [] smallRuntime
    (assessedCalls ++ [⟨.close, []⟩, ⟨.assess, []⟩]) smallRuntime_started
  have hlists : (smallRuntime.after (assessedCalls ++ [⟨.close, []⟩, ⟨.assess, []⟩])).partitions.length = 1 ∧
      (smallRuntime.after (assessedCalls ++ [⟨.close, []⟩, ⟨.assess, []⟩])).assessment.partitions.length
        = 0 := by
    decide +kernel
  rw [hagree.1] at hlists
  omega

end PartitionRuntime

end FabricPartition
