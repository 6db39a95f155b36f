import FabricPartition.Incarnations

/-!
# An adopted topology is durable

`adopt_topology` commits the definition as its caller wrote it, and puts in force the roster that
`ComponentRoster::create` makes of a sorted copy.  `decode_members` demands that the components are
listed in strictly increasing order.  A restart reads back the definitions whose caller has sorted
them, and throws on every other (`decodeTopology_accepted_iff`).
-/

set_option autoImplicit false

namespace FabricPartition

namespace TopologyDefinition

variable {definition : TopologyDefinition} {limits : Limits} {roster : ComponentRoster}

/-- The components are listed in the order `decode_members` demands, and fit its count. -/
structure Readable (definition : TopologyDefinition) : Prop where
  ordered : definition.components.Pairwise (· < ·)
  counted : definition.components.length < 2 ^ 32

theorem length_le_of_create (h : ComponentRoster.create definition limits = some roster) :
    definition.components.length ≤ limits.maxComponents := by
  by_contra hlong
  rw [ComponentRoster.create] at h
  split at h
  · cases h
  · rw [if_pos (Nat.lt_of_not_le hlong)] at h
    cases h

/-- **What is accepted, against what is restored.** -/
theorem fitsIn_accepted_iff (h : ComponentRoster.create definition limits = some roster) :
    definition.FitsIn limits ↔ definition.Readable :=
  ⟨fun ⟨⟨_, hcounted⟩, hordered⟩ => ⟨hordered, hcounted⟩,
    fun ⟨hordered, hcounted⟩ => ⟨⟨length_le_of_create h, hcounted⟩, hordered⟩⟩

/-- The image of an accepted definition is decoded to it, or not to it. -/
theorem decodeTopology_accepted_iff (h : ComponentRoster.create definition limits = some roster) :
    decodeTopology (encodeTopology definition) limits = some definition ↔ definition.Readable := by
  rw [decodeTopology, (codec_topology limits).whole_iff, fitsIn_accepted_iff h, and_iff_left rfl]

end TopologyDefinition

namespace PartitionRuntime

/-! ## What was committed -/

/-- The last topology definition among some records. -/
structure LastTopology (records front : List DurableRecord) (record : DurableRecord) : Prop where
  splits : ∃ back, records = front ++ record :: back ∧
    ∀ later ∈ back, later.type ≠ .topologyDefinition
  type : record.type = .topologyDefinition

/-- The record behind given ones is the only one there. -/
theorem LastTopology.unique {records front : List DurableRecord} {record record' : DurableRecord}
    (h : LastTopology records front record) (h' : LastTopology records front record') :
    record = record' := by
  obtain ⟨⟨back, rfl, -⟩, -⟩ := h
  obtain ⟨⟨back', heq, -⟩, -⟩ := h'
  exact (List.cons.inj (List.append_cancel_left heq)).1

/-- What a quiet move adds to the journal is no topology. -/
theorem Quiet.no_topology {r r' : PartitionRuntime} (h : Quiet r r') :
    r'.roster = r.roster ∧ r'.topology = r.topology ∧ r'.rosterSet = r.rosterSet ∧
      ∃ extra, Journal.records r'.journal = Journal.records r.journal ++ extra ∧
        ∀ later ∈ extra, later.type ≠ .topologyDefinition := by
  obtain ⟨_, _, _, _, j, hdecisions, rfl⟩ := h
  obtain ⟨extra, hextra, htypes⟩ := hdecisions.records
  refine ⟨rfl, rfl, rfl, extra, hextra, fun later hlater => ?_⟩
  rw [show later.type = .decisionRecord from htypes later hlater]
  decide

/-- **What `adopt_topology` commits** when it takes effect: the definition of its caller, and no
topology behind it.  The roster made of the definition is in force then. -/
theorem adoptTopology_commits {definition : TopologyDefinition} {r r' : PartitionRuntime}
    {d : Decision} {store : DurableStore} (hstore : r.store = some store)
    (hrun : adoptTopology definition r = (.ok d, r')) (hgranted : d.verdict = .granted) :
    ComponentRoster.create definition r.limits = some r'.roster ∧ r'.topology = definition ∧
      r'.rosterSet = true ∧
      ∃ sequence, LastTopology (Journal.records r'.journal) store.records
        ⟨.topologyDefinition, sequence, encodeTopology definition⟩ := by
  rcases adoptTopology_cases hrun with ⟨-, -, -, hrefused⟩ |
    ⟨roster, s, -, hcreate, hcommit, ⟨-, hq, -⟩ | ⟨-, qs, t, -, hint, ⟨-, he⟩ | ⟨-, hq, -⟩⟩⟩
  · exact absurd hgranted (hrefused d rfl)
  · have hjournal : commitJournal .topologyDefinition (encodeTopology definition) r.journal
        = (true, s.journal) := congrArg (fun outcome => (outcome.1, outcome.2.journal)) hcommit
    rw [journal, hstore] at hjournal
    obtain ⟨sequence, htopology⟩ := commitJournal_acknowledged hjournal
    obtain ⟨hroster, hdefinition, hset, extra, hextra, htypes⟩ := hq.no_topology
    refine ⟨hroster ▸ hcreate, hdefinition, hset, sequence, ⟨extra, ?_, htypes⟩, rfl⟩
    have hsame : Journal.records (installRoster definition roster s).journal
        = Journal.records s.journal := rfl
    rw [hextra, hsame, htopology]
    simp
  · cases he
  · have hjournal : commitJournal .topologyDefinition (encodeTopology definition) r.journal
        = (true, s.journal) := congrArg (fun outcome => (outcome.1, outcome.2.journal)) hcommit
    rw [journal, hstore] at hjournal
    obtain ⟨sequence, htopology⟩ := commitJournal_acknowledged hjournal
    obtain ⟨hroster, hdefinition, hset, extra, hextra, htypes⟩ := hq.no_topology
    -- the fences of the grants stand between the topology and the decision
    obtain ⟨_, _, -, -, _, _, j, hfences, -, -, rfl⟩ := hint
    obtain ⟨fences, hfence, hfenceTypes⟩ := hfences.records
    refine ⟨hroster ▸ hcreate, hdefinition, hset, sequence, ⟨fences ++ extra, ?_,
      fun later hlater => ?_⟩, rfl⟩
    · have hmid : Journal.records j = Journal.records s.journal ++ fences := hfence
      have hsame : Journal.records r'.journal = Journal.records j ++ extra := hextra
      rw [hsame, hmid, htopology]
      simp
    · rcases List.mem_append.mp hlater with hlater | hlater
      · rw [show later.type = .fenceRecord from hfenceTypes later hlater]
        decide
      · exact htypes later hlater

/-! ## What a restart makes of it -/

/-- A definition takes the place of the topology in force. -/
def Outranks (definition : TopologyDefinition) (r : PartitionRuntime) : Prop :=
  r.rosterSet = true → r.topology.generation.value < definition.generation.value

/-- The topologies committed among some records are older than a definition. -/
def OlderTopologies (limits : Limits) (definition : TopologyDefinition)
    (records : List DurableRecord) : Prop :=
  ∀ record ∈ records, record.type = .topologyDefinition →
    ∀ d, decodeTopology record.payload limits = some d →
      d.generation.value < definition.generation.value

theorem restoreTopology_of_outranks {definition : TopologyDefinition} {roster : ComponentRoster}
    {r : PartitionRuntime} (h : Outranks definition r) :
    restoreTopology definition roster r
      = { r with roster := roster, topology := definition, rosterSet := true } := by
  rw [restoreTopology, if_pos]
  rcases hset : r.rosterSet
  · rfl
  · exact decide_eq_true (h hset)

/-- Restoring a record that is no topology leaves the roster in force. -/
theorem Restores.topology_of_ne {record : DurableRecord} {r r' : PartitionRuntime}
    (h : Restores record r r') (htype : record.type ≠ .topologyDefinition) :
    r'.roster = r.roster ∧ r'.topology = r.topology ∧ r'.rosterSet = r.rosterSet := by
  rcases h with ⟨_, _⟩ | ⟨_, _⟩ | ⟨hsame, _, _⟩ | ⟨_, _, _⟩ | ⟨_, _⟩ | ⟨_, _⟩
  · exact ⟨rfl, rfl, rfl⟩
  · rw [restorePolicy]
    split <;> exact ⟨rfl, rfl, rfl⟩
  · exact absurd hsame htype
  · exact ⟨rfl, rfl, rfl⟩
  · exact ⟨rfl, rfl, rfl⟩
  · exact ⟨rfl, rfl, rfl⟩

/-- Records that hold no topology leave the roster in force. -/
theorem Restored.topology_of_ne {records : List DurableRecord} {r r' : PartitionRuntime}
    (h : Restored records r r') (htypes : ∀ record ∈ records, record.type ≠ .topologyDefinition) :
    r'.roster = r.roster ∧ r'.topology = r.topology ∧ r'.rosterSet = r.rosterSet :=
  h.invariant (P := fun s => s.roster = r.roster ∧ s.topology = r.topology ∧
    s.rosterSet = r.rosterSet) (fun record hrecord _ _ hstep hs => by
      obtain ⟨hroster, htopology, hset⟩ := hstep.topology_of_ne (htypes record hrecord)
      exact ⟨hroster.trans hs.1, htopology.trans hs.2.1, hset.trans hs.2.2⟩) ⟨rfl, rfl, rfl⟩

/-- Records that hold older topologies only leave one in force that is outranked. -/
theorem Restored.outranks {records : List DurableRecord} {definition : TopologyDefinition}
    {r r' : PartitionRuntime} (h : Restored records r r')
    (holder : OlderTopologies r.limits definition records) (hr : Outranks definition r) :
    r'.limits = r.limits ∧ Outranks definition r' := by
  refine h.invariant (P := fun s => s.limits = r.limits ∧ Outranks definition s)
    (fun record hrecord s t hstep hs => ?_) ⟨rfl, hr⟩
  refine ⟨(congrArg RuntimeOptions.limits hstep.keeps.2).trans hs.1, ?_⟩
  by_cases htype : record.type = .topologyDefinition
  · rcases hstep with ⟨hne, _⟩ | ⟨hne, _⟩ | ⟨-, hdecode, _⟩ | ⟨hne, _, _⟩ | ⟨hne, _⟩ | ⟨hne, _⟩
    case topologyDefinition =>
      rw [hs.1] at hdecode
      rw [restoreTopology]
      split
      · exact fun _ => holder record hrecord htype _ hdecode
      · exact hs.2
    all_goals exact absurd (htype.symm.trans hne) (by decide)
  · obtain ⟨-, htopology, hset⟩ := hstep.topology_of_ne htype
    rw [Outranks, htopology, hset]
    exact hs.2

/-- A completed start on a store has the roster that was restored. -/
theorem construct_roster {options : RuntimeOptions} {disk : Disk} {ids : BootIdentities}
    {faults : List (Option AppendFault)} {r : PartitionRuntime} (hdurable : options.durable = true)
    (h : construct options disk ids faults = (.ok (), r)) :
    ∃ fresh restored : PartitionRuntime, fresh.options = options ∧ fresh.rosterSet = false ∧
      Restored (loadedRecords options disk) fresh restored ∧ r.roster = restored.roster ∧
      r.topology = restored.topology ∧ r.rosterSet = restored.rosterSet := by
  rcases start_cases (unstarted_store hdurable disk ids faults) h with
    ⟨-, policy, restored, entered, hc⟩ | ⟨⟨_, herror⟩, -⟩
  · obtain ⟨-, -, hrestores, ⟨epoch, bootSequence, reasons, -, -, rfl⟩, s, hcommit, rfl⟩ := hc
    rw [loaded_records] at hrestores
    refine ⟨_, restored, ?_, ?_, hrestores, ?_⟩
    · rfl
    · rfl
    obtain ⟨added, fenceSequence, j, -, -, -, hrebuilt⟩ :=
      rebuildFences_rebuilt restored.interrupted restored
    obtain rfl : (commitRecord .epochState _ _).2 = s := congrArg Prod.snd hcommit
    rw [hrebuilt, commitRecord]
    exact ⟨rfl, rfl, rfl⟩
  · cases herror

/-- The topology in force is durable: the turn of a restart over the record it was committed under
puts it in force, and every start on these records that completes ends with it, if the topologies
committed before it are older. -/
structure TopologyDurable (limits : Limits) (records front : List DurableRecord)
    (definition : TopologyDefinition) (roster : ComponentRoster) : Prop where
  passed : ∃ record, LastTopology records front record ∧
    ∀ s : PartitionRuntime, s.limits = limits → Outranks definition s →
      restoreRecord record s
        = (.ok (), { s with roster := roster, topology := definition, rosterSet := true })
  reopened : OlderTopologies limits definition front →
    ∀ (options : RuntimeOptions) (disk : Disk) (ids : BootIdentities)
      (faults : List (Option AppendFault)) (r : PartitionRuntime), options.durable = true →
      options.limits = limits → loadedRecords options disk = records →
      construct options disk ids faults = (.ok (), r) →
      r.rosterSet = true ∧ r.roster = roster ∧ r.topology = definition

/-- The last topology is durable if its record decodes to it. -/
theorem LastTopology.durable {limits : Limits} {records front : List DurableRecord}
    {record : DurableRecord} {definition : TopologyDefinition} {roster : ComponentRoster}
    (hlast : LastTopology records front record)
    (hcreate : ComponentRoster.create definition limits = some roster)
    (hdecode : decodeTopology record.payload limits = some definition) :
    TopologyDurable limits records front definition roster where
  passed := by
    refine ⟨record, hlast, fun s hlimits hrank => ?_⟩
    rw [restoreRecord, Act.read_bind]
    simp only [hlast.type, hlimits, hdecode, hcreate]
    show (Except.ok (), restoreTopology definition roster s) = _
    rw [restoreTopology_of_outranks hrank]
  reopened holder options disk ids faults r hdurable hlimits hrecords hconstruct := by
    obtain ⟨fresh, restored, hfresh, hunset, hrestored, hroster, htopology, hset⟩ :=
      construct_roster hdurable hconstruct
    have hfreshLimits : fresh.limits = limits := by
      rw [← hlimits, ← hfresh]
      rfl
    obtain ⟨⟨back, rfl, hback⟩, htype⟩ := hlast
    rw [hrecords] at hrestored
    obtain ⟨u, hu, hrest⟩ := Restored.append_iff.mp hrestored
    obtain ⟨hulimits, huRank⟩ := hu.outranks (hfreshLimits ▸ holder)
      fun hfreshSet => by rw [hunset] at hfreshSet; cases hfreshSet
    rcases hrest with _ | ⟨hrecord, hrest⟩
    obtain ⟨hroster', htopology', hset'⟩ := hrest.topology_of_ne hback
    rw [hset, hset', hroster, hroster', htopology, htopology']
    rcases hrecord with ⟨hne, _⟩ | ⟨hne, _⟩ | ⟨-, hdecoded, hcreated⟩ | ⟨hne, _, _⟩ | ⟨hne, _⟩ |
      ⟨hne, _⟩
    case topologyDefinition =>
      rw [hulimits, hfreshLimits, hdecode] at hdecoded
      obtain rfl := Option.some.inj hdecoded
      rw [hulimits, hfreshLimits, hcreate] at hcreated
      obtain rfl := Option.some.inj hcreated
      rw [restoreTopology_of_outranks huRank]
      exact ⟨rfl, rfl, rfl⟩
    all_goals exact absurd (htype.symm.trans hne) (by decide)

/-- A turn that puts the definition in force has decoded it. -/
theorem LastTopology.decoded {records front : List DurableRecord} {record : DurableRecord}
    {definition : TopologyDefinition} {roster : ComponentRoster}
    (hlast : LastTopology records front record) (r : PartitionRuntime)
    (hdurable : TopologyDurable r.limits records front definition roster) :
    decodeTopology record.payload r.limits = some definition := by
  obtain ⟨record', hrecord, hpassed⟩ := hdurable.passed
  obtain rfl := hlast.unique hrecord
  -- the turn over the record, at a runtime without a roster
  have hturn := hpassed { r with rosterSet := false } rfl fun hset => by cases hset
  generalize hends : ({ { r with rosterSet := false } with
    roster := roster, topology := definition, rosterSet := true } : PartitionRuntime) = s at hturn
  have htopology : s.topology = definition := by rw [← hends]
  obtain ⟨-, hrestores⟩ | ⟨⟨_, he⟩, -⟩ := restoreRecord_cases hturn
  · rcases hrestores with ⟨hne, _⟩ | ⟨hne, _⟩ | ⟨-, hdecode, _⟩ | ⟨hne, _, _⟩ | ⟨hne, _⟩ | ⟨hne, _⟩
    case topologyDefinition =>
      rw [restoreTopology_of_outranks fun hset => by cases hset] at htopology
      exact hdecode.trans (congrArg some htopology)
    all_goals exact absurd (hlast.type.symm.trans hne) (by decide)
  · cases he

/-- **An adopted topology is durable** exactly if its definition lists the components in strictly
increasing order, and few enough to be counted. -/
theorem adoptTopology_durable_iff {definition : TopologyDefinition} {r r' : PartitionRuntime}
    {d : Decision} {store : DurableStore} (hstore : r.store = some store)
    (hrun : adoptTopology definition r = (.ok d, r')) (hgranted : d.verdict = .granted) :
    ComponentRoster.create definition r.limits = some r'.roster ∧ r'.topology = definition ∧
      (TopologyDurable r.limits (Journal.records r'.journal) store.records definition r'.roster ↔
        definition.Readable) := by
  obtain ⟨hcreate, hdefinition, -, sequence, hlast⟩ := adoptTopology_commits hstore hrun hgranted
  refine ⟨hcreate, hdefinition, ?_⟩
  rw [← TopologyDefinition.decodeTopology_accepted_iff hcreate]
  exact ⟨hlast.decoded r, hlast.durable hcreate⟩

/-- No start gets past a topology that is not decoded. -/
theorem LastTopology.not_reopened {records front : List DurableRecord} {record : DurableRecord}
    {options : RuntimeOptions} {disk : Disk} {ids : BootIdentities}
    {faults : List (Option AppendFault)} {r : PartitionRuntime}
    (hlast : LastTopology records front record) (hdurable : options.durable = true)
    (hrecords : loadedRecords options disk = records)
    (hnone : decodeTopology record.payload options.limits = none) :
    construct options disk ids faults ≠ (.ok (), r) := by
  intro hconstruct
  obtain ⟨fresh, restored, hfresh, -, hrestored, -⟩ := construct_roster hdurable hconstruct
  obtain ⟨⟨back, rfl, -⟩, htype⟩ := hlast
  rw [hrecords] at hrestored
  obtain ⟨u, hu, hrest⟩ := Restored.append_iff.mp hrestored
  have hlimits : u.limits = options.limits := hu.invariant (P := fun v => v.limits = options.limits)
    (fun _ _ _ _ hstep hv => (congrArg RuntimeOptions.limits hstep.keeps.2).trans hv)
    (congrArg RuntimeOptions.limits hfresh)
  rcases hrest with _ | ⟨hrecord, -⟩
  rcases hrecord with ⟨hne, _⟩ | ⟨hne, _⟩ | ⟨-, hdecode, _⟩ | ⟨hne, _, _⟩ | ⟨hne, _⟩ | ⟨hne, _⟩
  case topologyDefinition =>
    rw [hlimits, hnone] at hdecode
    cases hdecode
  all_goals exact absurd (htype.symm.trans hne) (by decide)

/-- A topology whose components are listed in order is durable on an empty disk. -/
theorem ordered_topology_durable :
    ∃ d r', adoptTopology (smallTopology 1 ["a", "b"]) durableRuntime = (.ok d, r') ∧
      ∃ store : DurableStore, durableRuntime.store = some store ∧
        TopologyDurable durableRuntime.limits (Journal.records r'.journal) store.records
          (smallTopology 1 ["a", "b"]) r'.roster := by
  have hout : ∃ d ∈ (adoptTopology (smallTopology 1 ["a", "b"]) durableRuntime).1.toOption,
      d.verdict = .granted := by decide +kernel
  have hsome : durableRuntime.store.isSome = true := by decide +kernel
  obtain ⟨store, hstore⟩ := Option.isSome_iff_exists.mp hsome
  rcases hrun : adoptTopology (smallTopology 1 ["a", "b"]) durableRuntime with ⟨_ | d, r'⟩ <;>
    rw [hrun] at hout <;> obtain ⟨d', hd, hgranted⟩ := hout <;> cases hd
  exact ⟨d, r', rfl, store, hstore, (adoptTopology_durable_iff hstore hrun hgranted).2.2.mpr
    ⟨by decide +kernel, by decide +kernel⟩⟩

set_option maxRecDepth 4000 in
/-- The same components in another order are adopted, and no start on the records completes; the
start on the disk that is left throws. -/
theorem unordered_topology_not_durable :
    (durableRuntime.history
      [.call ⟨.adoptTopology (smallTopology 1 ["b", "a"]), []⟩, reopen {}]).length = 1 ∧
    ∃ d r', adoptTopology (smallTopology 1 ["b", "a"]) durableRuntime = (.ok d, r') ∧
      d.verdict = .granted ∧
      ∃ store : DurableStore, durableRuntime.store = some store ∧
        ¬ TopologyDurable durableRuntime.limits (Journal.records r'.journal) store.records
          (smallTopology 1 ["b", "a"]) r'.roster ∧
        ∀ (options : RuntimeOptions) (disk : Disk) (ids : BootIdentities)
          (faults : List (Option AppendFault)) (r : PartitionRuntime), options.durable = true →
          options.limits = durableRuntime.limits →
          loadedRecords options disk = Journal.records r'.journal →
          construct options disk ids faults ≠ (.ok (), r) := by
  have hout : ∃ d ∈ (adoptTopology (smallTopology 1 ["b", "a"]) durableRuntime).1.toOption,
      d.verdict = .granted := by decide +kernel
  have hsome : durableRuntime.store.isSome = true := by decide +kernel
  have hnone : decodeTopology (encodeTopology (smallTopology 1 ["b", "a"])) durableRuntime.limits
      = none := by decide +kernel
  obtain ⟨store, hstore⟩ := Option.isSome_iff_exists.mp hsome
  rcases hrun : adoptTopology (smallTopology 1 ["b", "a"]) durableRuntime with ⟨_ | d, r'⟩ <;>
    rw [hrun] at hout <;> obtain ⟨d', hd, hgranted⟩ := hout <;> cases hd
  obtain ⟨-, -, -, sequence, hlast⟩ := adoptTopology_commits hstore hrun hgranted
  refine ⟨by decide +kernel, d, r', rfl, hgranted, store, hstore, fun hdurable => ?_,
    fun options disk ids faults r hdurable hlimits hrecords =>
      hlast.not_reopened hdurable hrecords (by rw [hlimits]; exact hnone)⟩
  have hdecode := hlast.decoded durableRuntime hdurable
  rw [hnone] at hdecode
  cases hdecode

end PartitionRuntime

end FabricPartition
