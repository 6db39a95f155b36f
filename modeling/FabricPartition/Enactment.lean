import FabricPartition.Majority
import FabricPartition.Restoration

/-!
# An accepted policy is durable

`set_policy` commits the canonical policy before it puts it in force, and a restart puts the last one
committed in force again.  What may be put in force is decided by `canonicalised`, what may be restored
by `decode_policy`; `fitsIn_canonical_iff` compares the two.  They agree on the schema, the number of
weights and their order.  `canonicalised` does not look at the capability masks, though, and
`decode_policy` refuses the bits outside the seven capabilities.
-/

set_option autoImplicit false

namespace FabricPartition

namespace PartitionPolicy

variable {p canonical : PartitionPolicy} {limits : Limits}

/-- What `canonicalised` leaves as it found it, and what it has checked. -/
theorem canonicalised_keeps (h : p.canonicalised limits = some canonical) :
    canonical.schemaVersion = policySchemaVersion ∧ p.weights.length ≤ limits.maxComponents ∧
      canonical.degradedCapabilities = p.degradedCapabilities ∧
      canonical.readonlyCapabilities = p.readonlyCapabilities := by
  rw [canonicalised] at h
  split at h
  · cases h
  split at h
  · cases h
  rename_i hschema
  split at h
  · cases h
  rename_i hlength
  dsimp only at h
  split at h
  · cases h
  cases h
  exact ⟨not_not.mp hschema, Nat.le_of_not_gt hlength, rfl, rfl⟩

/-- What `encode_policy` has room for: both masks hold capabilities only, and the length of the weight
table fits its field. -/
structure Encodable (p : PartitionPolicy) : Prop where
  degraded : p.degradedCapabilities.Valid
  readonly : p.readonlyCapabilities.Valid
  counted : p.weights.length < 2 ^ 32

/-- **What is accepted, against what is restored.** -/
theorem fitsIn_canonical_iff (h : p.canonicalised limits = some canonical) :
    canonical.FitsIn limits ↔ p.Encodable := by
  obtain ⟨hschema, hlength, hdegraded, hreadonly⟩ := canonicalised_keeps h
  obtain ⟨htabled, -, hperm, -⟩ := canonicalised_some h
  refine ⟨fun hfits => ⟨hdegraded ▸ hfits.degraded, hreadonly ▸ hfits.readonly, ?_⟩, fun hp =>
    ⟨hschema, ?_, List.pairwise_map.mpr htabled, hdegraded ▸ hp.degraded,
      hreadonly ▸ hp.readonly⟩⟩
  · rw [← hperm.length_eq]
    exact hfits.weights.2
  · rw [Fits, hperm.length_eq]
    exact ⟨hlength, hp.counted⟩

/-- The image of an accepted policy is decoded to it, or not at all to it. -/
theorem decodePolicy_canonical_iff (h : p.canonicalised limits = some canonical) :
    decodePolicy (encodePolicy canonical) limits = some canonical ↔ p.Encodable := by
  rw [decodePolicy, (codec_policy limits).whole_iff, fitsIn_canonical_iff h, and_iff_left rfl]

end PartitionPolicy

namespace PartitionRuntime

/-! ## What was committed -/

/-- The last policy definition among some records. -/
structure LastPolicy (records front : List DurableRecord) (record : DurableRecord) : Prop where
  splits : ∃ back, records = front ++ record :: back ∧
    ∀ later ∈ back, later.type ≠ .policyDefinition
  type : record.type = .policyDefinition

/-- The record behind given ones is the only one there. -/
theorem LastPolicy.unique {records front : List DurableRecord} {record record' : DurableRecord}
    (h : LastPolicy records front record) (h' : LastPolicy records front record') :
    record = record' := by
  obtain ⟨⟨back, rfl, -⟩, -⟩ := h
  obtain ⟨⟨back', heq, -⟩, -⟩ := h'
  exact (List.cons.inj (List.append_cancel_left heq)).1

/-- **What `set_policy` commits** when it takes effect: the policy it puts in force, and no policy
behind it. -/
theorem setPolicy_commits {policy : PartitionPolicy} {r r' : PartitionRuntime} {d : Decision}
    {store : DurableStore} (hstore : r.store = some store)
    (hrun : setPolicy policy r = (.ok d, r')) (hgranted : d.verdict = .granted) :
    r'.limits = r.limits ∧ r.policy.generation.value < r'.policy.generation.value ∧
      policy.canonicalised r.limits = some r'.policy ∧
      ∃ sequence, LastPolicy (Journal.records r'.journal) store.records
        ⟨.policyDefinition, sequence, encodePolicy r'.policy⟩ := by
  rcases setPolicy_cases hrun with ⟨-, -, -, hrefused⟩ |
    ⟨canonical, s, qs, t, hcanonical, hlt, hcommit, -, hint, ⟨-, he⟩ | ⟨-, hq, -⟩⟩
  · exact absurd hgranted (hrefused d rfl)
  · cases he
  obtain ⟨_, _, -, -, _, _, j, hfences, -, -, rfl⟩ := hint
  obtain ⟨_, _, _, _, k, hdecisions, rfl⟩ := hq
  -- three stretches of the journal: the policy, the fences of the grants, the decision
  have hjournal : commitJournal .policyDefinition (encodePolicy canonical) r.journal
      = (true, s.journal) := congrArg (fun outcome => (outcome.1, outcome.2.journal)) hcommit
  rw [journal, hstore] at hjournal
  obtain ⟨sequence, hpolicy⟩ := commitJournal_acknowledged hjournal
  obtain ⟨fences, hfence, hfenceTypes⟩ := hfences.records
  obtain ⟨decisions, hdecision, hdecisionTypes⟩ := hdecisions.records
  have hlimits : s.limits = r.limits := congrArg (fun outcome => outcome.2.limits) hcommit.symm
  refine ⟨hlimits, hlt, hcanonical, sequence, ⟨⟨fences ++ decisions, ?_, fun later hlater => ?_⟩,
    rfl⟩⟩
  · have hmid : Journal.records j = Journal.records s.journal ++ fences := hfence
    have hlast : Journal.records k = Journal.records j ++ decisions := hdecision
    show Journal.records k = _
    rw [hlast, hmid, hpolicy]
    simp
  · rcases List.mem_append.mp hlater with hlater | hlater
    · rw [show later.type = .fenceRecord from hfenceTypes later hlater]
      decide
    · rw [show later.type = .decisionRecord from hdecisionTypes later hlater]
      decide

/-! ## What a restart makes of it -/

/-- The policies committed among some records are older than a policy. -/
def OlderThan (limits : Limits) (policy : PartitionPolicy) (records : List DurableRecord) : Prop :=
  ∀ record ∈ records, record.type = .policyDefinition →
    ∀ p, decodePolicy record.payload limits = some p →
      p.generation.value < policy.generation.value

/-- Restoring a record that is no policy leaves the policy in force, and one that is replaces it if
it is newer. -/
theorem Restores.policy {record : DurableRecord} {r r' : PartitionRuntime}
    (h : Restores record r r') :
    r'.limits = r.limits ∧ (r'.policy = r.policy ∨
      record.type = .policyDefinition ∧ decodePolicy record.payload r.limits = some r'.policy) := by
  rcases h with ⟨_, _⟩ | ⟨htype, hdecode⟩ | ⟨_, _, _⟩ | ⟨_, _, _⟩ | ⟨_, _⟩ | ⟨_, _⟩
  · exact ⟨rfl, .inl rfl⟩
  · rw [restorePolicy]
    split
    · exact ⟨rfl, .inr ⟨htype, hdecode⟩⟩
    · exact ⟨rfl, .inl rfl⟩
  · rw [restoreTopology]
    split <;> exact ⟨rfl, .inl rfl⟩
  · exact ⟨rfl, .inl rfl⟩
  · exact ⟨rfl, .inl rfl⟩
  · exact ⟨rfl, .inl rfl⟩

/-- Records that hold older policies only leave an older policy in force. -/
theorem Restored.older {records : List DurableRecord} {policy : PartitionPolicy}
    {s t : PartitionRuntime} (h : Restored records s t)
    (hrecords : OlderThan s.limits policy records)
    (holder : s.policy.generation.value < policy.generation.value) :
    t.limits = s.limits ∧ t.policy.generation.value < policy.generation.value := by
  refine h.invariant (P := fun u => u.limits = s.limits ∧
    u.policy.generation.value < policy.generation.value) (fun record hrecord u v hstep hu => ?_)
    ⟨rfl, holder⟩
  obtain ⟨hlimits, hsame | ⟨htype, hdecode⟩⟩ := hstep.policy
  · exact ⟨hlimits.trans hu.1, hsame ▸ hu.2⟩
  · exact ⟨hlimits.trans hu.1, hrecords record hrecord htype _ (hu.1 ▸ hdecode)⟩

/-- Records that hold no policy leave the policy in force. -/
theorem Restored.policy_of_ne {records : List DurableRecord} {s t : PartitionRuntime}
    (h : Restored records s t) (htypes : ∀ record ∈ records, record.type ≠ .policyDefinition) :
    t.policy = s.policy := by
  refine h.invariant (P := fun u => u.policy = s.policy) (fun record hrecord u v hstep hu => ?_) rfl
  obtain ⟨-, hsame | ⟨htype, -⟩⟩ := hstep.policy
  · exact hsame.trans hu
  · exact absurd htype (htypes record hrecord)

/-- The turn of `restore_from_records` over a policy newer than the one in force. -/
theorem restoreRecord_policy {record : DurableRecord} {policy : PartitionPolicy}
    {s : PartitionRuntime} (htype : record.type = .policyDefinition)
    (hdecode : decodePolicy record.payload s.limits = some policy)
    (holder : s.policy.generation.value < policy.generation.value) :
    restoreRecord record s = (.ok (), { s with policy := policy }) := by
  rw [restoreRecord, Act.read_bind]
  simp only [htype, hdecode]
  show (Except.ok (), restorePolicy policy s) = _
  rw [restorePolicy, if_pos holder]

/-- The policy in force is durable: the record it was committed under decodes to it, the turn of a
restart over that record puts it in force, and a restart that gets through all records ends with it,
if the policies committed before it are older. -/
structure PolicyDurable (limits : Limits) (records front : List DurableRecord)
    (policy : PartitionPolicy) : Prop where
  committed : ∃ record, LastPolicy records front record ∧
    decodePolicy record.payload limits = some policy ∧
    ∀ s : PartitionRuntime, s.limits = limits →
      s.policy.generation.value < policy.generation.value →
      restoreRecord record s = (.ok (), { s with policy := policy })
  restart : OlderThan limits policy front → ∀ s t : PartitionRuntime, s.limits = limits →
    s.policy.generation.value < policy.generation.value →
    restoreRecords records s = (.ok (), t) → t.policy = policy

/-- The last policy is durable if its record decodes to it. -/
theorem LastPolicy.durable {limits : Limits} {records front : List DurableRecord}
    {record : DurableRecord} {policy : PartitionPolicy} (hlast : LastPolicy records front record)
    (hdecode : decodePolicy record.payload limits = some policy) :
    PolicyDurable limits records front policy where
  committed := ⟨record, hlast, hdecode, fun s hlimits holder =>
    restoreRecord_policy hlast.type (hlimits ▸ hdecode) holder⟩
  restart hfront s t hlimits holder hrestore := by
    obtain ⟨⟨back, rfl, hback⟩, htype⟩ := hlast
    obtain ⟨u, hu, hrest⟩ := Restored.append_iff.mp (restoreRecords_ok hrestore)
    obtain ⟨hulimits, huolder⟩ := hu.older (hlimits ▸ hfront) holder
    rcases hrest with _ | ⟨hrecord, hrest⟩
    rw [hrest.policy_of_ne hback]
    -- the turn over the record is the one that takes the policy
    rcases hrecord with ⟨hne, _⟩ | ⟨-, hdecoded⟩ | ⟨hne, _, _⟩ | ⟨hne, _, _⟩ | ⟨hne, _⟩ | ⟨hne, _⟩
    · exact absurd (htype.symm.trans hne) (by decide)
    · rw [hulimits, hlimits, hdecode] at hdecoded
      obtain rfl := Option.some.inj hdecoded
      rw [restorePolicy, if_pos huolder]
    all_goals exact absurd (htype.symm.trans hne) (by decide)

/-- **An accepted policy is durable** exactly if its capability masks hold capabilities only and its
weight table is short enough to be counted. -/
theorem setPolicy_durable_iff {policy : PartitionPolicy} {r r' : PartitionRuntime} {d : Decision}
    {store : DurableStore} (hstore : r.store = some store)
    (hrun : setPolicy policy r = (.ok d, r')) (hgranted : d.verdict = .granted) :
    policy.canonicalised r.limits = some r'.policy ∧
      (PolicyDurable r.limits (Journal.records r'.journal) store.records r'.policy ↔
        policy.Encodable) := by
  obtain ⟨-, -, hcanonical, sequence, hlast⟩ := setPolicy_commits hstore hrun hgranted
  refine ⟨hcanonical, ?_⟩
  rw [← PartitionPolicy.decodePolicy_canonical_iff hcanonical]
  refine ⟨fun hdurable => ?_, hlast.durable⟩
  obtain ⟨record, hrecord, hdecode, -⟩ := hdurable.committed
  rw [← hlast.unique hrecord] at hdecode
  exact hdecode

/-- The default policy is durable on an empty disk. -/
theorem default_policy_durable :
    ∃ d r', setPolicy (defaultPolicy ⟨2⟩) durableRuntime = (.ok d, r') ∧
      ∃ store : DurableStore, durableRuntime.store = some store ∧
        PolicyDurable durableRuntime.limits (Journal.records r'.journal) store.records r'.policy := by
  have hout : ∃ d ∈ (setPolicy (defaultPolicy ⟨2⟩) durableRuntime).1.toOption,
      d.verdict = .granted := by decide +kernel
  have hsome : durableRuntime.store.isSome = true := by decide +kernel
  obtain ⟨store, hstore⟩ := Option.isSome_iff_exists.mp hsome
  rcases hrun : setPolicy (defaultPolicy ⟨2⟩) durableRuntime with ⟨_ | d, r'⟩ <;>
    rw [hrun] at hout <;> obtain ⟨d', hd, hgranted⟩ := hout <;> cases hd
  exact ⟨d, r', rfl, store, hstore, (setPolicy_durable_iff hstore hrun hgranted).2.mpr
    ⟨by rw [CapabilitySet.Valid]; decide, by rw [CapabilitySet.Valid]; decide, by decide⟩⟩

/-- A policy with a mask that holds an eighth bit. -/
def strayPolicy : PartitionPolicy :=
  { defaultPolicy ⟨2⟩ with degradedCapabilities := ⟨128⟩ }

/-- No restart gets past a policy that is not decoded. -/
theorem LastPolicy.not_restored {records front : List DurableRecord} {record : DurableRecord}
    {s t : PartitionRuntime} (hlast : LastPolicy records front record)
    (hnone : decodePolicy record.payload s.limits = none) :
    restoreRecords records s ≠ (.ok (), t) := by
  intro hrestore
  obtain ⟨⟨back, rfl, -⟩, htype⟩ := hlast
  obtain ⟨u, hu, hrest⟩ := Restored.append_iff.mp (restoreRecords_ok hrestore)
  have hlimits : u.limits = s.limits := hu.invariant (P := fun v => v.limits = s.limits)
    (fun _ _ _ _ hstep hv => hstep.policy.1.trans hv) rfl
  rcases hrest with _ | ⟨hrecord, -⟩
  rcases hrecord with ⟨hne, _⟩ | ⟨-, hdecoded⟩ | ⟨hne, _, _⟩ | ⟨hne, _, _⟩ | ⟨hne, _⟩ | ⟨hne, _⟩
  · exact absurd (htype.symm.trans hne) (by decide)
  · rw [hlimits, hnone] at hdecoded
    cases hdecoded
  all_goals exact absurd (htype.symm.trans hne) (by decide)

/-- It is accepted, its record is not decoded, and no restart gets through the records. -/
theorem stray_policy_not_durable :
    ∃ d r', setPolicy strayPolicy durableRuntime = (.ok d, r') ∧ d.verdict = .granted ∧
      ∃ store : DurableStore, durableRuntime.store = some store ∧
        ¬ PolicyDurable durableRuntime.limits (Journal.records r'.journal) store.records
          r'.policy ∧
        ∀ s t : PartitionRuntime, s.limits = durableRuntime.limits →
          restoreRecords (Journal.records r'.journal) s ≠ (.ok (), t) := by
  have hout : ∃ d ∈ (setPolicy strayPolicy durableRuntime).1.toOption,
      d.verdict = .granted := by decide +kernel
  have hsome : durableRuntime.store.isSome = true := by decide +kernel
  have hundecoded : ∀ c ∈ strayPolicy.canonicalised durableRuntime.limits,
      decodePolicy (encodePolicy c) durableRuntime.limits = none := by decide +kernel
  obtain ⟨store, hstore⟩ := Option.isSome_iff_exists.mp hsome
  rcases hrun : setPolicy strayPolicy durableRuntime with ⟨_ | d, r'⟩ <;>
    rw [hrun] at hout <;> obtain ⟨d', hd, hgranted⟩ := hout <;> cases hd
  obtain ⟨-, -, hcanonical, sequence, hlast⟩ := setPolicy_commits hstore hrun hgranted
  have hnone := hundecoded r'.policy (Option.mem_def.mpr hcanonical)
  refine ⟨d, r', rfl, hgranted, store, hstore, fun hdurable => ?_, fun s t hs =>
    hlast.not_restored (by rw [hs]; exact hnone)⟩
  obtain ⟨record, hrecord, hdecode, -⟩ := hdurable.committed
  rw [← hlast.unique hrecord, hnone] at hdecode
  cases hdecode

end PartitionRuntime

end FabricPartition
