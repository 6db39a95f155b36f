import FabricPartition.Governance

/-!
# Starting and stopping

The constructor of `PartitionRuntime`, `restore_from_records` and `close`: how an incarnation comes
up from the disk the previous one left, and what it leaves behind.

The two calls of a random generator at each start are arguments (`BootIdentities`), and so is the
disk.  A constructor that throws still leaves the disk as it was by then.
-/

set_option autoImplicit false

namespace FabricPartition

/-- The identities a start draws: the ones it begins with, and the ones it settles on when it starts
from a store. -/
structure BootIdentities where
  boot : CoordinatorBootId
  incarnation : ProcessIncarnationId
  freshBoot : CoordinatorBootId
  freshIncarnation : ProcessIncarnationId
  deriving DecidableEq, Inhabited

namespace PartitionRuntime

/-- The members before the body of the constructor runs. -/
def unstarted (options : RuntimeOptions) (disk : Disk) (ids : BootIdentities)
    (faults : List (Option AppendFault)) : PartitionRuntime where
  options := options
  policy := options.policy
  ledger := { limits := options.limits }
  lineage := { limits := options.limits }
  decisions := { limits := options.limits }
  state :=
    { epoch := ⟨1⟩
      boot := ids.boot
      incarnation := ids.incarnation
      bootSequence := ⟨1⟩ }
  store := if options.durable then
      some { limits := options.limits, disk := disk, faults := faults }
    else none

/-! ## Restoring -/

/-- The `EpochState` case of `restore_from_records`: the marks become interruptions, and only the
last epoch state counts. -/
def restoreEpochState (next : EpochState) (r : PartitionRuntime) : PartitionRuntime :=
  { r with
    interrupted := next.liveGrants.map fun mark =>
      ⟨mark.partition, mark.lineage, mark.authoritySequence, next.epoch, next.boot, next.tick⟩
    state := { next with liveGrants := [] } }

/-- The `PolicyDefinition` case. -/
def restorePolicy (decoded : PartitionPolicy) (r : PartitionRuntime) : PartitionRuntime :=
  if decoded.generation.value > r.policy.generation.value then { r with policy := decoded } else r

/-- The `TopologyDefinition` case. -/
def restoreTopology (decoded : TopologyDefinition) (roster : ComponentRoster)
    (r : PartitionRuntime) : PartitionRuntime :=
  if !r.rosterSet || decide (decoded.generation.value > r.topology.generation.value) then
    { r with roster := roster, topology := decoded, rosterSet := true }
  else r

/-- The `FenceRecord` case: the oldest fence goes when the table overflows. -/
def restoreFence (fence : FenceRecord) (r : PartitionRuntime) : PartitionRuntime :=
  let fences := r.fences ++ [fence]
  { r with fences := if fences.length > r.limits.maxFenceRecords then fences.tail else fences }

/-- One turn of the loop of `restore_from_records`. -/
def restoreRecord (record : DurableRecord) : RuntimeAct Unit := do
  let r ← Act.read
  match record.type with
  | .epochState =>
    match decodeEpochState record.payload r.limits with
    | none => Act.throw (.undecodable .epochState)
    | some next => Act.modify (restoreEpochState next)
  | .policyDefinition =>
    match decodePolicy record.payload r.limits with
    | none => Act.throw (.undecodable .policyDefinition)
    | some decoded => Act.modify (restorePolicy decoded)
  | .topologyDefinition =>
    match decodeTopology record.payload r.limits with
    | none => Act.throw (.undecodable .topologyDefinition)
    | some decoded =>
      match ComponentRoster.create decoded r.limits with
      | none => Act.throw .invalidRoster
      | some roster => Act.modify (restoreTopology decoded roster)
  | .lineageRecord =>
    match decodeLineage record.payload r.limits with
    | none => Act.throw (.undecodable .lineageRecord)
    | some decoded =>
      match r.lineage.append decoded with
      | none => Act.throw .inconsistentLineage
      | some lineage => Act.modify fun r => { r with lineage := lineage }
  | .decisionRecord =>
    match decodeDecision record.payload r.limits with
    | none => Act.throw (.undecodable .decisionRecord)
    | some decoded => Act.modify fun r => { r with decisions := r.decisions.append decoded }
  | .fenceRecord =>
    match decodeFence record.payload with
    | none => Act.throw (.undecodable .fenceRecord)
    | some decoded => Act.modify (restoreFence decoded)

/-- The loop over the records. -/
def restoreRecords (records : List DurableRecord) : RuntimeAct Unit :=
  Act.forEach (fun _ record => restoreRecord record) () records

/-- The loop that rebuilds the fence ledger, one fence for each interruption.  The identities are
those of the restored epoch state: the new epoch is only entered afterwards. -/
def rebuildFences : List InterruptedAuthority → PartitionRuntime → PartitionRuntime
  | [], r => r
  | entry :: rest, r =>
    match r.state.fenceSequence.next with
    | none => r
    | some next =>
      let r := { r with state := { r.state with fenceSequence := next } }
      rebuildFences rest (r.storeFence (r.fenceRecord next entry.partition entry.authoritySequence
        entry.epoch entry.boot .authorityInterruptedByRestart))

/-- `restore_from_records`. -/
def restoreFromRecords (records : List DurableRecord) : RuntimeAct Unit := do
  restoreRecords records
  Act.modify fun r => rebuildFences r.interrupted r

/-! ## The constructor -/

/-- Append to the restart report. -/
def reportRestart (code : ReasonCode) (subject : String) (detail : Text) (r : PartitionRuntime) :
    PartitionRuntime :=
  { r with restartReasons := appendReason r.restartReasons code (ascii subject) detail r.limits }

/-- The report of a restart. -/
def reportRestarted (r : PartitionRuntime) : PartitionRuntime :=
  let r := reportRestart .restartEpochAdvanced "coordinator"
    (ascii "epoch advanced to " ++ r.state.epoch.render
      ++ ascii " and a fresh coordinator boot identity was established") r
  let r := reportRestart .restartIncarnationAdvanced "process"
    (ascii "process incarnation " ++ (hex r.state.incarnation.bytes).take 16) r
  let r := if r.lineage.records.isEmpty then r else
    reportRestart .restartLineageRetained "lineage"
      (decimal r.lineage.size ++ ascii " committed lineage records restored") r
  let r := if r.fences.isEmpty then r else
    reportRestart .restartFencesRetained "fences"
      (decimal r.fences.length ++ ascii " fence records restored") r
  let r := reportRestart .restartEvidenceDropped "evidence"
    (ascii "no reachability evidence survives a restart; all evidence must be re-published") r
  let r := if r.interrupted.isEmpty then r else
    reportRestart .restartAuthorityInterrupted "authority"
      (decimal r.interrupted.length
        ++ ascii " pre-restart authority grants are INTERRUPTED and require revalidation") r
  reportRestart .restartAttemptSequenceRetained "attempts"
    (ascii "attempt sequence floor restored at " ++ r.state.attemptSequence.render) r

/-- Enter a new epoch under fresh identities. -/
def enterEpoch (epoch : CoordinatorEpoch) (bootSequence : BootSequence) (ids : BootIdentities)
    (r : PartitionRuntime) : PartitionRuntime :=
  { r with
    state := { r.state with
      epoch := epoch
      bootSequence := bootSequence
      boot := ids.freshBoot
      incarnation := ids.freshIncarnation } }

/-- The epoch advance is committed before any authority can be issued under it. -/
def advanceEpoch (ids : BootIdentities) : RuntimeAct Unit := do
  let r ← Act.read
  match r.state.epoch.next, r.state.bootSequence.next with
  | some epoch, some bootSequence =>
    Act.modify fun r => reportRestarted (enterEpoch epoch bootSequence ids r)
    let r ← Act.read
    let committed ← Act.total (commitRecord .epochState (encodeEpochState r.state))
    if committed then pure () else Act.throw .epochNotCommitted
  | _, _ => Act.throw .epochExhausted

/-- Open the store: load, then open the journal for append. -/
def openStore (store : DurableStore) : RuntimeAct StoreLoadResult := do
  let (loaded, store) := store.load
  if !loaded.ok then
    Act.modify fun r => { r with store := some store }
    Act.throw (.storeRefused loaded.reasons)
  else
    Act.modify fun r => { r with
      store := some store.openForAppend
      durableSequence := store.highestSequence }
    pure loaded

/-- The report of a torn tail. -/
def reportTornTail (torn : Bool) (r : PartitionRuntime) : PartitionRuntime :=
  if torn then
    reportRestart .storeTornTailRecovered "journal"
      (ascii "a partially written final record was discarded during recovery") r
  else r

/-- The durable part of the constructor. -/
def startFromStore (store : DurableStore) (ids : BootIdentities) : RuntimeAct Unit := do
  let loaded ← openStore store
  let r ← Act.read
  restoreFromRecords ((r.store.map DurableStore.records).getD [])
  Act.modify (reportTornTail loaded.tornTailRecovered)
  advanceEpoch ids

/-- The durable part of the constructor, if there is a store. -/
def startDurable (store : Option DurableStore) (ids : BootIdentities) : RuntimeAct Unit :=
  match store with
  | none => pure ()
  | some store => startFromStore store ids

/-- The assessment an incarnation starts with. -/
def initialAssessment (r : PartitionRuntime) : PartitionRuntime :=
  { r with
    assessment :=
      { decision :=
          { id := TextId.fromValidated (ascii "d0") (by decide)
            kind := .assessFabric
            verdict := .observed
            scope := fabricScope }
        generation := r.state.partitionGeneration } }

/-- The body of the constructor. -/
def start (ids : BootIdentities) : RuntimeAct Unit := do
  let r ← Act.read
  match r.options.policy.canonicalised r.limits with
  | none => Act.throw .invalidPolicy
  | some canonical =>
    Act.modify fun r => { r with policy := canonical }
    startDurable r.store ids
    Act.modify initialAssessment

/-- The constructor, on a disk; its appends may meet faults like any others. -/
def construct (options : RuntimeOptions) (disk : Disk) (ids : BootIdentities)
    (faults : List (Option AppendFault) := []) : Except PartitionError Unit × PartitionRuntime :=
  start ids (unstarted options disk ids faults)

/-! ## Shutdown -/

/-- `close`. -/
def close (r : PartitionRuntime) : PartitionRuntime :=
  if r.closed then r
  else
    { r with
      closed := true
      store := r.store.map fun store =>
        (if r.options.compactOnClose then store.compact.2 else store).close }

/-! ## What a start leaves alone -/

/-- The roster in force is that of the adopted topology. -/
def Adopted (r : PartitionRuntime) : Prop :=
  r.rosterSet = true → r.roster.generation = r.topology.generation

theorem create_generation {definition : TopologyDefinition} {limits : Limits}
    {roster : ComponentRoster} (h : ComponentRoster.create definition limits = some roster) :
    roster.generation = definition.generation := by
  rw [ComponentRoster.create] at h
  repeat' split at h
  all_goals
    cases h
    try rfl

/-- What no part of the constructor writes, which is what an incarnation derives from evidence, and
what every part of it keeps. -/
structure Booted (r r' : PartitionRuntime) : Prop where
  options : r'.options = r.options
  ledger : r'.ledger = r.ledger
  isolations : r'.isolations = r.isolations
  acknowledgements : r'.acknowledgements = r.acknowledgements
  verifiedEffects : r'.verifiedEffects = r.verifiedEffects
  partitions : r'.partitions = r.partitions
  snapshot : r'.snapshot = r.snapshot
  closed : r'.closed = r.closed
  adopted : r.Adopted → r'.Adopted

namespace Booted

theorem refl (r : PartitionRuntime) : Booted r r := ⟨rfl, rfl, rfl, rfl, rfl, rfl, rfl, rfl, id⟩

theorem trans (r s t : PartitionRuntime) (h : Booted r s) (h' : Booted s t) : Booted r t where
  options := h'.options.trans h.options
  ledger := h'.ledger.trans h.ledger
  isolations := h'.isolations.trans h.isolations
  acknowledgements := h'.acknowledgements.trans h.acknowledgements
  verifiedEffects := h'.verifiedEffects.trans h.verifiedEffects
  partitions := h'.partitions.trans h.partitions
  snapshot := h'.snapshot.trans h.snapshot
  closed := h'.closed.trans h.closed
  adopted := fun hr => h'.adopted (h.adopted hr)

end Booted

theorem storeFence_booted (fence : FenceRecord) (r : PartitionRuntime) :
    Booted r (storeFence fence r) := by
  rw [storeFence]
  split
  · exact .refl r
  · exact ⟨rfl, rfl, rfl, rfl, rfl, rfl, rfl, rfl, id⟩

theorem rebuildFences_booted (entries : List InterruptedAuthority) (r : PartitionRuntime) :
    Booted r (rebuildFences entries r) := by
  induction entries generalizing r with
  | nil => exact .refl r
  | cons entry rest ih =>
    rw [rebuildFences]
    cases r.state.fenceSequence.next with
    | none => exact .refl r
    | some next =>
      refine .trans _ _ _ ?_ (ih _)
      exact .trans _ { r with state := { r.state with fenceSequence := next } } _
        ⟨rfl, rfl, rfl, rfl, rfl, rfl, rfl, rfl, id⟩ (storeFence_booted _ _)

theorem restoreRecord_booted (record : DurableRecord) :
    Act.Within Booted (restoreRecord record) := by
  intro r
  rw [restoreRecord, Act.read_bind]
  cases record.type with
  | epochState =>
    dsimp only
    cases decodeEpochState record.payload r.limits with
    | none => exact .refl r
    | some next => exact ⟨rfl, rfl, rfl, rfl, rfl, rfl, rfl, rfl, id⟩
  | policyDefinition =>
    dsimp only
    cases decodePolicy record.payload r.limits with
    | none => exact .refl r
    | some decoded =>
      show Booted r (restorePolicy decoded r)
      rw [restorePolicy]
      split
      · exact ⟨rfl, rfl, rfl, rfl, rfl, rfl, rfl, rfl, id⟩
      · exact .refl r
  | topologyDefinition =>
    dsimp only
    cases decodeTopology record.payload r.limits with
    | none => exact .refl r
    | some decoded =>
      dsimp only
      rcases hcreate : ComponentRoster.create decoded r.limits with _ | roster
      · exact .refl r
      · show Booted r (restoreTopology decoded roster r)
        rw [restoreTopology]
        split
        · exact ⟨rfl, rfl, rfl, rfl, rfl, rfl, rfl, rfl, fun _ _ => create_generation hcreate⟩
        · exact .refl r
  | lineageRecord =>
    dsimp only
    cases decodeLineage record.payload r.limits with
    | none => exact .refl r
    | some decoded =>
      dsimp only
      cases r.lineage.append decoded with
      | none => exact .refl r
      | some lineage => exact ⟨rfl, rfl, rfl, rfl, rfl, rfl, rfl, rfl, id⟩
  | decisionRecord =>
    dsimp only
    cases decodeDecision record.payload r.limits with
    | none => exact .refl r
    | some decoded => exact ⟨rfl, rfl, rfl, rfl, rfl, rfl, rfl, rfl, id⟩
  | fenceRecord =>
    dsimp only
    cases decodeFence record.payload with
    | none => exact .refl r
    | some decoded => exact ⟨rfl, rfl, rfl, rfl, rfl, rfl, rfl, rfl, id⟩

theorem reportRestarted_booted (r : PartitionRuntime) : Booted r (reportRestarted r) := by
  have hreport : ∀ (code : ReasonCode) (subject : String) (detail : Text) (r : PartitionRuntime),
      Booted r (reportRestart code subject detail r) :=
    fun _ _ _ _ => ⟨rfl, rfl, rfl, rfl, rfl, rfl, rfl, rfl, id⟩
  have hif : ∀ (b : Bool) (code : ReasonCode) (subject : String) (detail : Text)
      (r : PartitionRuntime),
      Booted r (if b then r else reportRestart code subject detail r) := by
    intro b code subject detail r
    split
    · exact .refl r
    · exact hreport _ _ _ _
  rw [reportRestarted]
  refine .trans _ _ _ (.trans _ _ _ (.trans _ _ _ (.trans _ _ _ (.trans _ _ _ (.trans _ _ _
    (hreport _ _ _ _) (hreport _ _ _ _)) (hif _ _ _ _ _)) (hif _ _ _ _ _)) (hreport _ _ _ _))
    (hif _ _ _ _ _)) (hreport _ _ _ _)

theorem advanceEpoch_booted (ids : BootIdentities) : Act.Within Booted (advanceEpoch ids) := by
  intro r
  rw [advanceEpoch, Act.read_bind]
  cases r.state.epoch.next with
  | none => exact .refl r
  | some epoch =>
    cases r.state.bootSequence.next with
    | none => exact .refl r
    | some bootSequence =>
      dsimp only
      rw [Act.modify_bind, Act.read_bind, Act.total_bind]
      have hentered : Booted r (reportRestarted (enterEpoch epoch bootSequence ids r)) :=
        .trans _ (enterEpoch epoch bootSequence ids r) _
          ⟨rfl, rfl, rfl, rfl, rfl, rfl, rfl, rfl, id⟩ (reportRestarted_booted _)
      split
      · exact .trans _ _ _ hentered ⟨rfl, rfl, rfl, rfl, rfl, rfl, rfl, rfl, id⟩
      · exact .trans _ _ _ hentered ⟨rfl, rfl, rfl, rfl, rfl, rfl, rfl, rfl, id⟩

theorem startFromStore_booted (store : DurableStore) (ids : BootIdentities) :
    Act.Within Booted (startFromStore store ids) := by
  have hopen : Act.Within Booted (openStore store) := by
    intro r
    rw [openStore]
    dsimp only
    split
    · exact ⟨rfl, rfl, rfl, rfl, rfl, rfl, rfl, rfl, id⟩
    · exact ⟨rfl, rfl, rfl, rfl, rfl, rfl, rfl, rfl, id⟩
  have hrestore : ∀ records, Act.Within Booted (restoreFromRecords records) := by
    intro records
    refine .bind Booted.trans ?_ fun _ r => rebuildFences_booted _ r
    exact .forEach Booted.refl Booted.trans (fun _ record => restoreRecord_booted record) records ()
  have htorn : ∀ torn, Act.Within Booted (Act.modify (reportTornTail torn) : RuntimeAct Unit) := by
    intro torn r
    rw [Act.modify_apply, reportTornTail]
    split
    · exact ⟨rfl, rfl, rfl, rfl, rfl, rfl, rfl, rfl, id⟩
    · exact .refl r
  refine .bind Booted.trans hopen fun loaded => .read_bind fun r => ?_
  refine Act.Within.bind Booted.trans (hrestore _) (fun _ => ?_) r
  exact .bind Booted.trans (htorn loaded.tornTailRecovered) fun _ => advanceEpoch_booted ids

/-- **A start derives nothing from evidence**: whatever the disk, the new incarnation has no
partitions, no snapshot and an empty ledger. -/
theorem construct_booted (options : RuntimeOptions) (disk : Disk) (ids : BootIdentities)
    (faults : List (Option AppendFault)) :
    Booted (unstarted options disk ids faults) (construct options disk ids faults).2 := by
  rw [construct, start, Act.read_bind]
  cases (unstarted options disk ids faults).options.policy.canonicalised
      (unstarted options disk ids faults).limits with
  | none => exact .refl _
  | some canonical =>
    have hdurable : ∀ store, Act.Within Booted (startDurable store ids) := by
      intro store
      cases store with
      | none => exact .pure Booted.refl ()
      | some store => exact startFromStore_booted store ids
    have hend : Act.Within Booted (Act.modify initialAssessment : RuntimeAct Unit) :=
      fun _ => ⟨rfl, rfl, rfl, rfl, rfl, rfl, rfl, rfl, id⟩
    dsimp only
    rw [Act.modify_bind]
    exact .trans _ { unstarted options disk ids faults with policy := canonical } _
      ⟨rfl, rfl, rfl, rfl, rfl, rfl, rfl, rfl, id⟩
      (Act.Within.bind Booted.trans (hdurable _) (fun _ => hend) _)

/-- The last thing a start does that does not fail. -/
theorem construct_initial {options : RuntimeOptions} {disk : Disk} {ids : BootIdentities}
    {faults : List (Option AppendFault)} {r : PartitionRuntime}
    (h : construct options disk ids faults = (.ok (), r)) : ∃ t, r = initialAssessment t := by
  rw [construct, start, Act.read_bind] at h
  generalize unstarted options disk ids faults = s at h
  rcases hpolicy : s.options.policy.canonicalised s.limits with _ | canonical
  · simp only [hpolicy] at h
    cases h
  · simp only [hpolicy] at h
    rw [Act.modify_bind] at h
    obtain ⟨-, t, -, hlast⟩ := Act.bind_ok.mp h
    cases hlast
    exact ⟨t, rfl⟩

end PartitionRuntime

end FabricPartition
