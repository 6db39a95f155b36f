import FabricPartition.EpochStates

/-!
# Fence identities

A fence bears a number, an identity made of the number and the boot of the coordinator, and the epoch
and the boot it was issued under.  One incarnation numbers its fences upwards and signs them in its own
name.  A start issues fences too, one for each interruption it finds, before it enters its own epoch:
it signs them in the name of the incarnation that died, and numbers them from where the last epoch
state stopped counting, which only assessments and starts commit.

`fences_distinct` — in the life of a store whose starts find nothing to fence and go on counting behind
every fence they read, all fences ever committed are told apart and are signed by who wrote them.
-/

set_option autoImplicit false

namespace FabricPartition

/-! ## What an identity tells -/

/-- The number some digits stand for, behind a number. -/
def decimalValue (n : Nat) (digits : Text) : Nat :=
  digits.foldl (fun v b => 10 * v + (b.toNat - 48)) n

theorem decimalValue_decimalAux {fuel n : Nat} (h : n < 10 ^ fuel) (acc : Text) :
    decimalValue 0 (decimalAux fuel n acc) = decimalValue n acc := by
  have hdigit : ∀ m < 10, (UInt8.ofNat (48 + m)).toNat - 48 = m := by decide
  induction fuel generalizing n acc with
  | zero =>
    obtain rfl : n = 0 := Nat.lt_one_iff.mp h
    rfl
  | succ fuel ih =>
    rw [decimalAux]
    split
    · rename_i hlt
      rw [decimalValue, List.foldl_cons, hdigit n hlt, Nat.mul_zero, Nat.zero_add]
      rfl
    · rw [ih (Nat.div_lt_of_lt_mul (by rwa [pow_succ, Nat.mul_comm] at h))]
      rw [decimalValue, List.foldl_cons, hdigit _ (Nat.mod_lt _ (by decide)), Nat.div_add_mod]
      rfl

theorem decimalValue_decimal {n : Nat} (h : n < 2 ^ 64) : decimalValue 0 (decimal n) = n :=
  decimalValue_decimalAux (h.trans (by decide)) []

namespace PartitionRuntime

/-- The identity of a fence tells its number. -/
theorem sequence_of_fenceIdText {n m : FenceSequence} {boot boot' : CoordinatorBootId}
    (h : fenceIdText n boot = fenceIdText m boot') : n = m := by
  -- the digits end at the first hyphen
  have hdigits : ∀ k : Nat, (decimal k ++ 45 :: boot.shortHex).takeWhile (· ≠ 45) = decimal k ∧
      (decimal k ++ 45 :: boot'.shortHex).takeWhile (· ≠ 45) = decimal k := by
    intro k
    have hne : ∀ b ∈ decimal k, decide (b ≠ 45) = true := by
      intro b hb
      rw [decide_eq_true_eq]
      rintro rfl
      exact absurd (decimal_alphanumeric k 45 hb) (by decide)
    rw [List.takeWhile_append_of_pos hne, List.takeWhile_append_of_pos hne]
    simp
  have htexts : decimal n.value.toNat ++ 45 :: boot.shortHex
      = decimal m.value.toNat ++ 45 :: boot'.shortHex := (List.cons.inj h).2
  have hsame := congrArg (List.takeWhile (· ≠ 45)) htexts
  rw [(hdigits _).1, (hdigits _).2] at hsame
  have hvalue := congrArg (decimalValue 0) hsame
  rw [decimalValue_decimal n.value.toNat_lt, decimalValue_decimal m.value.toNat_lt] at hvalue
  obtain ⟨n⟩ := n
  obtain ⟨m⟩ := m
  exact congrArg _ (UInt64.toNat_inj.mp hvalue)

/-- So does its image, and the identity with it. -/
theorem names_of_images {fs fs' : List FenceRecord} (h : fs.map encodeFence = fs'.map encodeFence) :
    fs.map FenceRecord.sequence = fs'.map FenceRecord.sequence ∧
      fs.map FenceRecord.id = fs'.map FenceRecord.id := by
  induction fs generalizing fs' with
  | nil =>
    obtain rfl : fs' = [] := List.map_eq_nil_iff.mp h.symm
    exact ⟨rfl, rfl⟩
  | cons f fs ih =>
    obtain ⟨f', rest, rfl, himage, hrest⟩ := List.map_eq_cons_iff.mp (h.symm.trans (List.map_cons ..))
    obtain ⟨hsequences, hids⟩ := ih hrest.symm
    simp only [encodeFence, List.append_assoc] at himage
    obtain ⟨hid, himage⟩ := codec_textId.cancel trivial trivial himage
    obtain ⟨hsequence, -⟩ := codec_counter.cancel trivial trivial himage
    rw [List.map_cons, List.map_cons, List.map_cons, List.map_cons, hid, hsequence, hsequences, hids]
    exact ⟨rfl, rfl⟩

/-- The image of a fence tells all of it. -/
theorem fence_of_image {f g : FenceRecord} (hlength : (encodeFence f).length < 2 ^ 32)
    (h : encodeFence f = encodeFence g) : f = g := by
  have hf : f.scope.id.text.length < 2 ^ 32 := by
    refine Nat.lt_of_le_of_lt ?_ hlength
    simp only [encodeFence, Write.uncheckedId, Write.text, List.length_append]
    omega
  have hg : g.scope.id.text.length < 2 ^ 32 := by
    refine Nat.lt_of_le_of_lt ?_ (h ▸ hlength)
    simp only [encodeFence, Write.uncheckedId, Write.text, List.length_append]
    omega
  simp only [encodeFence, List.append_assoc] at h
  obtain ⟨hid, h⟩ := codec_textId.cancel trivial trivial h
  obtain ⟨hsequence, h⟩ := codec_counter.cancel trivial trivial h
  obtain ⟨hkind, h⟩ := codec_u8.cancel trivial trivial h
  obtain ⟨hscope, h⟩ := text_cancel hf hg h
  obtain ⟨hpartition, h⟩ := codec_textId.cancel trivial trivial h
  obtain ⟨hauthority, h⟩ := codec_counter.cancel trivial trivial h
  obtain ⟨hfencedEpoch, h⟩ := codec_counter.cancel trivial trivial h
  obtain ⟨hfencedBoot, h⟩ := codec_binaryId.cancel trivial trivial h
  obtain ⟨hepoch, h⟩ := codec_counter.cancel trivial trivial h
  obtain ⟨hboot, h⟩ := codec_binaryId.cancel trivial trivial h
  obtain ⟨htick, h⟩ := codec_u64.cancel trivial trivial h
  have hcause := (codec_u16.cancel (s := []) (t := []) trivial trivial (congrArg (· ++ []) h)).1
  have hkind := Domain.injective ScopeKind.code_domain hkind
  obtain ⟨_, _, ⟨_, ⟨_⟩⟩, _, _, _, _, _, _, _, ⟨_⟩⟩ := f
  obtain ⟨_, _, ⟨_, ⟨_⟩⟩, _, _, _, _, _, _, _, ⟨_⟩⟩ := g
  subst hid hsequence hkind hscope hpartition hauthority hfencedEpoch hfencedBoot hepoch hboot htick
    hcause
  rfl

/-! ## Fences in order -/

section Ascending

variable {low high : FenceSequence} {fs gs : List FenceRecord}

theorem Ascending.weaken {low' : FenceSequence} (h : Ascending low' fs high)
    (hle : low.value.toNat ≤ low'.value.toNat) : Ascending low fs high := by
  cases fs with
  | nil => exact hle.trans h
  | cons f rest => exact ⟨hle.trans_lt h.1, h.2⟩

theorem Ascending.sublist (h : Ascending low fs high) (hsub : gs.Sublist fs) :
    Ascending low gs high := by
  induction hsub generalizing low with
  | slnil => exact h
  | cons f _ ih => exact (ih h.2).weaken (Nat.le_of_lt h.1)
  | cons_cons f _ ih => exact ⟨h.1, ih h.2⟩

/-- The upper bound may be any that is above all of them. -/
theorem Ascending.bounded {high' : FenceSequence} (h : Ascending low fs high)
    (hlow : low.value.toNat ≤ high'.value.toNat)
    (hall : ∀ f ∈ fs, f.sequence.value.toNat ≤ high'.value.toNat) : Ascending low fs high' := by
  induction fs generalizing low with
  | nil => exact hlow
  | cons f rest ih =>
    exact ⟨h.1, ih h.2 (hall f List.mem_cons_self) fun g hg => hall g (List.mem_cons_of_mem _ hg)⟩

theorem Ascending.increasing (h : Ascending low fs high) :
    (∀ f ∈ fs, low.value.toNat < f.sequence.value.toNat) ∧
      fs.Pairwise fun f g => f.sequence.value.toNat < g.sequence.value.toNat := by
  induction fs generalizing low with
  | nil => exact ⟨by simp, .nil⟩
  | cons f rest ih =>
    obtain ⟨habove, hpairwise⟩ := ih h.2
    refine ⟨fun g hg => ?_, List.pairwise_cons.mpr ⟨habove, hpairwise⟩⟩
    rcases List.mem_cons.mp hg with rfl | hg
    · exact h.1
    · exact h.1.trans (habove g hg)

end Ascending

/-! ## The fences in the journal -/

/-- The payloads of the fence records among some records. -/
def fencePayloads (records : List DurableRecord) : List Bytes :=
  (records.filter fun record => record.type = .fenceRecord).map DurableRecord.payload

theorem fencePayloads_append (xs ys : List DurableRecord) :
    fencePayloads (xs ++ ys) = fencePayloads xs ++ fencePayloads ys := by
  rw [fencePayloads, List.filter_append, List.map_append]
  rfl

/-- Commits add fences of theirs, in order. -/
theorem fencePayloads_commitAll (log : List Entry) (j : Journal) :
    ∃ kept, kept.Sublist ((fenceEntries log).map Prod.snd) ∧
      fencePayloads (Journal.records (commitAll log j)) = fencePayloads (Journal.records j) ++ kept := by
  induction log generalizing j with
  | nil => exact ⟨[], .slnil, (List.append_nil _).symm⟩
  | cons entry log ih =>
    obtain ⟨kept, hkept, hrest⟩ := ih (commitJournal entry.1 entry.2 j).2
    have hsplit : fenceEntries (entry :: log) = fenceEntries [entry] ++ fenceEntries log :=
      fenceEntries_append [entry] log
    rw [commitAll_cons, hrest, hsplit, List.map_append]
    rcases records_commitJournal entry.1 entry.2 j with hsame | ⟨sequence, hadded⟩
    · exact ⟨kept, hkept.trans (List.sublist_append_right _ _), by rw [hsame]⟩
    · rw [hadded, fencePayloads_append, List.append_assoc]
      refine ⟨_, List.Sublist.append ?_ hkept, rfl⟩
      rcases entry with ⟨type, payload⟩
      by_cases htype : type = .fenceRecord <;> simp [fencePayloads, fenceEntries, htype]

/-- A part of a method issued fences: in its own name, numbered upwards, and committed in order. -/
structure Issues (r : PartitionRuntime) (fs : List FenceRecord) (r' : PartitionRuntime) : Prop where
  added : fencePayloads (Journal.records r'.journal)
    = fencePayloads (Journal.records r.journal) ++ fs.map encodeFence
  numbered : Ascending r.state.fenceSequence fs r'.state.fenceSequence
  signed : ∀ f ∈ fs, Signed r.state.epoch r.state.boot f
  epoch : r'.state.epoch = r.state.epoch
  boot : r'.state.boot = r.state.boot

theorem Issues.trans {r s t : PartitionRuntime} {fs gs : List FenceRecord} (h : Issues r fs s)
    (h' : Issues s gs t) : Issues r (fs ++ gs) t where
  added := by rw [h'.added, h.added, List.map_append, List.append_assoc]
  numbered := h.numbered.append h'.numbered
  signed f hf := by
    rcases List.mem_append.mp hf with hf | hf
    · exact h.signed f hf
    · have hsigned := h'.signed f hf
      rwa [h.epoch, h.boot] at hsigned
  epoch := h'.epoch.trans h.epoch
  boot := h'.boot.trans h.boot

theorem Drifts.issues {r r' : PartitionRuntime} (h : Drifts r r') : ∃ fs, Issues r fs r' := by
  obtain ⟨log, added, hdrift⟩ := h
  obtain ⟨kept, hkept, hpayloads⟩ := fencePayloads_commitAll log r.journal
  rw [hdrift.fenceLog, List.map_map] at hkept
  obtain ⟨fs, hsub, rfl⟩ := List.sublist_map_iff.mp hkept
  refine ⟨fs, ?_, hdrift.numbered.sublist hsub, fun f hf => hdrift.signed f (hsub.subset hf),
    hdrift.epoch, hdrift.boot⟩
  rw [hdrift.journal, hpayloads]
  rfl

theorem Journaled.fencePayloads {type : DurableRecordType} (htype : type ≠ .fenceRecord)
    {j k : Journal} (h : Journaled (OfType type) j k) :
    fencePayloads (Journal.records k) = fencePayloads (Journal.records j) := by
  obtain ⟨log, htypes, rfl⟩ := h.exists_log
  obtain ⟨kept, hkept, hpayloads⟩ := fencePayloads_commitAll log j
  rw [fenceEntries_of_type htype htypes, List.map_nil, List.sublist_nil] at hkept
  rw [hpayloads, hkept, List.append_nil]

theorem Quiet.fencePayloads {r r' : PartitionRuntime} (h : Quiet r r') :
    fencePayloads (Journal.records r'.journal) = fencePayloads (Journal.records r.journal) := by
  obtain ⟨_, _, _, _, j, hj, rfl⟩ := h
  exact Journaled.fencePayloads (by decide) hj

/-- An assessment issues no fences. -/
theorem assessLocked_issues {allowRestore : Bool} {a t : PartitionRuntime}
    {res : Except PartitionError PartitionAssessment} (h : assessLocked allowRestore a = (res, t)) :
    Issues a [] t := by
  have hconsulted := assessLocked_consulted h
  refine ⟨?_, Nat.le_of_eq (by rw [hconsulted.fenceSequence]), by simp, hconsulted.epoch,
    hconsulted.boot⟩
  rw [List.map_nil, List.append_nil]
  rcases assessLocked_cases h with ⟨-, s, assessment, hq, rfl, -⟩ | ⟨-, rfl⟩ |
    ⟨generation, -, -, -, ⟨-, hq⟩ | ⟨outcome, -, hs⟩⟩
  · exact hq.fencePayloads
  · rfl
  · exact hq.fencePayloads
  · obtain ⟨decision, s, u, ps, hq, hcommit, hpub⟩ := hs
    have hbegun : PartitionRuntime.fencePayloads (Journal.records s.journal)
        = PartitionRuntime.fencePayloads (Journal.records a.journal) := hq.fencePayloads
    rw [← hbegun]
    rcases hpub with ⟨-, hpub⟩ | ⟨-, -, -, -, -, rfl⟩
    · obtain ⟨-, _, _, j, hj, -, hu⟩ := commitLineages_cases hcommit
      obtain ⟨-, -, k, hk, ht⟩ := publishAssessment_cases hpub
      have hlast := Journaled.fencePayloads (by decide) hk
      have hmid := Journaled.fencePayloads (by decide) hj
      rw [hu] at hlast
      rw [ht]
      exact hlast.trans hmid
    · rfl

/-- **What a call adds to the fences**: fences in the name of the incarnation, numbered upwards. -/
theorem call_issues (r : PartitionRuntime) (c : Call) : ∃ fs, Issues r fs (r.call c).2 := by
  have hwith : Issues r [] (r.withFaults c.faults) := by
    refine ⟨?_, Nat.le_refl _, by simp, rfl, rfl⟩
    rw [withFaults_records]
    simp
  by_cases hclose : c.operation = .close
  · refine ⟨[], ?_⟩
    have hopens := close_opens (r.withFaults c.faults)
    rw [call, hclose]
    have hstate : ((r.withFaults c.faults).perform .close).2.state
        = (r.withFaults c.faults).close.state := rfl
    refine Issues.trans hwith ⟨?_, ?_, by simp, ?_, ?_⟩
    · rw [List.map_nil, List.append_nil]
      exact congrArg PartitionRuntime.fencePayloads hopens.records
    · rw [hstate, hopens.state]
      exact Nat.le_refl _
    · rw [hstate, hopens.state]
    · rw [hstate, hopens.state]
  · have hphases := perform_phases (r.withFaults c.faults) hclose
    rw [Phases] at hphases
    rcases hassessing : (r.withFaults c.faults).assessing c.operation with _ | ⟨allowRestore, a⟩
    · rw [hassessing] at hphases
      obtain ⟨fs, hfs⟩ := hphases.issues
      exact ⟨_, hwith.trans hfs⟩
    · rw [hassessing] at hphases
      obtain ⟨fs, hfs⟩ := hphases.1.issues
      obtain ⟨gs, hgs⟩ := hphases.2.issues
      have hassess := assessLocked_issues (Prod.eta (assessLocked allowRestore a)).symm
      exact ⟨_, hwith.trans (hfs.trans (hassess.trans hgs))⟩

/-! ## The fences of a start -/

/-- The fences that are read from some records. -/
def readFences (records : List DurableRecord) : List FenceRecord :=
  records.filterMap fun record =>
    if record.type = .fenceRecord then decodeFence record.payload else none

/-- What a record does to the fence table. -/
theorem Restores.fences {record : DurableRecord} {r r' : PartitionRuntime}
    (h : Restores record r r') :
    (record.type = .fenceRecord ∧ ∃ f, decodeFence record.payload = some f ∧ r' = restoreFence f r) ∨
      record.type ≠ .fenceRecord ∧ r'.fences = r.fences := by
  rcases h with ⟨htype, _⟩ | ⟨htype, _⟩ | ⟨htype, _, _⟩ | ⟨htype, _, _⟩ | ⟨htype, _⟩ |
    ⟨htype, hdecode⟩
  · exact .inr ⟨by rw [htype]; decide, rfl⟩
  · refine .inr ⟨by rw [htype]; decide, ?_⟩
    rw [restorePolicy]
    split <;> rfl
  · refine .inr ⟨by rw [htype]; decide, ?_⟩
    rw [restoreTopology]
    split <;> rfl
  · exact .inr ⟨by rw [htype]; decide, rfl⟩
  · exact .inr ⟨by rw [htype]; decide, rfl⟩
  · exact .inl ⟨htype, _, hdecode, rfl⟩

/-- A fence that is restored takes the place of the oldest one, where the table is full. -/
theorem restoreFence_length {f : FenceRecord} {r : PartitionRuntime}
    (hle : r.fences.length ≤ r.limits.maxFenceRecords) :
    (restoreFence f r).fences.length = min (r.fences.length + 1) r.limits.maxFenceRecords := by
  rw [restoreFence]
  dsimp only
  split <;> simp only [List.length_tail, List.length_append, List.length_cons, List.length_nil] at * <;>
    omega

/-- **The table that is restored** is as long as what is read, up to its bound. -/
theorem Restored.fences {records : List DurableRecord} {r r' : PartitionRuntime}
    (h : Restored records r r') (hle : r.fences.length ≤ r.limits.maxFenceRecords) :
    fencePayloads records = (readFences records).map encodeFence ∧
      r'.fences.length
        = min (r.fences.length + (readFences records).length) r.limits.maxFenceRecords := by
  induction h with
  | nil => exact ⟨rfl, (Nat.min_eq_left hle).symm⟩
  | @cons record records r s t hrecord _ ih =>
    have hlimits : s.limits = r.limits := congrArg RuntimeOptions.limits hrecord.keeps.2
    have hpayload : fencePayloads (record :: records)
        = fencePayloads [record] ++ fencePayloads records := fencePayloads_append [record] _
    have hread : readFences (record :: records) = readFences [record] ++ readFences records :=
      List.filterMap_append (l := [record])
    rcases hrecord.fences with ⟨htype, f, hdecode, rfl⟩ | ⟨htype, hfences⟩
    · have hlength := restoreFence_length (f := f) hle
      obtain ⟨hpayloads, hrest⟩ := ih (by rw [hlength, hlimits]; exact Nat.min_le_right _ _)
      have hone : readFences [record] = [f] := by simp [readFences, htype, hdecode]
      have hplain : record.payload = encodeFence f := ((codec_fence.whole_iff _ _).mp hdecode).2
      rw [hpayload, hread, hone, hpayloads, hrest, hlength, hlimits]
      refine ⟨by simp [fencePayloads, htype, hplain], ?_⟩
      rw [List.length_append, List.length_singleton]
      omega
    · have hnone : readFences [record] = [] := by simp [readFences, htype]
      obtain ⟨hpayloads, hrest⟩ := ih (by rw [hfences, hlimits]; exact hle)
      rw [hpayload, hread, hnone, hpayloads, hrest, hfences, hlimits]
      exact ⟨by simp [fencePayloads, htype], by rw [List.nil_append]⟩

theorem storeFence_full {f : FenceRecord} {r : PartitionRuntime}
    (h : r.limits.maxFenceRecords ≤ r.fences.length) : storeFence f r = r := if_pos h

/-- Nothing is fenced where nothing is interrupted, the table is full or the numbers are spent. -/
theorem rebuildFences_idle {entries : List InterruptedAuthority} {r : PartitionRuntime}
    (h : entries = [] ∨ r.limits.maxFenceRecords ≤ r.fences.length ∨
      r.state.fenceSequence.next = none) : (rebuildFences entries r).journal = r.journal := by
  rcases h with rfl | hfull | hspent
  · rfl
  · induction entries generalizing r with
    | nil => rfl
    | cons entry rest ih =>
      rw [rebuildFences]
      rcases r.state.fenceSequence.next with _ | next
      · rfl
      · dsimp only
        rw [storeFence_full (by exact hfull)]
        exact ih hfull
  · rcases entries with _ | ⟨entry, rest⟩
    · rfl
    · rw [rebuildFences, hspent]

/-- A start has nothing to fence, or cannot fence it: nothing was live in the last epoch state, the
fence table is full, or the fence numbers are spent. -/
def NothingFenced (options : RuntimeOptions) (disk : Disk) (ids : BootIdentities) : Prop :=
  (durableState options disk ids).liveGrants = [] ∨
    options.limits.maxFenceRecords ≤ (readFences (loadedRecords options disk)).length ∨
    (durableState options disk ids).fenceSequence.next = none

instance (options : RuntimeOptions) (disk : Disk) (ids : BootIdentities) :
    Decidable (NothingFenced options disk ids) := inferInstanceAs (Decidable (_ ∨ _ ∨ _))

/-- The fence numbers are not set back behind a fence that is read. -/
def FencesCounted (options : RuntimeOptions) (disk : Disk) (ids : BootIdentities) : Prop :=
  ∀ f ∈ readFences (loadedRecords options disk),
    f.sequence.value.toNat ≤ (durableState options disk ids).fenceSequence.value.toNat

instance (options : RuntimeOptions) (disk : Disk) (ids : BootIdentities) :
    Decidable (FencesCounted options disk ids) := inferInstanceAs (Decidable (∀ f ∈ _, _))

/-- **What a start that fences nothing leaves of the fences**: those it has read, and a counter that
goes on where the last epoch state stopped. -/
theorem construct_fences {options : RuntimeOptions} {disk : Disk} {ids : BootIdentities}
    {faults : List (Option AppendFault)} {r : PartitionRuntime} (hdurable : options.durable = true)
    (h : construct options disk ids faults = (.ok (), r)) (hnothing : NothingFenced options disk ids) :
    fencePayloads (Journal.records r.journal) = fencePayloads (loadedRecords options disk) ∧
      fencePayloads (loadedRecords options disk)
        = (readFences (loadedRecords options disk)).map encodeFence ∧
      (durableState options disk ids).fenceSequence.value.toNat
        ≤ r.state.fenceSequence.value.toNat := by
  rcases start_cases (unstarted_store hdurable disk ids faults) h with
    ⟨-, policy, restored, entered, hc⟩ | ⟨⟨_, herror⟩, -⟩
  · obtain ⟨-, -, hrestores, ⟨epoch, bootSequence, reasons, -, -, rfl⟩, s, hcommit, rfl⟩ := hc
    rw [loaded_records] at hrestores
    generalize hfresh : opened _ _ = fresh at hrestores
    have hopened : fresh.options = options ∧ fresh.fences = [] ∧ fresh.interrupted = [] ∧
        Journal.records fresh.journal = loadedRecords options disk ∧
        fresh.state = (unstarted options disk ids []).state := by
      subst hfresh
      exact ⟨rfl, rfl, rfl, loaded_records options disk faults, rfl⟩
    obtain ⟨hoptions, hempty, hinterrupted, hrecords, hstate⟩ := hopened
    have hlimits : fresh.limits = options.limits := congrArg RuntimeOptions.limits hoptions
    obtain ⟨hread, hlength⟩ := hrestores.fences (by rw [hempty]; exact Nat.zero_le _)
    have hkept : restored.limits = options.limits ∧ restored.journal = fresh.journal :=
      hrestores.invariant (P := fun u => u.limits = options.limits ∧ u.journal = fresh.journal)
        (fun _ _ _ _ hstep hu => ⟨(congrArg RuntimeOptions.limits hstep.keeps.2).trans hu.1,
          hstep.keeps.1.trans hu.2⟩) ⟨hlimits, rfl⟩
    have hresumed : restored.state.fenceSequence = (durableState options disk ids).fenceSequence ∧
        ((durableState options disk ids).liveGrants = [] → restored.interrupted = []) := by
      rw [durableState, ← hlimits]
      rcases hrestores.lastEpochState with ⟨hnone, hsame, hint⟩ | ⟨state, hsome, -, hsame, hint⟩
      · rw [hnone, hsame, hint, hstate, hinterrupted]
        exact ⟨rfl, fun _ => rfl⟩
      · rw [hsome, hsame, hint]
        refine ⟨rfl, fun hnil => ?_⟩
        rw [Option.getD_some] at hnil
        rw [EpochState.interruptions, hnil, List.map_nil]
    have hidle : (rebuildFences restored.interrupted restored).journal = restored.journal := by
      refine rebuildFences_idle ?_
      rcases hnothing with hnil | hfull | hspent
      · exact .inl (hresumed.2 hnil)
      · refine .inr (.inl ?_)
        rw [hlength, hempty, List.length_nil, Nat.zero_add, hlimits, hkept.1]
        exact Nat.le_min.mpr ⟨hfull, Nat.le_refl _⟩
      · exact .inr (.inr (by rw [hresumed.1]; exact hspent))
    obtain ⟨added, fenceSequence, j, -, hascending, -, hrebuilt⟩ :=
      rebuildFences_rebuilt restored.interrupted restored
    have hcounter : (rebuildFences restored.interrupted restored).state.fenceSequence
        = fenceSequence := by rw [hrebuilt]
    generalize rebuildFences restored.interrupted restored = fenced at hcommit hidle hcounter
    obtain rfl : (commitRecord .epochState _ _).2 = s := congrArg Prod.snd hcommit
    refine ⟨?_, hread, ?_⟩
    · rw [← hrecords, ← hkept.2, ← hidle]
      exact Journaled.fencePayloads (by decide : DurableRecordType.epochState ≠ .fenceRecord) (.single rfl)
    · rw [← hresumed.1]
      refine hascending.le.trans (Nat.le_of_eq ?_)
      rw [← hcounter]
      rfl
  · cases herror

end PartitionRuntime

/-- A restart fences nothing, and goes on counting behind all fences it reads. -/
def Moment.KeepsFences : Moment → Prop
  | .called _ => True
  | .restarted before options ids _ _ =>
    PartitionRuntime.NothingFenced options before.remains ids ∧
      PartitionRuntime.FencesCounted options before.remains ids

instance : (m : Moment) → Decidable m.KeepsFences
  | .called _ => .isTrue trivial
  | .restarted _ _ _ _ _ => inferInstanceAs (Decidable (_ ∧ _))

namespace PartitionRuntime

/-- All fences that were ever committed are told apart, by their numbers and by their identities. -/
def FencesDistinct (r : PartitionRuntime) : Prop :=
  ∃ fs : List FenceRecord, fencePayloads (Journal.records r.journal) = fs.map encodeFence ∧
    (fs.map FenceRecord.sequence).Nodup ∧ (fs.map FenceRecord.id).Nodup

/-- The fences a moment commits are signed by the incarnation that commits them. -/
def Attributed (m : Moment) : Prop :=
  ∃ fs : List FenceRecord, fencePayloads (Journal.records m.after.journal)
      = fencePayloads (Journal.records m.before.journal) ++ fs.map encodeFence ∧
    ∀ f ∈ fs, f.issuingEpoch = m.after.state.epoch ∧ f.issuingBoot = m.after.state.boot

/-- The fences in the journal are numbered upwards, up to the counter. -/
def FencesInOrder (r : PartitionRuntime) : Prop :=
  ∃ fs : List FenceRecord, fencePayloads (Journal.records r.journal) = fs.map encodeFence ∧
    Ascending ⟨0⟩ fs r.state.fenceSequence ∧ ∀ f ∈ fs, ∃ epoch boot, Signed epoch boot f

theorem FencesInOrder.distinct {r : PartitionRuntime} (h : FencesInOrder r) : FencesDistinct r := by
  obtain ⟨fs, hpayloads, hascending, hsigned⟩ := h
  refine ⟨fs, hpayloads, List.pairwise_map.mpr ?_, List.pairwise_map.mpr ?_⟩
  · refine hascending.increasing.2.imp fun {f g} hlt heq => ?_
    rw [heq] at hlt
    exact Nat.lt_irrefl _ hlt
  · refine hascending.increasing.2.imp_of_mem fun {f g} hf hg hlt heq => ?_
    obtain ⟨_, _, hsignedf⟩ := hsigned f hf
    obtain ⟨_, _, hsignedg⟩ := hsigned g hg
    have htexts := hsignedf.id.symm.trans ((congrArg TextId.text heq).trans hsignedg.id)
    rw [sequence_of_fenceIdText htexts] at hlt
    exact Nat.lt_irrefl _ hlt

/-- **A call** keeps the fences in order, and signs those it commits. -/
theorem call_fencesInOrder {r : PartitionRuntime} (c : Call) (hr : FencesInOrder r) :
    FencesInOrder (r.call c).2 ∧ ∃ fs : List FenceRecord,
      fencePayloads (Journal.records (r.call c).2.journal)
        = fencePayloads (Journal.records r.journal) ++ fs.map encodeFence ∧
      ∀ f ∈ fs, f.issuingEpoch = (r.call c).2.state.epoch ∧
        f.issuingBoot = (r.call c).2.state.boot := by
  obtain ⟨fs, hpayloads, hascending, hsigned⟩ := hr
  obtain ⟨gs, hissues⟩ := call_issues r c
  refine ⟨⟨fs ++ gs, ?_, hascending.append hissues.numbered, fun f hf => ?_⟩, gs, hissues.added,
    fun f hf => ?_⟩
  · rw [hissues.added, hpayloads, List.map_append]
  · rcases List.mem_append.mp hf with hf | hf
    · exact hsigned f hf
    · exact ⟨_, _, hissues.signed f hf⟩
  · rw [hissues.epoch, hissues.boot]
    exact ⟨(hissues.signed f hf).epoch, (hissues.signed f hf).boot⟩

/-- **A start** that fences nothing and goes on counting keeps them in order. -/
theorem construct_fencesInOrder {options : RuntimeOptions} {disk : Disk} {ids : BootIdentities}
    {faults : List (Option AppendFault)} {r : PartitionRuntime} (hdurable : options.durable = true)
    (h : construct options disk ids faults = (.ok (), r)) (hnothing : NothingFenced options disk ids)
    (hcounted : FencesCounted options disk ids) {fs : List FenceRecord}
    (hpayloads : fencePayloads (loadedRecords options disk) = fs.map encodeFence)
    {high : FenceSequence} (hascending : Ascending ⟨0⟩ fs high)
    (hsigned : ∀ f ∈ fs, ∃ epoch boot, Signed epoch boot f) : FencesInOrder r := by
  obtain ⟨hkept, hread, hcounter⟩ := construct_fences hdurable h hnothing
  refine ⟨fs, hkept.trans hpayloads, hascending.bounded (Nat.zero_le _) fun f hf => ?_, hsigned⟩
  obtain ⟨hsequences, -⟩ := names_of_images (hpayloads.symm.trans hread)
  obtain ⟨g, hg, hsame⟩ := List.mem_map.mp (hsequences ▸ List.mem_map_of_mem hf)
  rw [← hsame]
  exact (hcounted g hg).trans hcounter

/-- **Fence identities are unique and attributable** in the life of a durable store without I/O errors,
as long as each start finds nothing to fence and goes on counting behind all fences it reads. -/
theorem fences_distinct {options : RuntimeOptions} {ids : BootIdentities} {r : PartitionRuntime}
    {incidents : List Incident} (hdurable : options.durable = true)
    (hnarrow : options.limits.maxRecordBytes < 2 ^ 32)
    (hfirst : construct options {} ids [] = (.ok (), r))
    (h : ∀ m ∈ r.history incidents, m.Undisturbed ∧ m.KeepsFences) :
    FencesDistinct r ∧ ∀ m ∈ r.history incidents, FencesDistinct m.after ∧ Attributed m := by
  obtain ⟨-, hempty, hunharmed⟩ := first_unharmed hdurable hnarrow hfirst
  have hinit : FencesInOrder r := by
    have hlive : (durableState options {} ids).liveGrants = [] := by
      rw [durableState, hempty]
      rfl
    have hnone : fencePayloads (loadedRecords options {}) = ([] : List FenceRecord).map encodeFence := by
      rw [hempty]
      rfl
    refine construct_fencesInOrder hdurable hfirst (.inl hlive) ?_ hnone
      (show Ascending ⟨0⟩ [] ⟨0⟩ from Nat.le_refl 0) (by simp)
    rw [FencesCounted, hempty]
    simp [readFences]
  refine ⟨hinit.distinct, fun m hm => ?_⟩
  have hstep : ∀ m ∈ r.history incidents, Happened m →
      Journal.Unharmed m.before.journal ∧ FencesInOrder m.before →
      (Journal.Unharmed m.after.journal ∧ FencesInOrder m.after) ∧ Attributed m := by
    rintro (⟨before, c, response, after⟩ | ⟨before, options, ids, faults, after⟩) hm hhappened
      ⟨hbefore, hsound⟩
    · obtain ⟨rfl, rfl⟩ := Prod.mk.inj (show (response, after) = before.call c from hhappened)
      obtain ⟨horder, hattributed⟩ := call_fencesInOrder c hsound
      exact ⟨⟨call_unharmed hbefore (h _ hm).1, horder⟩, hattributed⟩
    · obtain ⟨hundisturbed, hnothing, hcounted⟩ := h _ hm
      obtain ⟨restored, -, hloaded, hafter⟩ := restart_revives hhappened hundisturbed hbefore
      obtain ⟨fs, hpayloads, hascending, hsigned⟩ := hsound
      have horder := construct_fencesInOrder hundisturbed.1 hhappened hnothing hcounted
        ((congrArg fencePayloads hloaded).trans hpayloads) hascending hsigned
      refine ⟨⟨hafter, horder⟩, [], ?_, by simp⟩
      rw [List.map_nil, List.append_nil]
      exact ((construct_fences hundisturbed.1 hhappened hnothing).1).trans
        (congrArg fencePayloads hloaded)
  obtain ⟨hhappened, hbefore, hafter⟩ := history_invariant
    (P := fun r => Journal.Unharmed r.journal ∧ FencesInOrder r) ⟨hunharmed, hinit⟩
    (fun m hm hhappened hbefore => (hstep m hm hhappened hbefore).1) m hm
  exact ⟨hafter.2.distinct, (hstep m hm hhappened hbefore).2⟩

/-- A component is granted authority, which a second roster takes from it. -/
def reroster : List Incident :=
  [.call ⟨.adoptTopology (smallTopology 1 ["a"]), []⟩, .call ⟨.assess, []⟩,
    .call ⟨.adoptTopology (smallTopology 2 ["b"]), []⟩]

set_option maxRecDepth 4000 in
/-- Where the fence table takes one fence, the next incarnation has no room for another. -/
theorem one_fence_distinct :
    let history := oneMarkRuntime.history
      (reroster ++ [.call ⟨.assess, []⟩, reopen oneMarkRuntime.options])
    FencesDistinct oneMarkRuntime ∧ ∀ m ∈ history, FencesDistinct m.after ∧ Attributed m :=
  fences_distinct rfl (by decide) oneMarkRuntime_started (by decide +kernel)

set_option maxRecDepth 4000 in
/-- The next incarnation finds the grant of the first roster marked and no fence counted: it fences it
again, under the number and the identity of the first fence, and in the name of the incarnation that
died. -/
theorem fence_identity_given_twice :
    ∃ m ∈ durableRuntime.history (reroster ++ [reopen {}]),
      ¬ FencesDistinct m.after ∧ ¬ Attributed m := by
  have hrun : ∃ m ∈ durableRuntime.history (reroster ++ [reopen {}]),
      fencePayloads (Journal.records m.before.journal)
        = (readFences (Journal.records m.before.journal)).map encodeFence ∧
      fencePayloads (Journal.records m.after.journal)
        = (readFences (Journal.records m.after.journal)).map encodeFence ∧
      ¬ ((readFences (Journal.records m.after.journal)).map FenceRecord.id).Nodup ∧
      ∃ g ∈ (readFences (Journal.records m.after.journal)).drop
          (readFences (Journal.records m.before.journal)).length,
        (encodeFence g).length < 2 ^ 32 ∧ g.issuingEpoch ≠ m.after.state.epoch := by
    decide +kernel
  obtain ⟨m, hm, hbefore, hafter, hids, g, hg, hlength, hepoch⟩ := hrun
  refine ⟨m, hm, ?_, ?_⟩
  · rintro ⟨fs, hpayloads, -, hnodup⟩
    rw [← (names_of_images (hafter.symm.trans hpayloads)).2] at hnodup
    exact hids hnodup
  · rintro ⟨fs, hadded, hattributed⟩
    -- the fence that was added is one of those that are said to have been
    have hsplit := congrArg (List.drop (fencePayloads (Journal.records m.before.journal)).length) hadded
    rw [List.drop_left, hafter, hbefore, List.length_map, ← List.map_drop] at hsplit
    obtain ⟨f, hf, himage⟩ := List.mem_map.mp (hsplit ▸ List.mem_map_of_mem hg)
    obtain rfl := fence_of_image hlength himage.symm
    exact hepoch (hattributed g hf).1

end PartitionRuntime

end FabricPartition
