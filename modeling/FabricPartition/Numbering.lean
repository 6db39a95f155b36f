import FabricPartition.Incarnations

/-!
# Decision numbers

As long as one incarnation lasts, decisions are published in the order of their numbers: a number is
drawn, and published under or given up, before the next one is drawn.  The numbers of one incarnation
go on where the last epoch state on the disk stopped counting.  A decision that was made durable behind
it has a number above that, which is then drawn again; the audit log is in order over all incarnations
as far as no restart meets such a decision (`Moment.Counts`).
-/

set_option autoImplicit false

namespace FabricPartition

/-! ## The number of a decision record -/

/-- The number of a decision. -/
def Decision.number (d : Decision) : Nat := d.bindings.decisionSequence.value.toNat

/-- A decision that is read from the image of another one bears its number. -/
theorem number_of_image {d d' : Decision} (hlength : (encodeDecision d).length < 2 ^ 32)
    (h : encodeDecision d = plainDecision d') : d'.number = d.number := by
  have hd : d.scope.id.text.length < 2 ^ 32 := by
    refine Nat.lt_of_le_of_lt ?_ hlength
    simp only [encodeDecision, Write.uncheckedId, Write.text, List.length_append]
    omega
  have hd' : d'.scope.id.text.length < 2 ^ 32 := by
    refine Nat.lt_of_le_of_lt ?_ (h ▸ hlength)
    simp only [plainDecision, Write.uncheckedId, Write.text, List.length_append]
    omega
  simp only [encodeDecision, plainDecision, List.append_assoc] at h
  obtain ⟨-, h⟩ := codec_textId.cancel trivial trivial h
  obtain ⟨-, h⟩ := codec_u8.cancel trivial trivial h
  obtain ⟨-, h⟩ := codec_u8.cancel trivial trivial h
  obtain ⟨-, h⟩ := codec_u8.cancel trivial trivial h
  obtain ⟨-, h⟩ := text_cancel hd hd' h
  obtain ⟨hbindings, -⟩ := codec_bindings.cancel trivial trivial h
  rw [Decision.number, Decision.number, hbindings]

theorem numbers_of_images {ds ds' : List Decision}
    (hlength : ∀ d ∈ ds, (encodeDecision d).length < 2 ^ 32)
    (h : ds.map encodeDecision = ds'.map plainDecision) :
    ds'.map Decision.number = ds.map Decision.number := by
  induction ds generalizing ds' with
  | nil =>
    rw [List.map_nil] at h
    rw [List.map_eq_nil_iff.mp h.symm]
  | cons d ds ih =>
    obtain ⟨d', rest, rfl, himage, hrest⟩ := List.map_eq_cons_iff.mp (h.symm.trans (List.map_cons ..))
    rw [List.map_cons, List.map_cons,
      number_of_image (hlength d List.mem_cons_self) himage.symm,
      ih (fun e he => hlength e (List.mem_cons_of_mem _ he)) hrest.symm]

/-- The log after an entry, up to the entries that it drops. -/
theorem DecisionLog.append_entries (log : DecisionLog) (d : Decision) :
    (log.append d).entries.Sublist (log.entries ++ [d]) :=
  List.drop_sublist _ _

/-- The payloads of the decision records among some records. -/
def decisionPayloads (records : List DurableRecord) : List Bytes :=
  (records.filter fun record => record.type = .decisionRecord).map DurableRecord.payload

theorem decisionPayloads_append (xs ys : List DurableRecord) :
    decisionPayloads (xs ++ ys) = decisionPayloads xs ++ decisionPayloads ys := by
  rw [decisionPayloads, List.filter_append, List.map_append]
  rfl

namespace PartitionRuntime

/-! ## One incarnation -/

/-- The counter of decision numbers. -/
def decisionCounter (r : PartitionRuntime) : Nat := r.state.decisionSequence.value.toNat

/-- The numbers of the decisions in the log increase and are below a bound, and so do and are those
of the decisions that were made durable. -/
structure Tallied (bound : Nat) (r : PartitionRuntime) : Prop where
  log : (r.decisions.entries.map Decision.number).Pairwise (· < ·)
  logBound : ∀ d ∈ r.decisions.entries, d.number < bound
  durable : ∃ ds : List Decision,
    decisionPayloads (Journal.records r.journal) = ds.map encodeDecision ∧
      (ds.map Decision.number).Pairwise (· < ·) ∧ ∀ d ∈ ds, d.number < bound

/-- Inside a method: what was published is below the number that is held back, if one is. -/
structure PointTallied (x : Point) : Prop where
  tallied : Tallied (x.2.elim (x.1.decisionCounter + 1) fun n => n.value.toNat) x.1
  held : ∀ n ∈ x.2, n.value.toNat = x.1.decisionCounter

theorem Tallied.mono {bound bound' : Nat} {r : PartitionRuntime} (h : Tallied bound r)
    (hle : bound ≤ bound') : Tallied bound' r := by
  obtain ⟨ds, hpayloads, hincreasing, hbound⟩ := h.durable
  exact ⟨h.log, fun d hd => (h.logBound d hd).trans_le hle, ds, hpayloads, hincreasing,
    fun d hd => (hbound d hd).trans_le hle⟩

/-- What else is written does not matter. -/
theorem Tallied.of_eq {bound : Nat} {r r' : PartitionRuntime} (h : Tallied bound r)
    (hlog : r'.decisions = r.decisions)
    (hrecords : decisionPayloads (Journal.records r'.journal)
      = decisionPayloads (Journal.records r.journal)) : Tallied bound r' := by
  obtain ⟨ds, hpayloads, hrest⟩ := h.durable
  exact ⟨hlog ▸ h.log, hlog ▸ h.logBound, ds, hrecords.trans hpayloads, hrest⟩

/-- A record of another type is no decision. -/
theorem decisionPayloads_commit {type : DurableRecordType} (htype : type ≠ .decisionRecord)
    (payload : Bytes) (j : Journal) :
    decisionPayloads (Journal.records (commitJournal type payload j).2)
      = decisionPayloads (Journal.records j) := by
  rcases records_commitJournal type payload j with h | ⟨sequence, h⟩ <;> rw [h]
  rw [decisionPayloads_append]
  simp [decisionPayloads, htype]

/-- What publishing a decision writes: a decision of its number, to the log and perhaps to the
journal. -/
theorem publishDecision_cases (d : Decision) (r : PartitionRuntime) :
    ∃ published : Decision, published.number = d.number ∧
      (publishDecision d r).2.state = r.state ∧
      (publishDecision d r).2.decisions = r.decisions.append published ∧
      ((publishDecision d r).2.journal = r.journal ∨
        (publishDecision d r).2.journal
          = (commitJournal .decisionRecord (encodeDecision published) r.journal).2) := by
  rw [publishDecision]
  dsimp only
  generalize (_ ++ _ : List ReasonCode) = triggers
  refine ⟨{ d with revocationTriggers := triggers }, rfl, ?_⟩
  split
  · rw [commitRecord]
    exact ⟨rfl, rfl, .inr rfl⟩
  · exact ⟨rfl, rfl, .inl rfl⟩

/-- A decision is published under the number that is held back. -/
theorem Tallied.publish {n : Nat} {r : PartitionRuntime} (h : Tallied n r) {d : Decision}
    (hd : d.number = n) : Tallied (n + 1) (publishDecision d r).2 := by
  obtain ⟨ds, hpayloads, hincreasing, hbound⟩ := h.durable
  obtain ⟨published, hsame, -, hdecisions, hjournal⟩ := publishDecision_cases d r
  have hnumber : published.number = n := hsame.trans hd
  have hlog := r.decisions.append_entries published
  -- a number above all that increase below it
  have hpairwise : ∀ numbers : List Nat, numbers.Pairwise (· < ·) → (∀ v ∈ numbers, v < n) →
      (numbers ++ [published.number]).Pairwise (· < ·) := fun numbers hnumbers hlt =>
    List.pairwise_append.mpr ⟨hnumbers, List.pairwise_singleton _ _, fun v hv w hw => by
      rw [List.mem_singleton.mp hw, hnumber]
      exact hlt v hv⟩
  have hentries : ((r.decisions.append published).entries.map Decision.number).Pairwise (· < ·) ∧
      ∀ e ∈ (r.decisions.append published).entries, e.number < n + 1 := by
    refine ⟨?_, fun e he => ?_⟩
    · refine List.Pairwise.sublist (hlog.map _) ?_
      rw [List.map_append, List.map_singleton]
      refine hpairwise _ h.log fun v hv => ?_
      obtain ⟨e, he, rfl⟩ := List.mem_map.mp hv
      exact h.logBound e he
    · rcases List.mem_append.mp (hlog.subset he) with he | he
      · exact Nat.lt_succ_of_lt (h.logBound e he)
      · rw [List.mem_singleton.mp he, hnumber]
        exact Nat.lt_succ_self n
  rw [← hdecisions] at hentries
  refine ⟨hentries.1, hentries.2, ?_⟩
  have hkept : ∃ ds : List Decision, decisionPayloads (Journal.records r.journal) = ds.map encodeDecision ∧
      (ds.map Decision.number).Pairwise (· < ·) ∧ ∀ e ∈ ds, e.number < n + 1 :=
    ⟨ds, hpayloads, hincreasing, fun e he => Nat.lt_succ_of_lt (hbound e he)⟩
  rcases hjournal with hjournal | hjournal <;> rw [hjournal]
  · exact hkept
  · rcases records_commitJournal .decisionRecord (encodeDecision published) r.journal with
      hrecords | ⟨sequence, hadded⟩
    · rw [hrecords]
      exact hkept
    · refine ⟨ds ++ [published], ?_, ?_, fun e he => ?_⟩
      · rw [hadded, decisionPayloads_append, hpayloads, List.map_append]
        rfl
      · rw [List.map_append, List.map_singleton]
        refine hpairwise _ hincreasing fun v hv => ?_
        obtain ⟨e, he, rfl⟩ := List.mem_map.mp hv
        exact hbound e he
      · rcases List.mem_append.mp he with he | he
        · exact Nat.lt_succ_of_lt (hbound e he)
        · rw [List.mem_singleton.mp he, hnumber]
          exact Nat.lt_succ_self n

/-- A write that publishes nothing and draws nothing. -/
theorem PointTallied.of_eq {r r' : PartitionRuntime} {p : Option DecisionSequence}
    (h : PointTallied (r, p)) (hcounter : r'.state.decisionSequence = r.state.decisionSequence)
    (hlog : r'.decisions = r.decisions)
    (hrecords : decisionPayloads (Journal.records r'.journal)
      = decisionPayloads (Journal.records r.journal)) : PointTallied (r', p) := by
  have hsame : r'.decisionCounter = r.decisionCounter := by
    rw [decisionCounter, decisionCounter, hcounter]
  refine ⟨?_, fun n hn => (h.held n hn).trans hsame.symm⟩
  have htallied := h.tallied.of_eq hlog hrecords
  dsimp only at htallied ⊢
  rwa [hsame]

/-- A commit of another type. -/
theorem PointTallied.commit {r s : PartitionRuntime} {p : Option DecisionSequence}
    (h : PointTallied (r, p)) {type : DurableRecordType} (htype : type ≠ .decisionRecord)
    {payload : Bytes} {committed : Bool} (hcommit : commitRecord type payload r = (committed, s)) :
    PointTallied (s, p) := by
  obtain rfl : (commitRecord type payload r).2 = s := congrArg Prod.snd hcommit
  rw [commitRecord]
  exact h.of_eq rfl rfl (decisionPayloads_commit htype payload r.journal)

/-- **One write.** -/
theorem Write.tallied {x y : Point} (h : Write x y) (hx : PointTallied x) : PointTallied y := by
  rcases h with h | htype | hnext | hd | _ | ⟨_, _, _⟩ | ⟨_, _, hcommit, _⟩ | ⟨_, _, hcommit, _⟩ |
    ⟨hplain, hjournal⟩ | _
  · exact hx.of_eq h.decisionSequence h.decisions (by rw [h.journal])
  · refine hx.commit ?_ rfl
    rcases htype with rfl | rfl <;> decide
  · -- a number is drawn: it is the one the counter moves to
    rename_i r n
    have hcounter : n.value.toNat = r.decisionCounter + 1 := Counter.next_toNat hnext
    have htallied : Tallied (r.decisionCounter + 1) r := hx.tallied
    refine ⟨?_, fun m hm => ?_⟩
    · show Tallied n.value.toNat _
      rw [hcounter]
      exact htallied.of_eq rfl rfl
    · obtain rfl := Option.some.inj hm
      rfl
  · -- what is held back is published
    rename_i r n d
    have hheld := hx.held n rfl
    obtain ⟨published, -, hstate, -⟩ := publishDecision_cases d r
    refine ⟨?_, fun m hm => nomatch hm⟩
    show Tallied ((publishDecision d r).2.decisionCounter + 1) _
    rw [decisionCounter, hstate, ← decisionCounter, ← hheld]
    exact hx.tallied.publish (congrArg (fun m : DecisionSequence => m.value.toNat) hd)
  · -- what is held back is given up
    rename_i r n
    exact ⟨hx.tallied.mono ((hx.held n rfl).trans_le (Nat.le_succ _)), fun m hm => nomatch hm⟩
  · rw [storeFence]
    split
    · exact hx.of_eq rfl rfl rfl
    · have hfence : DurableRecordType.fenceRecord ≠ .decisionRecord := by decide
      refine PointTallied.commit ?_ hfence rfl
      exact hx.of_eq rfl rfl rfl
  · exact (hx.commit (by decide) hcommit).of_eq rfl rfl rfl
  · exact hx.commit (by decide) hcommit
  · refine hx.of_eq hplain.decisionSequence hplain.decisions ?_
    rw [hjournal, decisionPayloads_commit (by decide)]
  · exact hx.of_eq rfl rfl rfl

/-- **A method** keeps the numbers in order. -/
theorem Along.tallied {r r' : PartitionRuntime} (h : Along none r r')
    (hr : Tallied (r.decisionCounter + 1) r) : Tallied (r'.decisionCounter + 1) r' := by
  have hall : ∀ y : Point, Writes (r, none) y → PointTallied y := by
    intro y hy
    induction hy with
    | refl => exact ⟨hr, fun n hn => nomatch hn⟩
    | tail _ hstep ih => exact hstep.tallied ih
  exact (hall _ h).tallied

/-- **A call** keeps the numbers in order. -/
theorem call_tallied {r : PartitionRuntime} (c : Call) (hr : Tallied (r.decisionCounter + 1) r) :
    Tallied ((r.call c).2.decisionCounter + 1) (r.call c).2 := by
  obtain ⟨s, hopens, hwrites⟩ := call_opens r c
  refine hwrites.tallied ?_
  have hsame : s.decisionCounter = r.decisionCounter := by
    rw [decisionCounter, hopens.state]
    rfl
  rw [hsame]
  exact hr.of_eq hopens.decisions (congrArg decisionPayloads hopens.records)

/-! ## Restarts -/

/-- The decisions that are read from some records. -/
def readDecisions (limits : Limits) (records : List DurableRecord) : List Decision :=
  records.filterMap fun record =>
    if record.type = .decisionRecord then decodeDecision record.payload limits else none

/-- What a record does to the log. -/
theorem Restores.decisions {record : DurableRecord} {r r' : PartitionRuntime}
    (h : Restores record r r') :
    (record.type = .decisionRecord ∧ ∃ d, decodeDecision record.payload r.limits = some d ∧
        r'.decisions = r.decisions.append d) ∨
      record.type ≠ .decisionRecord ∧ r'.decisions = r.decisions := by
  rcases h with ⟨htype, _⟩ | ⟨htype, _⟩ | ⟨htype, _, _⟩ | ⟨htype, _, _⟩ | ⟨htype, hdecode⟩ | ⟨htype, _⟩
  · exact .inr ⟨by rw [htype]; decide, rfl⟩
  · refine .inr ⟨by rw [htype]; decide, ?_⟩
    rw [restorePolicy]
    split <;> rfl
  · refine .inr ⟨by rw [htype]; decide, ?_⟩
    rw [restoreTopology]
    split <;> rfl
  · exact .inr ⟨by rw [htype]; decide, rfl⟩
  · exact .inl ⟨htype, _, hdecode, rfl⟩
  · exact .inr ⟨by rw [htype]; decide, rfl⟩

/-- **The log that is restored** is what is read, up to what the log dropped. -/
theorem Restored.decisions {records : List DurableRecord} {r r' : PartitionRuntime}
    (h : Restored records r r') :
    r'.decisions.entries.Sublist (r.decisions.entries ++ readDecisions r.limits records) ∧
      decisionPayloads records = (readDecisions r.limits records).map plainDecision := by
  induction h with
  | nil => exact ⟨by simp [readDecisions], rfl⟩
  | @cons record records r s t hrecord _ ih =>
    have hlimits : s.limits = r.limits := congrArg RuntimeOptions.limits hrecord.keeps.2
    rw [hlimits] at ih
    obtain ⟨hlog, hpayloads⟩ := ih
    have hpayload : decisionPayloads (record :: records)
        = decisionPayloads [record] ++ decisionPayloads records := decisionPayloads_append [record] _
    have hread : readDecisions r.limits (record :: records)
        = readDecisions r.limits [record] ++ readDecisions r.limits records :=
      List.filterMap_append (l := [record])
    rw [hpayload, hread, hpayloads, List.map_append]
    rcases hrecord.decisions with ⟨htype, d, hdecode, hdecisions⟩ | ⟨htype, hdecisions⟩
    · have hone : readDecisions r.limits [record] = [d] := by simp [readDecisions, htype, hdecode]
      have hplain := ((decodeDecision_iff _ _ _).mp hdecode).2
      rw [hone]
      refine ⟨hlog.trans ?_, by simp [decisionPayloads, htype, hplain]⟩
      rw [← List.append_assoc, hdecisions]
      exact (r.decisions.append_entries d).append_right _
    · have hnone : readDecisions r.limits [record] = [] := by simp [readDecisions, htype]
      rw [hnone, ← hdecisions]
      exact ⟨hlog, by simp [decisionPayloads, htype]⟩

theorem decisionPayloads_commitAll {log : List Entry} (h : ∀ entry ∈ log, entry.1 ≠ .decisionRecord)
    (j : Journal) :
    decisionPayloads (Journal.records (commitAll log j)) = decisionPayloads (Journal.records j) := by
  induction log generalizing j with
  | nil => rfl
  | cons entry log ih =>
    rw [commitAll_cons, ih fun e he => h e (List.mem_cons_of_mem _ he),
      decisionPayloads_commit (h entry List.mem_cons_self)]

/-- The counter is not set back behind a decision that is read. -/
def Counted (options : RuntimeOptions) (disk : Disk) (ids : BootIdentities) : Prop :=
  ∀ d ∈ readDecisions options.limits (loadedRecords options disk),
    d.number ≤ (durableState options disk ids).decisionSequence.value.toNat

instance (options : RuntimeOptions) (disk : Disk) (ids : BootIdentities) :
    Decidable (Counted options disk ids) :=
  inferInstanceAs (Decidable (∀ d ∈ _, _))

/-- **A start** that counts on behind all decisions it reads has them in order, if they were in
order when they were made durable. -/
theorem Revived.tallied {options : RuntimeOptions} {disk : Disk} {ids : BootIdentities}
    {faults : List (Option AppendFault)} {r restored : PartitionRuntime}
    (h : Revived options disk ids faults r restored) (hcounted : Counted options disk ids)
    (ds : List Decision)
    (hpayloads : decisionPayloads (loadedRecords options disk) = ds.map encodeDecision)
    (hlength : ∀ record ∈ loadedRecords options disk, record.Representable)
    (hincreasing : (ds.map Decision.number).Pairwise (· < ·)) :
    Tallied (r.decisionCounter + 1) r := by
  obtain ⟨fresh, hrestored, hoptions, -, hempty, -, -, -, hrecords⟩ := h.restores
  obtain ⟨fences, fenceSequence, epoch, bootSequence, sequence, -, -, -, -, hstate, hwritten⟩ :=
    h.entered
  have hlimits : fresh.limits = options.limits := congrArg RuntimeOptions.limits hoptions
  obtain ⟨hlog, hread⟩ := hrestored.decisions
  rw [hlimits] at hlog hread
  have hnumbers : (readDecisions options.limits (loadedRecords options disk)).map Decision.number
      = ds.map Decision.number := by
    refine numbers_of_images (fun d hd => ?_) (hpayloads.symm.trans hread)
    have hmem : encodeDecision d ∈ decisionPayloads (loadedRecords options disk) := by
      rw [hpayloads]
      exact List.mem_map_of_mem hd
    obtain ⟨record, hrecord, hpayload⟩ := List.mem_map.mp hmem
    rw [← hpayload]
    exact hlength record (List.mem_of_mem_filter hrecord)
  have hcounter : r.decisionCounter
      = (durableState options disk ids).decisionSequence.value.toNat := by
    rw [decisionCounter, hstate]
  have hbelow : ∀ n ∈ ds.map Decision.number, n < r.decisionCounter + 1 := by
    intro n hn
    rw [← hnumbers] at hn
    obtain ⟨d, hd, rfl⟩ := List.mem_map.mp hn
    rw [hcounter]
    exact Nat.lt_succ_of_le (hcounted d hd)
  have hentries : (r.decisions.entries.map Decision.number).Sublist (ds.map Decision.number) := by
    rw [h.decisions, ← hnumbers]
    rw [hempty] at hlog
    exact hlog.map _
  refine ⟨hincreasing.sublist hentries, fun d hd => ?_, ds, ?_, hincreasing, fun d hd => ?_⟩
  · exact hbelow _ (hentries.subset (List.mem_map_of_mem hd))
  · have hkept : restored.journal = fresh.journal :=
      hrestored.invariant (P := fun u => u.journal = fresh.journal)
        (fun _ _ _ _ hstep hu => hstep.keeps.1.trans hu) rfl
    rw [hwritten, decisionPayloads_append, decisionPayloads_commitAll, hkept, hrecords, hpayloads]
    · simp [decisionPayloads]
    · intro entry hentry
      obtain ⟨fence, -, rfl⟩ := List.mem_map.mp hentry
      show DurableRecordType.fenceRecord ≠ .decisionRecord
      decide
  · exact hbelow _ (List.mem_map_of_mem hd)

end PartitionRuntime

/-- A restart goes on counting behind all decisions it reads. -/
def Moment.Counts : Moment → Prop
  | .called _ => True
  | .restarted before options ids _ _ => PartitionRuntime.Counted options before.remains ids

instance : (m : Moment) → Decidable m.Counts
  | .called _ => .isTrue trivial
  | .restarted _ _ _ _ _ => inferInstanceAs (Decidable (PartitionRuntime.Counted _ _ _))

namespace PartitionRuntime

/-- The audit log is in the order of the decision numbers, and so are the decisions that were made
durable: none of the numbers is given twice. -/
structure Audited (r : PartitionRuntime) : Prop where
  log : (r.decisions.entries.map Decision.number).Pairwise (· < ·)
  durable : ∃ ds : List Decision,
    decisionPayloads (Journal.records r.journal) = ds.map encodeDecision ∧
      (ds.map Decision.number).Pairwise (· < ·)

theorem Tallied.audited {bound : Nat} {r : PartitionRuntime} (h : Tallied bound r) : Audited r := by
  obtain ⟨ds, hpayloads, hincreasing, -⟩ := h.durable
  exact ⟨h.log, ds, hpayloads, hincreasing⟩

/-- **The audit log is monotonic** in the life of a durable store without I/O errors, as long as each
restart counts on behind all decisions it reads. -/
theorem audit_log_monotonic {options : RuntimeOptions} {ids : BootIdentities} {r : PartitionRuntime}
    {incidents : List Incident} (hdurable : options.durable = true)
    (hnarrow : options.limits.maxRecordBytes < 2 ^ 32)
    (hfirst : construct options {} ids [] = (.ok (), r))
    (h : ∀ m ∈ r.history incidents, m.Undisturbed ∧ m.Counts) :
    Audited r ∧ ∀ m ∈ r.history incidents, Audited m.after := by
  obtain ⟨⟨restored, hrevived⟩, hempty, hunharmed⟩ := first_unharmed hdurable hnarrow hfirst
  have htallied : Tallied (r.decisionCounter + 1) r := by
    refine hrevived.tallied ?_ [] ?_ ?_ .nil
    · intro d hd
      rw [hempty] at hd
      cases hd
    · rw [hempty]
      rfl
    · rw [hempty]
      exact fun record hrecord => nomatch hrecord
  refine ⟨htallied.audited, fun m hm => ?_⟩
  have hall := history_invariant
    (P := fun r => Journal.Unharmed r.journal ∧ Tallied (r.decisionCounter + 1) r)
    ⟨hunharmed, htallied⟩ ?_ m hm
  · exact hall.2.2.2.audited
  · rintro (s | ⟨before, options, ids, faults, after⟩) hm hhappened ⟨hbefore, hsound⟩
    · show Journal.Unharmed s.after.journal ∧ Tallied (s.after.decisionCounter + 1) s.after
      rw [show s.after = (s.before.call s.call).2 from congrArg Prod.snd hhappened]
      exact ⟨call_unharmed hbefore (h _ hm).1, call_tallied _ hsound⟩
    · obtain ⟨restored, hrevived, hloaded, hafter⟩ := restart_revives hhappened (h _ hm).1 hbefore
      obtain ⟨ds, hpayloads, hincreasing, -⟩ := hsound.durable
      refine ⟨hafter, hrevived.tallied (h _ hm).2 ds ?_ ?_ hincreasing⟩
      · rw [hloaded]
        exact hpayloads
      · rw [hloaded]
        exact hbefore.representable

/-- An assessment as an incident. -/
def assessed : Incident := .call ⟨.assess, []⟩

set_option maxRecDepth 4000 in
/-- An assessment that grants commits the epoch state after its decision. -/
theorem granted_audit_log_monotonic :
    let granting := [.call ⟨.adoptTopology (smallTopology 1 ["a"]), []⟩, assessed, reopen {}]
    Audited durableRuntime ∧ ∀ m ∈ durableRuntime.history granting, Audited m.after :=
  audit_log_monotonic rfl (by decide) durableRuntime_started (by decide +kernel)

set_option maxRecDepth 4000 in
/-- **A refused assessment commits none**, and its number is given to the next incarnation's first
decision. -/
theorem decision_number_given_twice :
    ∃ m ∈ durableRuntime.history [assessed, reopen {}, assessed],
      m.after.decisions.entries.map Decision.number = [1, 1] ∧ ¬ Audited m.after := by
  have hrun : ∃ m ∈ durableRuntime.history [assessed, reopen {}, assessed],
      m.after.decisions.entries.map Decision.number = [1, 1] := by decide +kernel
  obtain ⟨m, hm, hnumbers⟩ := hrun
  refine ⟨m, hm, hnumbers, fun h => ?_⟩
  have hlog := h.log
  rw [hnumbers] at hlog
  exact absurd hlog (by decide)

end PartitionRuntime

end FabricPartition
