import FabricPartition.Run

/-!
# Evidence is accepted once

The ledger keeps three tables: the bundles it retains, one cursor for each publisher, and the boots
that were replaced.  A bundle is accepted if its boot was not replaced and its sequence is above the
cursor of its publisher, unless it comes from another boot.

* `Accepted` — what it takes to be accepted, and what that writes; `accept_cases` is all
  that is needed of the procedure.
* `Covers` — a bundle that was accepted is behind the cursor of its publisher, or its boot was replaced.
  It stays so until the ledger is emptied, which is when the topology generation has advanced.
* `evidence_accepted_once` — the runs.
-/

set_option autoImplicit false

namespace FabricPartition

/-! ## Canonical sizes -/

/-- The canonical size, in exact arithmetic. -/
def imageSize (e : ReachabilityEvidence) : Nat :=
  4 + e.id.text.length + 4 + e.publisher.text.length + (8 * 5 + 16 + 1 + 4) + 4
    + e.provenance.text.length + 4 + e.coveredSources.length * 100 + e.observations.length * 201

theorem checkedSizeAdd_eq {lhs rhs total : Nat} (h : checkedSizeAdd lhs rhs = some total) :
    total = lhs + rhs := by
  rw [checkedSizeAdd] at h
  split at h
  · cases h
  · exact (Option.some.inj h).symm

theorem checkedSizeAdd_le {lhs rhs total : Nat} (h : checkedSizeAdd lhs rhs = some total)
    (hlhs : lhs ≤ sizeMax ∨ 0 < rhs) : total ≤ sizeMax := by
  rw [checkedSizeAdd] at h
  split at h
  · cases h
  · rw [← Option.some.inj h]
    omega

theorem checkedSizeAdd_fits {lhs rhs : Nat} (h : lhs + rhs ≤ sizeMax) :
    checkedSizeAdd lhs rhs = some (lhs + rhs) := by
  rw [checkedSizeAdd, if_neg (by omega)]

theorem checkedSizeMul_eq {lhs rhs total : Nat} (h : checkedSizeMul lhs rhs = some total) :
    total = lhs * rhs := by
  rw [checkedSizeMul] at h
  split at h
  · rename_i hzero
    rw [← Option.some.inj h]
    rcases hzero with rfl | rfl
    · rw [Nat.zero_mul]
    · rw [Nat.mul_zero]
  · split at h
    · cases h
    · exact (Option.some.inj h).symm

theorem checkedSizeMul_fits {lhs rhs : Nat} (h : lhs * rhs ≤ sizeMax) :
    checkedSizeMul lhs rhs = some (lhs * rhs) := by
  rw [checkedSizeMul]
  split
  · rename_i hzero
    rcases hzero with rfl | rfl
    · rw [Nat.zero_mul]
    · rw [Nat.mul_zero]
  · rename_i hpos
    rw [if_neg]
    rw [not_or] at hpos
    exact Nat.not_lt.mpr ((Nat.le_div_iff_mul_le (Nat.pos_of_ne_zero hpos.2)).mpr h)

/-- The checked arithmetic is exact where it does not refuse. -/
theorem evidenceCanonicalSize_eq {e : ReachabilityEvidence} {total : Nat}
    (h : evidenceCanonicalSize e = some total) : total = imageSize e ∧ imageSize e ≤ sizeMax := by
  simp only [evidenceCanonicalSize, Option.bind_eq_bind, Option.bind_eq_some_iff] at h
  obtain ⟨_, h₁, _, h₂, _, h₃, _, h₄, _, h₅, _, h₆, _, h₇, _, h₈, covered, h₉, _, h₁₀, _, h₁₁, h₁₂⟩ := h
  have hle := checkedSizeAdd_le h₁₂ (.inl (checkedSizeAdd_le h₁₀ (.inl
    (checkedSizeAdd_le h₈ (.inr (by omega))))))
  have htotal : total = imageSize e := by
    rw [imageSize, checkedSizeAdd_eq h₁₂, checkedSizeMul_eq h₁₁, checkedSizeAdd_eq h₁₀,
      checkedSizeMul_eq h₉, checkedSizeAdd_eq h₈, checkedSizeAdd_eq h₇, checkedSizeAdd_eq h₆,
      checkedSizeAdd_eq h₅, checkedSizeAdd_eq h₄, checkedSizeAdd_eq h₃, checkedSizeAdd_eq h₂,
      checkedSizeAdd_eq h₁]
  exact ⟨htotal, htotal ▸ hle⟩

/-- It refuses nothing that fits. -/
theorem evidenceCanonicalSize_fits {e : ReachabilityEvidence} (h : imageSize e ≤ sizeMax) :
    evidenceCanonicalSize e = some (imageSize e) := by
  rw [imageSize] at h ⊢
  simp only [evidenceCanonicalSize, Option.bind_eq_bind]
  rw [checkedSizeAdd_fits (by omega), Option.bind_some, checkedSizeAdd_fits (by omega),
    Option.bind_some, checkedSizeAdd_fits (by omega), Option.bind_some,
    checkedSizeAdd_fits (by omega), Option.bind_some, checkedSizeAdd_fits (by omega),
    Option.bind_some, checkedSizeAdd_fits (by omega), Option.bind_some,
    checkedSizeAdd_fits (by omega), Option.bind_some, checkedSizeAdd_fits (by omega),
    Option.bind_some, checkedSizeMul_fits (by omega), Option.bind_some,
    checkedSizeAdd_fits (by omega), Option.bind_some, checkedSizeMul_fits (by omega),
    Option.bind_some, checkedSizeAdd_fits (by omega)]

/-- What is stored is not larger than what was received. -/
theorem imageSize_storedForm (e : ReachabilityEvidence) :
    imageSize (EvidenceLedger.storedForm e) ≤ imageSize e := by
  have hcovered : (EvidenceLedger.storedForm e).coveredSources.length = e.coveredSources.length :=
    List.length_insertionSort _ _
  have hobserved : (EvidenceLedger.storedForm e).observations.length ≤ e.observations.length :=
    ((List.destutter_sublist _ _).length_le).trans (Nat.le_of_eq (List.length_insertionSort _ _))
  rw [imageSize, imageSize, hcovered]
  show 4 + e.id.text.length + 4 + e.publisher.text.length + (8 * 5 + 16 + 1 + 4) + 4
    + e.provenance.text.length + 4 + _ + _ ≤ _
  omega

/-! ## Acceptance -/

namespace EvidenceLedger

variable {ledger : EvidenceLedger} {e : ReachabilityEvidence} {roster : ComponentRoster}
  {policy : PartitionPolicy} {now : UInt64}

theorem findCursor_advance (hfound : (ledger.findCursor e.publisher).isSome = true)
    {ledger' : EvidenceLedger} (hcursors : ledger'.cursors = advanceCursor e ledger.cursors) :
    (∃ n, ledger'.findCursor e.publisher = some ⟨e.publisher, e.publisherBoot, e.sequence, n⟩) ∧
      ∀ p, p ≠ e.publisher → ledger'.findCursor p = ledger.findCursor p := by
  unfold findCursor at hfound ⊢
  rw [hcursors]
  generalize ledger.cursors = cursors at hfound ⊢
  induction cursors with
  | nil => cases hfound
  | cons c rest ih =>
    rw [advanceCursor]
    by_cases hc : c.publisher = e.publisher
    · rw [if_pos hc]
      refine ⟨⟨c.acceptedBundles + 1, ?_⟩, fun p hp => ?_⟩
      · rw [List.find?_cons_of_pos (by simpa using hc), hc]
      · rw [List.find?_cons_of_neg (by simpa using hc ▸ hp.symm),
          List.find?_cons_of_neg (by simpa using hc ▸ hp.symm)]
    · rw [if_neg hc]
      rw [List.find?_cons_of_neg (by simpa using hc)] at hfound ⊢
      obtain ⟨hown, hothers⟩ := ih hfound
      refine ⟨hown, fun p hp => ?_⟩
      rw [List.find?_cons, List.find?_cons, hothers p hp]

theorem findCursor_append (hnone : ledger.findCursor e.publisher = none)
    {ledger' : EvidenceLedger} (hcursors : ledger'.cursors
      = ledger.cursors ++ [⟨e.publisher, e.publisherBoot, e.sequence, 1⟩]) :
    (∃ n, ledger'.findCursor e.publisher = some ⟨e.publisher, e.publisherBoot, e.sequence, n⟩) ∧
      ∀ p, p ≠ e.publisher → ledger'.findCursor p = ledger.findCursor p := by
  unfold findCursor at hnone ⊢
  rw [hcursors]
  refine ⟨⟨1, ?_⟩, fun p hp => ?_⟩
  · rw [List.find?_append, hnone]
    simp
  · rw [List.find?_append, List.find?_cons_of_neg (by simpa using hp.symm)]
    simp

theorem advanceCursor_length (e : ReachabilityEvidence) (cursors : List PublisherCursor) :
    (advanceCursor e cursors).length = cursors.length := by
  induction cursors with
  | nil => rfl
  | cons c rest ih =>
    rw [advanceCursor]
    split
    · rfl
    · rw [List.length_cons, ih, List.length_cons]

/-- What it takes to be accepted, and what that writes. -/
structure Accepted (ledger : EvidenceLedger) (e : ReachabilityEvidence) (roster : ComponentRoster)
    (ledger' : EvidenceLedger) : Prop where
  limits : ledger'.limits = ledger.limits
  generation : e.topologyGeneration = roster.generation
  fresh : e.publisherBoot ∉ ledger.retiredBoots
  above : ∀ c, ledger.findCursor e.publisher = some c → c.boot = e.publisherBoot →
    c.lastSequence.value < e.sequence.value
  room : ledger.retained.length < ledger.limits.maxRetainedEvidence
  retained : ledger'.retained = ledger.retained ++ [storedForm e]
  bytes : ledger'.retainedBytes = ledger.retainedBytes + imageSize e
  budget : ledger'.retainedBytes ≤ ledger.limits.maxEvidenceBytes
  fits : imageSize e ≤ sizeMax
  own : ∃ n, ledger'.findCursor e.publisher = some ⟨e.publisher, e.publisherBoot, e.sequence, n⟩
  others : ∀ p, p ≠ e.publisher → ledger'.findCursor p = ledger.findCursor p
  cursors : ledger'.cursors.length ≤ ledger.cursors.length + 1
  retired : ∀ boot ∈ ledger.retiredBoots, boot ∈ ledger'.retiredBoots
  replaced : ∀ c, ledger.findCursor e.publisher = some c → c.boot ≠ e.publisherBoot →
    c.boot ∈ ledger'.retiredBoots

theorem headerRefusal_refuses {refusal : EvidenceRefusal}
    (h : ledger.headerRefusal e roster now = some refusal) : refusal.status ≠ .accepted := by
  rw [headerRefusal] at h
  repeat' split at h
  all_goals cases h <;> exact fun haccepted => by cases haccepted

theorem coveredRefusal_refuses {refusal : EvidenceRefusal} {covered : List ComponentId}
    {previous : Option ComponentId} (h : coveredRefusal roster previous covered = some refusal) :
    refusal.status ≠ .accepted := by
  induction covered generalizing previous with
  | nil => cases h
  | cons c rest ih =>
    rw [coveredRefusal] at h
    split at h
    · cases h
      intro haccepted
      cases haccepted
    split at h
    · cases h
      intro haccepted
      cases haccepted
    · exact ih h

theorem observationRefusal_refuses {refusal : EvidenceRefusal} {o : LinkObservation}
    (h : observationRefusal roster o = some refusal) : refusal.status ≠ .accepted := by
  rw [observationRefusal] at h
  repeat' split at h
  all_goals cases h <;> exact fun haccepted => by cases haccepted

theorem publisherRefusal_refuses {refusal : EvidenceRefusal}
    (h : ledger.publisherRefusal e = some refusal) : refusal.status ≠ .accepted := by
  rw [publisherRefusal] at h
  repeat' split at h
  all_goals cases h <;> exact fun haccepted => by cases haccepted

theorem retentionRefusal_refuses {refusal : EvidenceRefusal}
    (h : ledger.retentionRefusal e policy now = some refusal) : refusal.status ≠ .accepted := by
  rw [retentionRefusal] at h
  dsimp only at h
  repeat' split at h
  all_goals cases h <;> exact fun haccepted => by cases haccepted

theorem completenessRefusal_refuses {refusal : EvidenceRefusal}
    (h : completenessRefusal e = some refusal) : refusal.status ≠ .accepted := by
  rw [completenessRefusal] at h
  repeat' split at h
  all_goals cases h <;> exact fun haccepted => by cases haccepted

/-- No check refuses with the status that accepts. -/
theorem examine_refuses {refusal : EvidenceRefusal}
    (h : ledger.examine e roster policy now = some refusal) : refusal.status ≠ .accepted := by
  simp only [examine, Option.or_eq_some_iff] at h
  rcases h with h | ⟨-, h | ⟨-, h | ⟨-, h | ⟨-, h | ⟨-, h⟩⟩⟩⟩⟩
  · exact headerRefusal_refuses h
  · exact coveredRefusal_refuses h
  · exact completenessRefusal_refuses h
  · obtain ⟨o, -, ho⟩ := List.exists_of_findSome?_eq_some h
    exact observationRefusal_refuses ho
  · exact publisherRefusal_refuses h
  · exact retentionRefusal_refuses h

theorem headerRefusal_none (h : ledger.headerRefusal e roster now = none) :
    e.topologyGeneration = roster.generation := by
  rw [headerRefusal] at h
  repeat' split at h
  all_goals first
    | (cases h; done)
    | rename_i hgeneration _
      exact not_not.mp hgeneration

theorem publisherRefusal_none (h : ledger.publisherRefusal e = none) :
    e.publisherBoot ∉ ledger.retiredBoots ∧
      ∀ c, ledger.findCursor e.publisher = some c → c.boot = e.publisherBoot →
        c.lastSequence.value < e.sequence.value := by
  rw [publisherRefusal] at h
  split at h
  · cases h
  rename_i hfresh
  refine ⟨by simpa using hfresh, fun c hc hboot => ?_⟩
  rw [hc] at h
  dsimp only at h
  rw [if_neg (not_not.mpr hboot)] at h
  split at h
  · cases h
  rename_i hne
  split at h
  · cases h
  rename_i hlt
  exact UInt64.lt_of_le_of_ne (UInt64.not_lt.mp hlt) fun heq => hne (congrArg Counter.mk heq.symm)

theorem projectedBytes_some {total : Nat} (h : ledger.projectedBytes e = some total) :
    total = ledger.retainedBytes + imageSize e ∧ total ≤ ledger.limits.maxEvidenceBytes ∧
      imageSize e ≤ sizeMax := by
  simp only [projectedBytes, Option.bind_eq_bind, Option.bind_eq_some_iff] at h
  obtain ⟨size, hsize, projected, hprojected, hlast⟩ := h
  split at hlast
  · cases hlast
  · rename_i hbound
    cases hlast
    obtain ⟨hexact, hfits⟩ := evidenceCanonicalSize_eq hsize
    rw [checkedSizeAdd_eq hprojected, hexact] at hbound ⊢
    exact ⟨rfl, Nat.not_lt.mp hbound, hfits⟩

theorem retentionRefusal_none (h : ledger.retentionRefusal e policy now = none) :
    ledger.retained.length < ledger.limits.maxRetainedEvidence ∧
      (ledger.projectedBytes e).isSome = true := by
  rw [retentionRefusal] at h
  split at h
  · cases h
  rename_i hroom
  split at h
  · cases h
  rename_i hprojected
  exact ⟨Nat.not_le.mp hroom, by simpa [Option.isSome_iff_ne_none] using hprojected⟩

/-- What a bundle that passes every check satisfies. -/
theorem examine_none (h : ledger.examine e roster policy now = none) :
    e.topologyGeneration = roster.generation ∧ e.publisherBoot ∉ ledger.retiredBoots ∧
      (∀ c, ledger.findCursor e.publisher = some c → c.boot = e.publisherBoot →
        c.lastSequence.value < e.sequence.value) ∧
      ledger.retained.length < ledger.limits.maxRetainedEvidence ∧
      (ledger.projectedBytes e).isSome = true := by
  simp only [examine, Option.or_eq_none_iff] at h
  obtain ⟨hheader, -, -, -, hpublisher, hretention⟩ := h
  obtain ⟨hfresh, habove⟩ := publisherRefusal_none hpublisher
  exact ⟨headerRefusal_none hheader, hfresh, habove, retentionRefusal_none hretention⟩

/-- **The outcomes of `accept`**: refused by a check, for want of room for a boot or a cursor, or
accepted. -/
theorem accept_cases (ledger : EvidenceLedger) (e : ReachabilityEvidence) (roster : ComponentRoster)
    (policy : PartitionPolicy) (now : UInt64) :
    ((ledger.accept e roster policy now).1.status ≠ .accepted ∧
        (ledger.accept e roster policy now).2 = ledger ∧
        ((∃ refusal, ledger.examine e roster policy now = some refusal) ∨
          (replacesBoot (ledger.findCursor e.publisher) e = true ∧
            ledger.limits.maxRetainedEvidence ≤ ledger.retiredBoots.length) ∨
          ledger.limits.maxRetainedEvidence ≤ ledger.cursors.length)) ∨
      (ledger.accept e roster policy now).1.status = .accepted ∧
        Accepted ledger e roster (ledger.accept e roster policy now).2 := by
  rw [accept]
  rcases hexamine : ledger.examine e roster policy now with _ | refusal
  · dsimp only
    obtain ⟨hgeneration, hfresh, habove, hroom, hprojected⟩ := examine_none hexamine
    obtain ⟨total, hprojected⟩ := Option.isSome_iff_exists.mp hprojected
    obtain ⟨htotal, hbudget, hfits⟩ := projectedBytes_some hprojected
    split
    · rename_i hfull
      rw [Bool.and_eq_true, decide_eq_true_eq] at hfull
      exact .inl ⟨fun haccepted => (by cases haccepted), rfl, .inr (.inl hfull)⟩
    · rcases hcursor : ledger.findCursor e.publisher with _ | c
      · dsimp only
        split
        · rename_i hfull
          rw [Bool.and_eq_true, decide_eq_true_eq] at hfull
          exact .inl ⟨fun haccepted => (by cases haccepted), rfl, .inr (.inr hfull.2)⟩
        · refine .inr ⟨rfl, ?_⟩
          exact
            { limits := rfl
              generation := hgeneration
              fresh := hfresh
              above := habove
              room := hroom
              retained := rfl
              bytes := by rw [hprojected]; exact htotal
              budget := by rw [hprojected]; exact hbudget
              fits := hfits
              own := (findCursor_append hcursor rfl).1
              others := (findCursor_append hcursor rfl).2
              cursors := Nat.le_of_eq List.length_append
              retired := fun _ hboot => hboot
              replaced := fun c hc => by rw [hcursor] at hc; cases hc }
      · dsimp only
        rw [if_neg (by simp)]
        refine .inr ⟨rfl, ?_⟩
        have hfound : (ledger.findCursor e.publisher).isSome = true := by rw [hcursor]; rfl
        exact
          { limits := rfl
            generation := hgeneration
            fresh := hfresh
            above := habove
            room := hroom
            retained := rfl
            bytes := by rw [hprojected]; exact htotal
            budget := by rw [hprojected]; exact hbudget
            fits := hfits
            own := (findCursor_advance hfound rfl).1
            others := (findCursor_advance hfound rfl).2
            cursors := by
              show (advanceCursor e ledger.cursors).length ≤ _
              rw [advanceCursor_length]
              exact Nat.le_succ _
            retired := fun boot hboot => by
              dsimp only
              split
              · exact List.mem_append_left _ hboot
              · exact hboot
            replaced := fun d hd hne => by
              rw [hcursor] at hd
              obtain rfl := Option.some.inj hd
              dsimp only
              rw [if_pos (by simpa using hne)]
              exact List.mem_append_right _ (List.mem_singleton_self _) }
  · exact .inl ⟨examine_refuses hexamine, rfl, .inl ⟨refusal, rfl⟩⟩

/-- **The cursor table is never the reason**: with room for the bundle there is room for a cursor. -/
theorem accept_of_examine (hcursors : ledger.cursors.length ≤ ledger.retained.length)
    (hexamine : ledger.examine e roster policy now = none)
    (hretired : replacesBoot (ledger.findCursor e.publisher) e = true →
      ledger.retiredBoots.length < ledger.limits.maxRetainedEvidence) :
    (ledger.accept e roster policy now).1.status = .accepted := by
  have hroom := (examine_none hexamine).2.2.2.1
  rcases accept_cases ledger e roster policy now with
    ⟨-, -, ⟨refusal, hrefusal⟩ | ⟨hreplaces, hfull⟩ | hfull⟩ | ⟨h, -⟩
  · rw [hexamine] at hrefusal
    cases hrefusal
  · have := hretired hreplaces
    omega
  · omega
  · exact h

/-! ## What the ledger remembers -/

/-- A bundle is behind the ledger: its boot was replaced, or its publisher is at or beyond it. -/
def Covers (ledger : EvidenceLedger) (e : ReachabilityEvidence) : Prop :=
  e.publisherBoot ∈ ledger.retiredBoots ∨
    ∃ c, ledger.findCursor e.publisher = some c ∧ c.boot = e.publisherBoot ∧
      e.sequence.value ≤ c.lastSequence.value

namespace Accepted

variable {ledger' : EvidenceLedger} {f : ReachabilityEvidence}

/-- The bundle itself is. -/
theorem covers (h : Accepted ledger e roster ledger') : ledger'.Covers e := by
  obtain ⟨n, hown⟩ := h.own
  exact .inr ⟨_, hown, rfl, UInt64.le_refl _⟩

/-- The sequences of a boot increase. -/
theorem increases (h : Accepted ledger f roster ledger') (he : ledger.Covers e)
    (hpublisher : e.publisher = f.publisher) (hboot : e.publisherBoot = f.publisherBoot) :
    e.sequence.value < f.sequence.value := by
  rcases he with hretired | ⟨c, hc, hcboot, hle⟩
  · rw [hboot] at hretired
    exact absurd hretired h.fresh
  · rw [hpublisher] at hc
    exact UInt64.lt_of_le_of_lt hle (h.above c hc (hcboot.trans hboot))

/-- A publisher that comes with another boot retires the one before. -/
theorem retires (h : Accepted ledger f roster ledger') (he : ledger.Covers e)
    (hpublisher : e.publisher = f.publisher) (hboot : e.publisherBoot ≠ f.publisherBoot) :
    e.publisherBoot ∈ ledger'.retiredBoots := by
  rcases he with hretired | ⟨c, hc, hcboot, -⟩
  · exact h.retired _ hretired
  · rw [hpublisher] at hc
    rw [← hcboot] at hboot ⊢
    exact h.replaced c hc hboot

/-- What is behind the ledger stays so. -/
theorem keeps (h : Accepted ledger f roster ledger') (he : ledger.Covers e) : ledger'.Covers e := by
  by_cases hpublisher : e.publisher = f.publisher
  · by_cases hboot : e.publisherBoot = f.publisherBoot
    · obtain ⟨n, hown⟩ := h.own
      have hlt := h.increases he hpublisher hboot
      rw [← hpublisher, ← hboot] at hown
      exact .inr ⟨_, hown, rfl, UInt64.le_of_lt hlt⟩
    · exact .inl (h.retires he hpublisher hboot)
  · rcases he with hretired | hcursor
    · exact .inl (h.retired _ hretired)
    · rw [← h.others _ hpublisher] at hcursor
      exact .inr hcursor

end Accepted

/-! ## The bounds -/

/-- The summed canonical size of the retained bundles. -/
def retainedSize (ledger : EvidenceLedger) : Nat := (ledger.retained.map imageSize).sum

/-- The tables are within their bounds. -/
structure Bounded (bounds : Limits) (ledger : EvidenceLedger) : Prop where
  limits : ledger.limits = bounds
  count : ledger.retained.length ≤ bounds.maxRetainedEvidence
  fits : ∀ b ∈ ledger.retained, evidenceCanonicalSize b = some (imageSize b)
  counted : ledger.retainedSize ≤ ledger.retainedBytes
  size : ledger.retainedBytes ≤ bounds.maxEvidenceBytes
  cursors : ledger.cursors.length ≤ ledger.retained.length

theorem Bounded.empty (bounds : Limits) : Bounded bounds { limits := bounds } :=
  ⟨rfl, Nat.zero_le _, nofun, Nat.le_refl _, Nat.zero_le _, Nat.le_refl _⟩

theorem Accepted.bounded {bounds : Limits} {ledger' : EvidenceLedger}
    (h : Accepted ledger e roster ledger') (hb : Bounded bounds ledger) : Bounded bounds ledger' := by
  have hstored := imageSize_storedForm e
  refine ⟨h.limits.trans hb.limits, ?_, ?_, ?_, ?_, ?_⟩
  · have hroom := h.room
    rw [hb.limits] at hroom
    rw [h.retained, List.length_append]
    exact hroom
  · intro b hmem
    rw [h.retained] at hmem
    rcases List.mem_append.mp hmem with hmem | hmem
    · exact hb.fits b hmem
    · rw [List.mem_singleton.mp hmem]
      exact evidenceCanonicalSize_fits (hstored.trans h.fits)
  · have hcounted := hb.counted
    rw [retainedSize] at hcounted ⊢
    rw [h.retained, h.bytes, List.map_append, List.sum_append]
    simp only [List.map_cons, List.map_nil, List.sum_cons, List.sum_nil]
    omega
  · have hbudget := h.budget
    rwa [hb.limits] at hbudget
  · have hcursors := h.cursors
    have hbefore := hb.cursors
    rw [h.retained, List.length_append]
    simp only [List.length_singleton]
    omega

/-- **Whatever a bundle comes to**, the bounds are kept. -/
theorem Bounded.accept {bounds : Limits} (hb : Bounded bounds ledger) (e : ReachabilityEvidence)
    (roster : ComponentRoster) (policy : PartitionPolicy) (now : UInt64) :
    Bounded bounds (ledger.accept e roster policy now).2 := by
  rcases accept_cases ledger e roster policy now with
    ⟨-, hsame, -⟩ | ⟨-, haccepted⟩
  · rw [hsame]
    exact hb
  · exact haccepted.bounded hb

end EvidenceLedger

/-- The call delivers the bundle, and the ledger accepts it. -/
def Step.Accepts (s : Step) (e : ReachabilityEvidence) : Prop :=
  s.call.operation = .ingestEvidence e ∧ s.before.closed = false ∧ s.before.rosterSet = true ∧
    (s.before.ledger.accept e s.before.roster s.before.policy s.before.state.tick).1.status
      = .accepted

namespace PartitionRuntime

/-! ## One call -/

/-- The ledger, and the roster it is about, are as they were. -/
structure Heeds (r r' : PartitionRuntime) : Prop where
  rosterSet : r'.rosterSet = r.rosterSet
  roster : r'.roster = r.roster
  topology : r'.topology = r.topology
  ledger : r'.ledger = r.ledger

namespace Heeds

variable {r s t : PartitionRuntime}

theorem refl (r : PartitionRuntime) : Heeds r r := ⟨rfl, rfl, rfl, rfl⟩

theorem trans (h : Heeds r s) (h' : Heeds s t) : Heeds r t :=
  ⟨h'.rosterSet.trans h.rosterSet, h'.roster.trans h.roster, h'.topology.trans h.topology,
    h'.ledger.trans h.ledger⟩

end Heeds

theorem Quiet.heeds {r r' : PartitionRuntime} (h : Quiet r r') : Heeds r r' := by
  obtain ⟨_, _, _, _, _, -, rfl⟩ := h
  exact ⟨rfl, rfl, rfl, rfl⟩

theorem Stored.heeds {type : DurableRecordType} {r r' : PartitionRuntime} (h : Stored type r r') :
    Heeds r r' := by
  obtain ⟨_, -, rfl⟩ := h
  exact ⟨rfl, rfl, rfl, rfl⟩

theorem Fenced.heeds {sequences : List AuthoritySequence} {r r' : PartitionRuntime}
    (h : Fenced sequences r r') : Heeds r r' := by
  obtain ⟨_, _, _, -, -, -, rfl⟩ := h
  exact ⟨rfl, rfl, rfl, rfl⟩

theorem Interrupted.heeds {ps : List Partition} {r r' : PartitionRuntime}
    (h : Interrupted ps r r') : Heeds r r' := by
  obtain ⟨_, _, -, -, hf⟩ := h
  have h := hf.heeds
  exact ⟨h.rosterSet, h.roster, h.topology, h.ledger⟩

theorem Touch.heeds {r r' : PartitionRuntime} (h : Touch r r') : Heeds r r' := by
  rcases h with h | h | _ | _ | h | h | _ | _ | _ | _ | _
  · exact h.heeds
  · exact h.heeds
  · exact ⟨rfl, rfl, rfl, rfl⟩
  · exact ⟨rfl, rfl, rfl, rfl⟩
  · exact h.heeds
  · exact h.heeds
  all_goals exact ⟨rfl, rfl, rfl, rfl⟩

theorem Touches.heeds {r r' : PartitionRuntime} (h : Touches r r') : Heeds r r' := by
  induction h with
  | refl => exact .refl r
  | tail _ hlast ih => exact ih.trans hlast.heeds

theorem assessLocked_heeds (allowRestore : Bool) (r : PartitionRuntime) :
    Heeds r (assessLocked allowRestore r).2 := by
  rcases assessLocked_cases (Prod.eta (assessLocked allowRestore r)).symm with
    ⟨-, s, _, hq, hr, -⟩ | ⟨-, hr⟩ | ⟨generation, -, -, -, ⟨-, hq⟩ | ⟨outcome, -, hs⟩⟩
  · rw [hr]
    exact hq.heeds.trans ⟨rfl, rfl, rfl, rfl⟩
  · rw [hr]
    exact .refl r
  · have h := hq.heeds
    exact ⟨h.rosterSet, h.roster, h.topology, h.ledger⟩
  · obtain ⟨-, -, _, _, _, _, _, _, _, _, _, -, hr⟩ := hs.cases
    rw [hr]
    exact ⟨rfl, rfl, rfl, rfl⟩

theorem Refreshes.heeds {r r' : PartitionRuntime} (h : Refreshes r r') : Heeds r r' := by
  rcases h with h | ⟨allowRestore, s, -, h, h'⟩
  · exact h.heeds
  · exact (h.heeds.trans (assessLocked_heeds allowRestore s)).trans h'.heeds

/-- What one call does to the ledger. -/
inductive Renews (r : PartitionRuntime) : Operation → PartitionRuntime → Prop
  | kept {operation : Operation} {r' : PartitionRuntime} (h : Heeds r r')
      (hrefused : ∀ e, operation = .ingestEvidence e → r.closed = true ∨ r.rosterSet = false) :
      Renews r operation r'
  | ingested {e : ReachabilityEvidence} {r' : PartitionRuntime} (hopen : r.closed = false)
      (hset : r.rosterSet = true)
      (h : Heeds { r with ledger := (r.ledger.accept e r.roster r.policy r.state.tick).2 } r') :
      Renews r (.ingestEvidence e) r'
  | adopted {definition : TopologyDefinition} {r' : PartitionRuntime}
      (hset : r'.rosterSet = true) (hroster : r'.roster.generation = definition.generation)
      (htopology : r'.topology = definition)
      (hledger : r'.ledger = { limits := r.ledger.limits })
      (hadvances : r.rosterSet = true →
        r.topology.generation.value < definition.generation.value) :
      Renews r (.adoptTopology definition) r'

theorem supersedePartitions_heeds (r : PartitionRuntime) : Heeds r (supersedePartitions r).2 := by
  rcases supersedePartitions_cases (Prod.eta (supersedePartitions r)).symm with
    ⟨-, hr, -⟩ | ⟨-, qs, t, -, hint, ⟨hr, -⟩ | ⟨-, hr, -⟩⟩
  · rw [hr]
    exact .refl r
  · rw [hr]
    exact hint.heeds
  · rw [hr]
    exact hint.heeds.trans ⟨rfl, rfl, rfl, rfl⟩

theorem adoptTopology_renews (definition : TopologyDefinition) (r : PartitionRuntime) :
    Renews r (.adoptTopology definition) (adoptTopology definition r).2 := by
  have hno : ∀ e, Operation.adoptTopology definition = .ingestEvidence e →
      r.closed = true ∨ r.rosterSet = false := fun _ h => by cases h
  rcases adoptTopology_phases (Prod.eta (adoptTopology definition r)).symm with
    ⟨hq, -⟩ | ⟨roster, hcheck, ⟨s, hcommit, hq⟩ | ⟨s, hcommit, ⟨_, hsup⟩ | ⟨t, hsup, hq⟩⟩⟩
  · exact .kept hq.heeds hno
  all_goals
    have hstored := (commitRecord_stored .topologyDefinition (encodeTopology definition) r).heeds
    rw [hcommit] at hstored
  · exact .kept (hstored.trans hq.heeds) hno
  · have hheeds := supersedePartitions_heeds s
    rw [hsup] at hheeds
    exact .kept (hstored.trans hheeds) hno
  · have hheeds := supersedePartitions_heeds s
    rw [hsup] at hheeds
    have hsame := hstored.trans hheeds
    have hlast := hq.heeds
    refine .adopted hlast.rosterSet ?_ hlast.topology ?_ fun hset => adoptionCheck_advances hcheck hset
    · rw [hlast.roster]
      exact create_generation (adoptionCheck_ok hcheck).2
    · rw [hlast.ledger, ← hsame.ledger]
      rfl

theorem ingestEvidence_renews (e : ReachabilityEvidence) (r : PartitionRuntime) :
    Renews r (.ingestEvidence e) (ingestEvidence e r).2 := by
  rw [ingestEvidence, Act.read_bind]
  dsimp only
  split
  · rename_i hclosed
    exact .kept (finalizeDecision_cases (Prod.eta _).symm).1.heeds fun _ _ => .inl hclosed
  rename_i hopen
  split
  · rename_i hunset
    exact .kept (finalizeDecision_cases (Prod.eta _).symm).1.heeds fun _ _ => .inr (by simpa using hunset)
  rename_i hset
  rw [Act.modify_bind]
  exact .ingested (by simpa using hopen) (by simpa using hset)
    (finalizeDecision_cases (Prod.eta _).symm).1.heeds

/-- **One call**: nothing, one acceptance, or a new roster with an empty ledger. -/
theorem call_renews (r : PartitionRuntime) (c : Call) : Renews r c.operation (r.call c).2 := by
  have hfaults : Heeds r (r.withFaults c.faults) := ⟨rfl, rfl, rfl, rfl⟩
  rw [call]
  rcases hoperation : c.operation with delta | definition | policy | e | _ | request | request |
    request | request | request | ack | effect | _
  case adoptTopology =>
    rw [perform, respond_snd]
    rcases adoptTopology_renews definition (r.withFaults c.faults) with
      ⟨h, -⟩ | _ | ⟨hset, hroster, htopology, hledger, hadvances⟩
    · exact .kept (hfaults.trans h) fun _ h => by cases h
    · exact .adopted hset hroster htopology hledger hadvances
  case ingestEvidence =>
    rw [perform, respond_snd]
    rcases ingestEvidence_renews e (r.withFaults c.faults) with ⟨h, hrefused⟩ | ⟨hopen, hset, h⟩ | _
    · exact .kept (hfaults.trans h) hrefused
    · exact .ingested hopen hset ⟨h.rosterSet, h.roster, h.topology, h.ledger⟩
  case assess =>
    rw [perform, respond_snd]
    exact .kept (hfaults.trans (assessLocked_heeds false _)) fun _ h => by cases h
  case close =>
    rw [perform, close]
    split <;> exact .kept ⟨rfl, rfl, rfl, rfl⟩ fun _ h => by cases h
  all_goals
    refine .kept (hfaults.trans (perform_refreshes _ ?_).heeds) fun _ h => by cases h
    trivial

/-- What an acceptance leaves. -/
theorem accepts_accepted {s : Step} {e : ReachabilityEvidence} (h : s.Accepts e)
    (hstep : (s.response, s.after) = s.before.call s.call) :
    s.after.rosterSet = true ∧ s.after.roster = s.before.roster ∧
      s.before.ledger.Accepted e s.before.roster s.after.ledger := by
  obtain ⟨hoperation, hopen, hset, hstatus⟩ := h
  have hrenews := call_renews s.before s.call
  rw [hoperation, ← hstep] at hrenews
  rcases hrenews with ⟨-, hrefused⟩ | ⟨-, -, h⟩ | _
  · rcases hrefused e rfl with hclosed | hunset
    · rw [hclosed] at hopen
      cases hopen
    · rw [hunset] at hset
      cases hset
  · rcases EvidenceLedger.accept_cases s.before.ledger e s.before.roster s.before.policy
      s.before.state.tick with ⟨hrefused, -⟩ | ⟨-, haccepted⟩
    · exact absurd hstatus hrefused
    · exact ⟨h.rosterSet.trans hset, h.roster, h.ledger ▸ haccepted⟩

/-! ## Runs -/

/-- What holds of every ledger of a runtime: the bounds, and a roster of the adopted topology. -/
structure Tended (bounds : Limits) (r : PartitionRuntime) : Prop where
  adopted : r.Adopted
  bounded : r.ledger.Bounded bounds

theorem call_tended {bounds : Limits} {r : PartitionRuntime} (h : Tended bounds r) (c : Call) :
    Tended bounds (r.call c).2 := by
  have hrenews := call_renews r c
  generalize c.operation = operation at hrenews
  rcases hrenews with ⟨hsame, -⟩ | ⟨-, hset, hsame⟩ | ⟨hset, hroster, htopology, hledger, -⟩
  · refine ⟨fun hset => ?_, hsame.ledger ▸ h.bounded⟩
    rw [hsame.roster, hsame.topology]
    exact h.adopted (hsame.rosterSet ▸ hset)
  · refine ⟨fun _ => ?_, hsame.ledger ▸ h.bounded.accept _ _ _ _⟩
    rw [hsame.roster, hsame.topology]
    exact h.adopted hset
  · refine ⟨fun _ => by rw [hroster, htopology], ?_⟩
    rw [hledger, h.bounded.limits]
    exact .empty bounds

theorem after_tended {bounds : Limits} {r : PartitionRuntime} (h : Tended bounds r)
    (cs : List Call) : Tended bounds (r.after cs) := by
  refine runs_invariant h fun s hs hbefore => ?_
  have hafter := congrArg Prod.snd (mem_trace hs)
  rw [show s.after = (s.before.call s.call).2 from hafter]
  exact call_tended hbefore s.call

theorem construct_tended {options : RuntimeOptions} {disk : Disk} {ids : BootIdentities}
    {faults : List (Option AppendFault)} {r : PartitionRuntime}
    (h : construct options disk ids faults = (.ok (), r)) : Tended options.limits r := by
  have hbooted := construct_booted options disk ids faults
  rw [h] at hbooted
  refine ⟨hbooted.adopted (fun hset => by cases hset), ?_⟩
  rw [hbooted.ledger]
  exact .empty options.limits

/-- Since the roster had the generation, no other roster had it: a property of the ledger lasts as
long as that roster. -/
def Since (generation : TopologyGeneration) (P : EvidenceLedger → Prop) (r : PartitionRuntime) :
    Prop :=
  r.rosterSet = true ∧ generation.value ≤ r.roster.generation.value ∧
    (generation = r.roster.generation → P r.ledger)

/-- What an acceptance keeps, a call does. -/
theorem Since.call {generation : TopologyGeneration} {P : EvidenceLedger → Prop}
    (hP : ∀ ledger e roster ledger', EvidenceLedger.Accepted ledger e roster ledger' → P ledger →
      P ledger')
    {r : PartitionRuntime} (hadopted : r.Adopted) (h : Since generation P r) (c : Call) :
    Since generation P (r.call c).2 := by
  obtain ⟨hset, hle, hholds⟩ := h
  have hrenews := call_renews r c
  generalize c.operation = operation at hrenews
  rcases hrenews with
    ⟨hsame, -⟩ | ⟨-, -, hsame⟩ | ⟨hset', hroster, -, -, hadvances⟩
  · rw [Since, hsame.rosterSet, hsame.roster, hsame.ledger]
    exact ⟨hset, hle, hholds⟩
  · rw [Since, hsame.rosterSet, hsame.roster, hsame.ledger]
    refine ⟨hset, hle, fun hsame => ?_⟩
    rcases EvidenceLedger.accept_cases r.ledger _ r.roster r.policy r.state.tick with
      ⟨-, hunmoved, -⟩ | ⟨-, haccepted⟩
    · dsimp only
      rw [hunmoved]
      exact hholds hsame
    · exact hP _ _ _ _ haccepted (hholds hsame)
  · have hlt := hadvances hset
    rw [← hadopted hset] at hlt
    refine ⟨hset', ?_, fun hsame => ?_⟩
    · rw [hroster]
      exact UInt64.le_of_lt (UInt64.lt_of_le_of_lt hle hlt)
    · rw [hsame, hroster] at hle
      exact absurd hlt (UInt64.not_lt.mpr hle)

theorem Since.after {generation : TopologyGeneration} {P : EvidenceLedger → Prop}
    (hP : ∀ ledger e roster ledger', EvidenceLedger.Accepted ledger e roster ledger' → P ledger →
      P ledger')
    {bounds : Limits} {r : PartitionRuntime} (ht : Tended bounds r) (h : Since generation P r)
    (cs : List Call) : Since generation P (r.after cs) := by
  induction cs generalizing r with
  | nil => exact h
  | cons c cs ih => exact ih (call_tended ht c) (h.call hP ht.adopted c)

/-- A later step starts from a state the earlier one led to. -/
theorem sublist_trace {r : PartitionRuntime} {cs : List Call} {s : Step} {later : List Step}
    (h : (s :: later).Sublist (r.trace cs)) :
    ∃ ds es, s.before = r.after ds ∧ (s.response, s.after) = s.before.call s.call ∧
      later.Sublist (s.after.trace es) := by
  induction cs generalizing r with
  | nil => cases h
  | cons c cs ih =>
    rcases List.cons_sublist_cons'.mp h with hrest | ⟨rfl, hlater⟩
    · obtain ⟨ds, es, hbefore, hstep, hlater⟩ := ih hrest
      exact ⟨c :: ds, es, hbefore, hstep, hlater⟩
    · exact ⟨[], cs, rfl, rfl, hlater⟩

/-- An accepted bundle is behind the ledger, until the roster changes. -/
theorem accepts_since {s : Step} {e : ReachabilityEvidence} (h : s.Accepts e)
    (hstep : (s.response, s.after) = s.before.call s.call) :
    Since e.topologyGeneration (fun ledger => ledger.Covers e) s.after := by
  obtain ⟨hset, hroster, haccepted⟩ := accepts_accepted h hstep
  refine ⟨hset, ?_, fun _ => haccepted.covers⟩
  rw [hroster, haccepted.generation]
  exact UInt64.le_refl _

/-- No adoption among the steps takes effect. -/
def Settled (steps : List Step) : Prop :=
  ∀ s ∈ steps, ∀ definition, s.call.operation = .adoptTopology definition →
    s.after.roster = s.before.roster

theorem call_roster {r : PartitionRuntime} {c : Call}
    (h : ∀ definition, c.operation = .adoptTopology definition → (r.call c).2.roster = r.roster) :
    (r.call c).2.roster = r.roster := by
  have hrenews := call_renews r c
  generalize hoperation : c.operation = operation at hrenews
  rcases hrenews with ⟨hsame, -⟩ | ⟨-, -, hsame⟩ | _
  · exact hsame.roster
  · exact hsame.roster
  · exact h _ hoperation

/-- Between two adoptions every bundle is examined against one roster. -/
theorem settled_roster {r : PartitionRuntime} {cs : List Call} (h : Settled (r.trace cs)) :
    ∀ s ∈ r.trace cs, s.before.roster = r.roster := by
  induction cs generalizing r with
  | nil =>
    intro s hs
    cases hs
  | cons c cs ih =>
    intro s hs
    have hhead := h ⟨r, c, (r.call c).1, (r.call c).2⟩ List.mem_cons_self
    rcases List.mem_cons.mp hs with rfl | hs
    · rfl
    · exact (ih (fun t ht => h t (List.mem_cons_of_mem _ ht)) s hs).trans (call_roster hhead)

theorem settled_generation {r : PartitionRuntime} {cs : List Call} (h : Settled (r.trace cs))
    {s : Step} {e : ReachabilityEvidence} (hs : s ∈ r.trace cs) (haccepts : s.Accepts e) :
    e.topologyGeneration = r.roster.generation := by
  obtain ⟨-, -, haccepted⟩ := accepts_accepted haccepts (mem_trace hs)
  rw [haccepted.generation, settled_roster h s hs]

/-- **Two bundles of one boot**, accepted for the same generation: the sequence increases. -/
theorem accepted_sequences {bounds : Limits} {r : PartitionRuntime} (hr : Tended bounds r)
    {cs : List Call} {s t : Step} {e f : ReachabilityEvidence}
    (hst : [s, t].Sublist (r.trace cs)) (hs : s.Accepts e) (ht : t.Accepts f)
    (hgeneration : e.topologyGeneration = f.topologyGeneration)
    (hpublisher : e.publisher = f.publisher) (hboot : e.publisherBoot = f.publisherBoot) :
    e.sequence.value < f.sequence.value := by
  obtain ⟨ds, es, hbefore, hstep, hlater⟩ := sublist_trace hst
  obtain ⟨ds', -, hbefore', hstep', -⟩ := sublist_trace hlater
  have hafter := call_tended (hbefore ▸ after_tended hr ds) s.call
  rw [← hstep] at hafter
  have hsince := (accepts_since hs hstep).after (fun _ _ _ _ h => h.keeps) hafter ds'
  obtain ⟨-, -, haccepted⟩ := accepts_accepted ht hstep'
  rw [← hbefore'] at hsince
  exact haccepted.increases (hsince.2.2 (hgeneration.trans haccepted.generation)) hpublisher hboot

/-- **Three bundles**, accepted for the same generation, the second of which replaces the boot of the
first: the third does not come from that boot. -/
theorem replaced_boots {bounds : Limits} {r : PartitionRuntime} (hr : Tended bounds r)
    {cs : List Call} {s t u : Step} {e f g : ReachabilityEvidence}
    (hstu : [s, t, u].Sublist (r.trace cs)) (hs : s.Accepts e) (ht : t.Accepts f) (hu : u.Accepts g)
    (hef : e.topologyGeneration = f.topologyGeneration)
    (hfg : f.topologyGeneration = g.topologyGeneration)
    (hpublisher : e.publisher = f.publisher) (hboot : e.publisherBoot ≠ f.publisherBoot) :
    g.publisherBoot ≠ e.publisherBoot := by
  obtain ⟨ds, es, hbefore, hstep, hlater⟩ := sublist_trace hstu
  obtain ⟨ds', es', hbefore', hstep', hlast⟩ := sublist_trace hlater
  obtain ⟨ds'', -, hbefore'', hstep'', -⟩ := sublist_trace hlast
  have hafter := call_tended (hbefore ▸ after_tended hr ds) s.call
  rw [← hstep] at hafter
  have hsince := (accepts_since hs hstep).after (fun _ _ _ _ h => h.keeps) hafter ds'
  have hafter' := call_tended (hbefore' ▸ after_tended hafter ds') t.call
  rw [← hstep'] at hafter'
  obtain ⟨hset, hroster, haccepted⟩ := accepts_accepted ht hstep'
  rw [← hbefore'] at hsince
  -- The second bundle retires the boot, and what is retired stays so.
  have hretired := haccepted.retires (hsince.2.2 (hef.trans haccepted.generation)) hpublisher hboot
  have hgone : Since f.topologyGeneration (fun ledger => e.publisherBoot ∈ ledger.retiredBoots)
      t.after := by
    refine ⟨hset, ?_, fun _ => hretired⟩
    rw [hroster, haccepted.generation]
    exact UInt64.le_refl _
  have hlong := hgone.after (fun _ _ _ _ h => h.retired _) hafter' ds''
  obtain ⟨-, -, hlastly⟩ := accepts_accepted hu hstep''
  rw [← hbefore''] at hlong
  intro heq
  exact hlastly.fresh (heq ▸ hlong.2.2 (hfg.trans hlastly.generation))

/-- **Evidence is accepted at most once.**  In every run of an incarnation no two accepted bundles
agree on generation, publisher, boot and sequence.  While no adoption takes effect the sequences of a
boot increase, and a boot that its publisher replaced is not accepted again, from any publisher.  The
ledger is always within its bounds, and refuses a bundle that passes the checks only for want of room
for the boot it replaces. -/
theorem evidence_accepted_once {options : RuntimeOptions} {disk : Disk} {ids : BootIdentities}
    {faults : List (Option AppendFault)} {r : PartitionRuntime}
    (h : construct options disk ids faults = (.ok (), r)) (cs : List Call) :
    (∀ s t e f, [s, t].Sublist (r.trace cs) → s.Accepts e → t.Accepts f →
      ¬ (e.topologyGeneration = f.topologyGeneration ∧ e.publisher = f.publisher ∧
        e.publisherBoot = f.publisherBoot ∧ e.sequence = f.sequence)) ∧
    (∀ es, Settled ((r.after cs).trace es) →
      (∀ s t e f, [s, t].Sublist ((r.after cs).trace es) → s.Accepts e → t.Accepts f →
        e.publisher = f.publisher → e.publisherBoot = f.publisherBoot →
        e.sequence.value < f.sequence.value) ∧
      ∀ s t u e f g, [s, t, u].Sublist ((r.after cs).trace es) →
        s.Accepts e → t.Accepts f → u.Accepts g → e.publisher = f.publisher →
        e.publisherBoot ≠ f.publisherBoot → g.publisherBoot ≠ e.publisherBoot) ∧
    (r.after cs).ledger.Bounded options.limits ∧
    ∀ e roster policy now, (r.after cs).ledger.examine e roster policy now = none →
      (EvidenceLedger.replacesBoot ((r.after cs).ledger.findCursor e.publisher) e = true →
        (r.after cs).ledger.retiredBoots.length < (r.after cs).ledger.limits.maxRetainedEvidence) →
      ((r.after cs).ledger.accept e roster policy now).1.status = .accepted := by
  have hr := construct_tended h
  have hafter := after_tended hr cs
  refine ⟨?_, fun es hsettled => ⟨?_, ?_⟩, hafter.bounded, ?_⟩
  · intro s t e f hst hs ht ⟨hgeneration, hpublisher, hboot, hsequence⟩
    have hlt := accepted_sequences hr hst hs ht hgeneration hpublisher hboot
    rw [hsequence] at hlt
    exact UInt64.lt_irrefl _ hlt
  · intro s t e f hst hs ht hpublisher hboot
    have he := settled_generation hsettled (hst.subset (by simp)) hs
    have hf := settled_generation hsettled (hst.subset (by simp)) ht
    exact accepted_sequences hafter hst hs ht (he.trans hf.symm) hpublisher hboot
  · intro s t u e f g hstu hs ht hu hpublisher hboot
    have he := settled_generation hsettled (hstu.subset (by simp)) hs
    have hf := settled_generation hsettled (hstu.subset (by simp)) ht
    have hg := settled_generation hsettled (hstu.subset (by simp)) hu
    exact replaced_boots hafter hstu hs ht hu (he.trans hf.symm) (hf.trans hg.symm) hpublisher hboot
  · intro e roster policy now hexamine hretired
    exact EvidenceLedger.accept_of_examine hafter.bounded.cursors hexamine hretired

/-- One bundle, another of the same publisher, and the first one again. -/
def repeatedCalls : List Call :=
  [⟨.ingestEvidence (smallBundle 1 0 (bothWays [("a", "b")] .reachable)), []⟩,
    ⟨.ingestEvidence (smallBundle 2 0 (bothWays [("a", "b")] .reachable)), []⟩,
    ⟨.ingestEvidence (smallBundle 1 0 (bothWays [("a", "b")] .reachable)), []⟩]

/-- The second bundle is accepted; the first one is not accepted again. -/
theorem evidence_repeated :
    ∃ s t u, (smallRuntime.after [⟨.adoptTopology (smallTopology 1 ["a", "b"]), []⟩]).trace
        repeatedCalls = [s, t, u] ∧
      s.Accepts (smallBundle 1 0 (bothWays [("a", "b")] .reachable)) ∧
      t.Accepts (smallBundle 2 0 (bothWays [("a", "b")] .reachable)) ∧
      ¬ u.Accepts (smallBundle 1 0 (bothWays [("a", "b")] .reachable)) := by
  have h := evidence_accepted_once smallRuntime_started
    (⟨.adoptTopology (smallTopology 1 ["a", "b"]), []⟩ :: repeatedCalls)
  refine ⟨_, _, _, rfl, ⟨rfl, by decide +kernel, by decide +kernel, by decide +kernel⟩,
    ⟨rfl, by decide +kernel, by decide +kernel, by decide +kernel⟩, fun hu => ?_⟩
  exact h.1 _ _ _ _ (.cons _ (.cons_cons _ (.cons _ (.cons_cons _ .slnil))))
    ⟨rfl, by decide +kernel, by decide +kernel, by decide +kernel⟩ hu ⟨rfl, rfl, rfl, rfl⟩

end PartitionRuntime

end FabricPartition
