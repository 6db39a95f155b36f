import FabricPartition.Accounting
import FabricPartition.WireCodecs

/-!
# Shortened evidence

`encode_evidence` cuts both lists of a bundle to the bounds of its limits, where `decode_evidence` and
the ledger refuse what exceeds theirs.  So a bundle that exceeds a bound arrives, as a smaller one
(`decodeEvidence_cut`); if it claims complete coverage, what was cut off is thereby denied.

Only a list that is still too long for its 32-bit count is refused instead: the bytes behind the
wrapped count are taken for something else, and there are too many of them (`decodeEvidence_long`).
-/

set_option autoImplicit false

namespace FabricPartition

namespace ReachabilityEvidence

/-- The bundle with its lists cut to the bounds. -/
def cut (e : ReachabilityEvidence) (limits : Limits) : ReachabilityEvidence :=
  { e with
    coveredSources := e.coveredSources.take limits.maxCoveredComponentsPerEvidence
    observations := e.observations.take limits.maxObservationsPerEvidence }

/-- The bundle arrives as it is, or not at all. -/
def Intact (e : ReachabilityEvidence) (limits : Limits) : Prop :=
  decodeEvidence (encodeEvidence e limits) limits = none ∨
    decodeEvidence (encodeEvidence e limits) limits = some e

instance (e : ReachabilityEvidence) (limits : Limits) : Decidable (e.Intact limits) :=
  inferInstanceAs (Decidable (_ ∨ _))

variable {e v : ReachabilityEvidence} {limits : Limits}

theorem cut_eq_iff : e.cut limits = e ↔
    e.coveredSources.length ≤ limits.maxCoveredComponentsPerEvidence ∧
      e.observations.length ≤ limits.maxObservationsPerEvidence := by
  rw [cut, ← List.take_eq_self_iff, ← List.take_eq_self_iff]
  obtain ⟨⟩ := e
  simp only [ReachabilityEvidence.mk.injEq, true_and]

/-- **What is sent is the cut bundle**, and it is read back if its counts are 32-bit numbers. -/
theorem decodeEvidence_cut (h : (e.cut limits).coveredSources.length < 2 ^ 32)
    (h' : (e.cut limits).observations.length < 2 ^ 32) :
    decodeEvidence (encodeEvidence e limits) limits = some (e.cut limits) := by
  have hfits : (e.cut limits).FitsIn limits :=
    ⟨⟨List.length_take_le _ _, h⟩, ⟨List.length_take_le _ _, h'⟩⟩
  refine ((codec_evidence limits).whole_iff _ _).mpr ⟨hfits, ?_⟩
  simp only [encodeEvidence, cut, List.take_take, Nat.min_self]

/-! ## Lists too long for their count -/

/-- Two bundles of one image have the same header. -/
theorem lists_of_encode_eq (h : encodeEvidence e limits = encodeEvidence v limits) :
    Write.counted Write.textId (e.cut limits).coveredSources
        ++ Write.counted encodeObservation (e.cut limits).observations
      = Write.counted Write.textId (v.cut limits).coveredSources
        ++ Write.counted encodeObservation (v.cut limits).observations := by
  simp only [encodeEvidence, List.append_assoc] at h
  replace h := (codec_textId.cancel trivial trivial h).2
  replace h := (codec_counter.cancel trivial trivial h).2
  replace h := (codec_textId.cancel trivial trivial h).2
  replace h := (codec_binaryId.cancel trivial trivial h).2
  replace h := (codec_counter.cancel trivial trivial h).2
  replace h := (codec_counter.cancel trivial trivial h).2
  replace h := (codec_u64.cancel trivial trivial h).2
  replace h := (codec_u64.cancel trivial trivial h).2
  replace h := (codec_u8.cancel trivial trivial h).2
  exact (codec_textId.cancel trivial trivial h).2

/-- Lists of one image behind their counts: the shorter one begins the longer one. -/
theorem rest_of_counted_eq {α : Type} {m : Read α} {enc : α → Bytes} (hm : Codec m enc fun _ => True)
    {xs ys : List α} (hxs : xs.length < 2 ^ 32) {s t : Bytes}
    (h : Write.counted enc xs ++ s = Write.counted enc ys ++ t) :
    ∃ rest, ys = xs ++ rest ∧ s = rest.flatMap enc ++ t ∧ rest.length % 2 ^ 32 = 0 := by
  rw [Write.counted, Write.counted, List.append_assoc, List.append_assoc] at h
  obtain ⟨hcount, hlists⟩ := codec_u32.cancel trivial trivial h
  have hlength := congrArg UInt32.toNat hcount
  rw [UInt32.toNat_ofNat', UInt32.toNat_ofNat', Nat.mod_eq_of_lt hxs] at hlength
  obtain ⟨rest, rfl, hs⟩ := flatMap_prefix hm (fun _ _ => trivial) (fun _ _ => trivial)
    (hlength ▸ Nat.mod_le _ _) hlists
  refine ⟨rest, rfl, hs, ?_⟩
  rw [List.length_append] at hlength
  omega

theorem length_encodeObservation (o : LinkObservation) :
    1 ≤ (encodeObservation o).length ∧ (encodeObservation o).length ≤ 201 := by
  have hsource : o.source.text.length ≤ 96 := o.source.length_le
  have htarget : o.target.text.length ≤ 96 := o.target.length_le
  have hvalue : (Write.u8 o.value.code).length = 1 := rfl
  rw [encodeObservation, List.length_append, List.length_append, hvalue, Write.length_textId,
    Write.length_textId]
  omega

/-- What is read as the observations behind a wrapped count is too short. -/
theorem no_wrapped_sources {rest : List ComponentId} (hrest : 2 ^ 32 ≤ rest.length)
    {observations : List LinkObservation} (hobservations : observations.length < 2 ^ 32) {t : Bytes} :
    Write.counted encodeObservation observations ≠ rest.flatMap Write.textId ++ t := by
  intro h
  rcases rest with _ | ⟨id, rest⟩
  · simp at hrest
  rw [Write.counted, List.flatMap_cons, Write.textId, Write.text, List.append_assoc,
    List.append_assoc] at h
  obtain ⟨hcount, hlater⟩ := codec_u32.cancel trivial trivial h
  have hid : id.text.length ≤ 96 := id.length_le
  have hfew : observations.length ≤ 96 := by
    rw [ofNat_eq_iff hobservations, UInt32.toNat_ofNat'] at hcount
    omega
  have hshort := length_flatMap_le (fun o => (length_encodeObservation o).2) observations
  have hlong := le_length_flatMap fun (id : ComponentId) (_ : id ∈ rest) =>
    (Nat.le_add_right 4 _).trans_eq (Write.length_textId id).symm
  rw [hlater] at hshort
  simp only [List.length_append] at hshort
  rw [List.length_cons] at hrest
  omega

/-- **A list that is too long for its count is refused.** -/
theorem decodeEvidence_long (h : 2 ^ 32 ≤ (e.cut limits).coveredSources.length ∨
    2 ^ 32 ≤ (e.cut limits).observations.length) :
    decodeEvidence (encodeEvidence e limits) limits = none := by
  by_contra hne
  obtain ⟨v, hv⟩ := Option.ne_none_iff_exists'.mp hne
  obtain ⟨hfits, himage⟩ := ((codec_evidence limits).whole_iff _ _).mp hv
  have hsame : v.cut limits = v := cut_eq_iff.mpr ⟨hfits.coveredSources.1, hfits.observations.1⟩
  have hlists := lists_of_encode_eq himage
  rw [hsame] at hlists
  obtain ⟨rest, hcovered, hlater, hturns⟩ :=
    rest_of_counted_eq codec_textId hfits.coveredSources.2 hlists.symm
  have hlong : 2 ^ 32 ≤ rest.length → False := fun hrest =>
    no_wrapped_sources hrest hfits.observations.2 hlater
  rcases Nat.eq_zero_or_pos rest.length with hnone | hsome
  · -- the sources are those that were read, and the observations were wrapped
    rw [List.length_eq_zero_iff.mp hnone] at hcovered hlater
    rw [List.append_nil] at hcovered
    have hobservations := h.resolve_left fun hsources => by
      have := hfits.coveredSources.2
      rw [hcovered] at hsources
      omega
    rw [List.flatMap_nil, List.nil_append, ← List.append_nil (Write.counted _ _),
      ← List.append_nil (Write.counted _ (e.cut limits).observations)] at hlater
    obtain ⟨extra, hextra, hend, -⟩ :=
      rest_of_counted_eq codec_observation hfits.observations.2 hlater
    rcases extra with _ | ⟨o, extra⟩
    · have := hfits.observations.2
      rw [hextra, List.append_nil] at hobservations
      omega
    · have hfirst := (length_encodeObservation o).1
      have hnothing := congrArg List.length hend
      rw [List.append_nil, List.flatMap_cons, List.length_append, List.length_nil] at hnothing
      omega
  · exact hlong (by omega)

/-- **A bundle arrives intact or not at all** exactly when its lists are within the bounds, or one of
them, cut to its bound, is still too long for a 32-bit count. -/
theorem intact_iff (e : ReachabilityEvidence) (limits : Limits) : e.Intact limits ↔
    (e.coveredSources.length ≤ limits.maxCoveredComponentsPerEvidence ∧
        e.observations.length ≤ limits.maxObservationsPerEvidence) ∨
      2 ^ 32 ≤ min limits.maxCoveredComponentsPerEvidence e.coveredSources.length ∨
      2 ^ 32 ≤ min limits.maxObservationsPerEvidence e.observations.length := by
  have hcovered : (e.cut limits).coveredSources.length
      = min limits.maxCoveredComponentsPerEvidence e.coveredSources.length := List.length_take
  have hobservations : (e.cut limits).observations.length
      = min limits.maxObservationsPerEvidence e.observations.length := List.length_take
  rw [← cut_eq_iff, ← hcovered, ← hobservations]
  by_cases hlong : 2 ^ 32 ≤ (e.cut limits).coveredSources.length ∨
      2 ^ 32 ≤ (e.cut limits).observations.length
  · exact iff_of_true (.inl (decodeEvidence_long hlong)) (.inr hlong)
  · have hread := @decodeEvidence_cut e limits (Nat.lt_of_not_le fun h => hlong (.inl h))
      (Nat.lt_of_not_le fun h => hlong (.inr h))
    rw [Intact, hread, or_iff_left hlong]
    refine ⟨fun h => ?_, fun h => .inr (congrArg some h)⟩
    rcases h with h | h
    · cases h
    · exact Option.some.inj h

/-- Both components reach each other, and the claim of both is complete. -/
def claimedEvidence : ReachabilityEvidence :=
  { pairEvidence with completeness := .complete, coveredSources := pairRoster.components }

/-- One of the two observations is sent: what arrives denies the other one. -/
theorem claim_shortened : ¬ claimedEvidence.Intact { maxObservationsPerEvidence := 1 } := by
  decide +kernel

end ReachabilityEvidence

end FabricPartition
