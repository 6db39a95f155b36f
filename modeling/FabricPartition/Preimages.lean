import FabricPartition.Hashing
import FabricPartition.Codecs
import FabricPartition.OrderIndependence
import FabricPartition.Partition
import FabricPartition.Run

/-!
# Identity preimages

Six functions derive identities, each by feeding its fields to a hasher.  `Hashed` is what they are
given, `Hashed.stream` the bytes they feed: a domain of their own first, then every text behind its
length, every list behind its count, and the rest in fixed widths.

* `computes` — the identities are the digests of these streams;
* `stream_eq_iff` — two streams are equal only if they come from one function and from the same
  fields;
* `identity_preimages_unambiguous` — so what has one identity has the same fields, as far as SHA-256
  does not collide on the streams at hand.
-/

set_option autoImplicit false

namespace FabricPartition

/-- `sha256_bytes`. -/
def sha256Bytes (message : Bytes) : Digest := (({} : Sha256).update message).finish

namespace Sha256

/-- **A hasher finishes with the digest of what it was fed**, in whatever chunks. -/
theorem Streams.finish {hasher : Sha256} {message : Bytes} (h : Streams hasher message) :
    hasher.finish = sha256Bytes message := by
  have hwhole : Streams (({} : Sha256).update message) message := Streams.empty.update message
  have hsame : hasher = ({} : Sha256).update message := by
    obtain ⟨state, buffer, totalBytes, finalized⟩ := hasher
    generalize ({} : Sha256).update message = whole at hwhole
    obtain ⟨state', buffer', totalBytes', finalized'⟩ := whole
    obtain ⟨hstate, hbuffer⟩ := Prod.mk.inj (h.held.symm.trans hwhole.held)
    have htotal : totalBytes = totalBytes' := h.total.trans hwhole.total.symm
    have hlive : finalized = finalized' := h.live.trans hwhole.live.symm
    simp only at hstate hbuffer
    rw [hstate, hbuffer, htotal, hlive]
  rw [hsame, sha256Bytes]

theorem Streams.updateText {hasher : Sha256} {message : Bytes} (h : Streams hasher message)
    (t : Text) : Streams (hasher.updateText t) (message ++ Write.text t) := by
  rw [Write.text, ← List.append_assoc]
  exact (h.update _).update t

theorem Streams.updateBe64 {hasher : Sha256} {message : Bytes} (h : Streams hasher message)
    (v : UInt64) : Streams (hasher.updateBe64 v) (message ++ Write.u64 v) :=
  h.update _

end Sha256

open Sha256

theorem streams_updateTexts {tag : IdTag} {hasher : Sha256} {message : Bytes}
    (h : Streams hasher message) (ids : List (TextId tag)) :
    Streams (updateTexts hasher ids) (message ++ ids.flatMap Write.textId) := by
  induction ids generalizing hasher message with
  | nil =>
    rw [List.flatMap_nil, List.append_nil]
    exact h
  | cons id rest ih =>
    rw [List.flatMap_cons, ← List.append_assoc]
    exact ih (h.updateText id.text)

/-! ## What is hashed -/

/-- The arguments of a function that derives an identity. -/
inductive Hashed
  | roster (definition : TopologyDefinition)
  | membership (members : List ComponentId)
  | partition (lineage : LineageId) (generation : PartitionGeneration)
      (membership : MembershipDigest)
  | lineage (domain : Text) (left right : LineageId) (membership : MembershipDigest)
  | record (record : LineageRecord)
  | connectivity (generation : TopologyGeneration) (components : List ComponentId)
      (edges : List (Nat × Nat))

namespace Hashed

/-- The domain of the function. -/
def domain : Hashed → String
  | roster _ => "fabric-partition-manager/roster/v1"
  | membership _ => "fabric-partition-manager/membership/v1"
  | partition _ _ _ => "fabric-partition-manager/partition-identity/v1"
  | lineage _ _ _ _ => "fabric-partition-manager/lineage-identity/v1"
  | record _ => "fabric-partition-manager/lineage-record/v1"
  | connectivity _ _ _ => "fabric-partition-manager/resolved-connectivity/v1"

/-- The names of the ends of an edge. -/
def edgeNames (components : List ComponentId) (e : Nat × Nat) : ComponentId × ComponentId :=
  (components.getD e.1 .nil, components.getD e.2 .nil)

/-- The image of an edge. -/
def encodeEdge (e : ComponentId × ComponentId) : Bytes := Write.textId e.1 ++ Write.textId e.2

/-- The bytes behind the domain. -/
def body : Hashed → Bytes
  | roster d => Write.textId d.id ++ Write.counter d.generation ++ Write.textId d.provenance
      ++ Write.u64 (UInt64.ofNat (sortedComponents d.components).length)
      ++ (sortedComponents d.components).flatMap Write.textId
  | membership members => Write.u64 (UInt64.ofNat members.length) ++ members.flatMap Write.textId
  | partition l generation m => Write.textId l ++ Write.counter generation ++ Write.digest m
  | lineage domain left right m => Write.text domain ++ Write.textId left ++ Write.textId right
      ++ Write.digest m
  | record r => Write.counter r.sequence ++ Write.textId r.lineage ++ Write.counter r.generation
      ++ Write.digest r.membership ++ Write.u64 (UInt64.ofNat r.members.length)
      ++ r.members.flatMap Write.textId ++ Write.u8 r.event.code ++ Write.textId r.parentLeft
      ++ Write.textId r.parentRight ++ Write.counter r.epoch ++ Write.binaryId r.boot
      ++ Write.textId r.decision ++ Write.u64 r.tick
  | connectivity generation components edges => Write.counter generation
      ++ Write.u64 (UInt64.ofNat components.length) ++ Write.u64 (UInt64.ofNat edges.length)
      ++ (edges.map (edgeNames components)).flatMap encodeEdge

/-- The bytes the hasher is fed. -/
def stream (x : Hashed) : Bytes := Write.text (ascii x.domain) ++ x.body

/-- Their digest. -/
def digest (x : Hashed) : Digest := sha256Bytes x.stream

/-- **The identities are the digests of the streams.** -/
structure Computes : Prop where
  roster : ∀ d, computeRosterDigest d = ⟨(roster d).digest⟩
  membership : ∀ members, computeMembershipDigest members = ⟨(membership members).digest⟩
  partition : ∀ l generation m,
    (computePartitionId l generation m).text = hexIdentifier 112 (partition l generation m).digest
  lineage : ∀ domain left right m, (deriveLineageId domain left right m).text
    = hexIdentifier 108 (lineage (ascii domain) left right m).digest
  record : ∀ r, computeLineageDigest r = ⟨(record r).digest⟩
  connectivity : ∀ generation components edges, computeEvidenceDigest generation components edges
    = ⟨(connectivity generation components edges).digest⟩

/-- What is fed to a hasher that has been fed the domain. -/
theorem streams_domain (x : Hashed) :
    Streams (({} : Sha256).updateText (ascii x.domain)) (Write.text (ascii x.domain)) :=
  Streams.empty.updateText _

theorem computes : Computes where
  roster d := by
    have h := ((((roster d).streams_domain.updateText d.id.text).updateBe64 d.generation.value
      ).updateText d.provenance.text).updateBe64 (UInt64.ofNat (sortedComponents d.components).length)
    have hfed := (streams_updateTexts h (sortedComponents d.components)).finish
    rw [computeRosterDigest, digest, stream, body]
    simp only [List.append_assoc] at hfed ⊢
    exact congrArg TypedDigest.mk hfed
  membership members := by
    have h := (membership members).streams_domain.updateBe64 (UInt64.ofNat members.length)
    have hfed := (streams_updateTexts h members).finish
    rw [computeMembershipDigest, digest, stream, body]
    simp only [List.append_assoc] at hfed ⊢
    exact congrArg TypedDigest.mk hfed
  partition l generation m := by
    have hfed := ((((partition l generation m).streams_domain.updateText l.text).updateBe64
      generation.value).update m.value.bytes).finish
    rw [computePartitionId, digest, stream, body]
    simp only [List.append_assoc] at hfed ⊢
    exact congrArg (hexIdentifier 112) hfed
  lineage domain left right m := by
    have hfed := (((((lineage (ascii domain) left right m).streams_domain.updateText (ascii domain)
      ).updateText left.text).updateText right.text).update m.value.bytes).finish
    rw [deriveLineageId, digest, stream, body]
    simp only [List.append_assoc] at hfed ⊢
    exact congrArg (hexIdentifier 108) hfed
  record r := by
    have h := (((((record r).streams_domain.updateBe64 r.sequence.value).updateText r.lineage.text
      ).updateBe64 r.generation.value).update r.membership.value.bytes).updateBe64
        (UInt64.ofNat r.members.length)
    have hfed := ((((((((streams_updateTexts h r.members).update [r.event.code]).updateText
      r.parentLeft.text).updateText r.parentRight.text).updateBe64 r.epoch.value).update
        r.boot.bytes).updateText r.decision.text).updateBe64 r.tick).finish
    rw [computeLineageDigest, digest, stream, body]
    simp only [List.append_assoc] at hfed ⊢
    exact congrArg TypedDigest.mk hfed
  connectivity generation components edges := by
    have hedges : ∀ (es : List (Nat × Nat)) {hasher : Sha256} {message : Bytes},
        Streams hasher message →
        Streams (es.foldl (fun h e => (h.updateText (components.getD e.1 .nil).text).updateText
          (components.getD e.2 .nil).text) hasher)
          (message ++ (es.map (edgeNames components)).flatMap encodeEdge) := by
      intro es
      induction es with
      | nil =>
        intro hasher message h
        rw [List.map_nil, List.flatMap_nil, List.append_nil]
        exact h
      | cons e es ih =>
        intro hasher message h
        rw [List.map_cons, List.flatMap_cons, encodeEdge, edgeNames, ← List.append_assoc,
          ← List.append_assoc]
        exact ih ((h.updateText _).updateText _)
    have h := (((connectivity generation components edges).streams_domain.updateBe64
      generation.value).updateBe64 (UInt64.ofNat components.length)).updateBe64
        (UInt64.ofNat edges.length)
    have hfed := (hedges edges h).finish
    rw [computeEvidenceDigest, digest, stream, body]
    simp only [List.append_assoc] at hfed ⊢
    exact congrArg TypedDigest.mk hfed

/-! ## What a stream determines -/

/-- The same function, and the same fields: for a roster, up to the order of the components. -/
def Same : Hashed → Hashed → Prop
  | roster d, roster d' => d.Reorders d'
  | membership members, membership members' => members = members'
  | partition l generation m, partition l' generation' m' =>
    l = l' ∧ generation = generation' ∧ m = m'
  | lineage domain left right m, lineage domain' left' right' m' =>
    domain = domain' ∧ left = left' ∧ right = right' ∧ m = m'
  | record r, record r' => { r with digest := default } = { r' with digest := default }
  | connectivity generation components edges, connectivity generation' components' edges' =>
    generation = generation' ∧
      UInt64.ofNat components.length = UInt64.ofNat components'.length ∧
      edges.map (edgeNames components) = edges'.map (edgeNames components')
  | _, _ => False

/-- Texts behind lengths that may be wrapped, in front of short ends. -/
theorem text_cancel_of_short {s t x y : Bytes} (hx : x.length < 2 ^ 32) (hy : y.length < 2 ^ 32)
    (h : Write.text s ++ x = Write.text t ++ y) : s = t ∧ x = y := by
  have htotal := congrArg List.length h
  rw [Write.text, Write.text, List.append_assoc, List.append_assoc] at h
  obtain ⟨hcount, hlater⟩ := codec_u32.cancel trivial trivial h
  have hlength := congrArg UInt32.toNat hcount
  rw [UInt32.toNat_ofNat', UInt32.toNat_ofNat'] at hlength
  have hsize : ∀ u : Bytes, (Write.text u).length = 4 + u.length := fun u => by
    rw [Write.text, List.length_append]
    rfl
  rw [List.length_append, List.length_append, hsize, hsize] at htotal
  exact List.append_inj hlater (by omega)

/-- Lists of images behind counts of 64 bits, in front of short ends. -/
theorem counted_cancel {α : Type} {m : Read α} {enc : α → Bytes} (hm : Codec m enc fun _ => True)
    (hpos : ∀ x, 1 ≤ (enc x).length) {xs ys : List α} {s t : Bytes} (hs : s.length < 2 ^ 64)
    (ht : t.length < 2 ^ 64)
    (h : Write.u64 (UInt64.ofNat xs.length) ++ (xs.flatMap enc ++ s)
      = Write.u64 (UInt64.ofNat ys.length) ++ (ys.flatMap enc ++ t)) : xs = ys ∧ s = t := by
  obtain ⟨hcount, hlists⟩ := codec_u64.cancel trivial trivial h
  have hlength := congrArg UInt64.toNat hcount
  rw [UInt64.toNat_ofNat', UInt64.toNat_ofNat'] at hlength
  exact flatMap_cancel hm hpos hlength hs ht hlists

/-- Such a list at the end of a stream. -/
theorem counted_end {α : Type} {m : Read α} {enc : α → Bytes} (hm : Codec m enc fun _ => True)
    (hpos : ∀ x, 1 ≤ (enc x).length) {xs ys : List α}
    (h : Write.u64 (UInt64.ofNat xs.length) ++ xs.flatMap enc
      = Write.u64 (UInt64.ofNat ys.length) ++ ys.flatMap enc) : xs = ys := by
  have hnil : ([] : Bytes).length < 2 ^ 64 := by decide
  rw [← List.append_nil (xs.flatMap enc), ← List.append_nil (ys.flatMap enc)] at h
  exact (counted_cancel hm hpos hnil hnil h).1

theorem length_textId_pos {tag : IdTag} (id : TextId tag) : 1 ≤ (Write.textId id).length := by
  rw [Write.length_textId]
  omega

theorem codec_edge : Codec (do
    let source ← Read.textId
    let target ← Read.textId
    return (source, target) : Read (ComponentId × ComponentId)) encodeEdge fun _ => True := by
  refine .congr (.field codec_textId Prod.fst fun source => .field codec_textId Prod.snd fun target =>
    .pure fun e => ?_) fun e _ => by simp [encodeEdge]
  obtain ⟨source', target'⟩ := e
  simp

theorem roster_body {d d' : TopologyDefinition} (h : (roster d).body = (roster d').body) :
    d.Reorders d' := by
  simp only [body, List.append_assoc] at h
  obtain ⟨hid, h⟩ := codec_textId.cancel trivial trivial h
  obtain ⟨hgeneration, h⟩ := codec_counter.cancel trivial trivial h
  obtain ⟨hprovenance, h⟩ := codec_textId.cancel trivial trivial h
  have hsorted := counted_end codec_textId length_textId_pos h
  refine ⟨?_, ?_⟩
  · obtain ⟨⟩ := d
    obtain ⟨⟩ := d'
    simp only at hid hgeneration hprovenance
    rw [hid, hgeneration, hprovenance]
  · have hperm := (List.perm_insertionSort (· ≤ ·) d.components).symm
    exact hperm.trans ((List.Perm.of_eq hsorted).trans (List.perm_insertionSort _ _))

theorem membership_body {members members' : List ComponentId}
    (h : (membership members).body = (membership members').body) : members = members' :=
  counted_end codec_textId length_textId_pos h

theorem partition_body {l l' : LineageId} {generation generation' : PartitionGeneration}
    {m m' : MembershipDigest}
    (h : (partition l generation m).body = (partition l' generation' m').body) :
    l = l' ∧ generation = generation' ∧ m = m' := by
  simp only [body, List.append_assoc] at h
  obtain ⟨hl, h⟩ := codec_textId.cancel trivial trivial h
  obtain ⟨hgeneration, h⟩ := codec_counter.cancel trivial trivial h
  rw [← List.append_nil (Write.digest m), ← List.append_nil (Write.digest m')] at h
  exact ⟨hl, hgeneration, (codec_digest.cancel trivial trivial h).1⟩

/-- The domain string may be of any length: what is behind it is too short to make up for a wrapped
length. -/
theorem lineage_body {domain domain' : Text} {left left' right right' : LineageId}
    {m m' : MembershipDigest}
    (h : (lineage domain left right m).body = (lineage domain' left' right' m').body) :
    domain = domain' ∧ left = left' ∧ right = right' ∧ m = m' := by
  have hshort : ∀ (left right : LineageId) (m : MembershipDigest),
      (Write.textId left ++ (Write.textId right ++ Write.digest m)).length < 2 ^ 32 := by
    intro left right m
    have hleft : left.text.length ≤ 96 := left.length_le
    have hright : right.text.length ≤ 96 := right.length_le
    have hdigest : (Write.digest m).length = 32 := m.value.size
    rw [List.length_append, List.length_append, Write.length_textId, Write.length_textId, hdigest]
    omega
  simp only [body, List.append_assoc] at h
  obtain ⟨hdomain, h⟩ := text_cancel_of_short (hshort _ _ _) (hshort _ _ _) h
  obtain ⟨hleft, h⟩ := codec_textId.cancel trivial trivial h
  obtain ⟨hright, h⟩ := codec_textId.cancel trivial trivial h
  rw [← List.append_nil (Write.digest m), ← List.append_nil (Write.digest m')] at h
  exact ⟨hdomain, hleft, hright, (codec_digest.cancel trivial trivial h).1⟩

theorem record_body {r r' : LineageRecord} (h : (record r).body = (record r').body) :
    { r with digest := default } = { r' with digest := default } := by
  have hshort : ∀ r : LineageRecord, (Write.u8 r.event.code ++ (Write.textId r.parentLeft
      ++ (Write.textId r.parentRight ++ (Write.counter r.epoch ++ (Write.binaryId r.boot
      ++ (Write.textId r.decision ++ Write.u64 r.tick)))))).length < 2 ^ 64 := by
    intro r
    have hleft : r.parentLeft.text.length ≤ 96 := r.parentLeft.length_le
    have hright : r.parentRight.text.length ≤ 96 := r.parentRight.length_le
    have hdecision : r.decision.text.length ≤ 96 := r.decision.length_le
    have hevent : (Write.u8 r.event.code).length = 1 := rfl
    have hepoch : (Write.counter r.epoch).length = 8 := rfl
    have hboot : (Write.binaryId r.boot).length = 16 := r.boot.size
    have htick : (Write.u64 r.tick).length = 8 := rfl
    simp only [List.length_append, Write.length_textId, hevent, hepoch, hboot, htick]
    omega
  simp only [body, List.append_assoc] at h
  obtain ⟨hsequence, h⟩ := codec_counter.cancel trivial trivial h
  obtain ⟨hlineage, h⟩ := codec_textId.cancel trivial trivial h
  obtain ⟨hgeneration, h⟩ := codec_counter.cancel trivial trivial h
  obtain ⟨hmembership, h⟩ := codec_digest.cancel trivial trivial h
  obtain ⟨hmembers, h⟩ := counted_cancel codec_textId length_textId_pos (hshort r) (hshort r') h
  obtain ⟨hevent, h⟩ := codec_u8.cancel trivial trivial h
  obtain ⟨hleft, h⟩ := codec_textId.cancel trivial trivial h
  obtain ⟨hright, h⟩ := codec_textId.cancel trivial trivial h
  obtain ⟨hepoch, h⟩ := codec_counter.cancel trivial trivial h
  obtain ⟨hboot, h⟩ := codec_binaryId.cancel trivial trivial h
  obtain ⟨hdecision, h⟩ := codec_textId.cancel trivial trivial h
  rw [← List.append_nil (Write.u64 r.tick), ← List.append_nil (Write.u64 r'.tick)] at h
  obtain ⟨htick, -⟩ := codec_u64.cancel trivial trivial h
  obtain ⟨⟩ := r
  obtain ⟨⟩ := r'
  exact LineageRecord.mk.injEq .. ▸ ⟨hsequence, hlineage, hgeneration, hmembership, hmembers,
    LineageEventKind.code_domain.injective hevent, hleft, hright, hepoch, hboot, hdecision, htick,
    rfl⟩

theorem connectivity_body {generation generation' : TopologyGeneration}
    {components components' : List ComponentId} {edges edges' : List (Nat × Nat)}
    (h : (connectivity generation components edges).body
      = (connectivity generation' components' edges').body) :
    generation = generation' ∧
      UInt64.ofNat components.length = UInt64.ofNat components'.length ∧
      edges.map (edgeNames components) = edges'.map (edgeNames components') := by
  have hpos : ∀ e, 1 ≤ (encodeEdge e).length := fun e => by
    have hfirst := length_textId_pos e.1
    rw [encodeEdge, List.length_append]
    omega
  simp only [body, List.append_assoc] at h
  obtain ⟨hgeneration, h⟩ := codec_counter.cancel trivial trivial h
  obtain ⟨hcount, h⟩ := codec_u64.cancel trivial trivial h
  have hedges : ∀ (cs : List ComponentId) (es : List (Nat × Nat)),
      es.length = (es.map (edgeNames cs)).length := fun cs es => (List.length_map _).symm
  rw [hedges components edges, hedges components' edges'] at h
  exact ⟨hgeneration, hcount, counted_end codec_edge hpos h⟩

theorem body_eq_of_same {x y : Hashed} (h : x.Same y) : x.body = y.body := by
  rcases x with d | _ | ⟨_, _, _⟩ | ⟨_, _, _, _⟩ | r | ⟨_, components, edges⟩ <;>
    rcases y with d' | _ | ⟨_, _, _⟩ | ⟨_, _, _, _⟩ | r' | ⟨_, components', edges'⟩ <;>
    first | exact h.elim | skip
  · have hreorders : d.Reorders d' := h
    rw [body, body, sortedComponents_perm hreorders.components, hreorders.same]
  · obtain rfl : _ = _ := h
    rfl
  · obtain ⟨rfl, rfl, rfl⟩ := h
    rfl
  · obtain ⟨rfl, rfl, rfl, rfl⟩ := h
    rfl
  · have hfields : ({ r with digest := default } : LineageRecord) = { r' with digest := default } :=
      h
    show (record { r with digest := default }).body = (record { r' with digest := default }).body
    rw [hfields]
  · obtain ⟨rfl, hcount, hnames⟩ := h
    have hedges := congrArg List.length hnames
    rw [List.length_map, List.length_map] at hedges
    rw [body, body, hcount, hnames, hedges]

theorem domain_eq_of_same {x y : Hashed} (h : x.Same y) : x.domain = y.domain := by
  rcases x with _ | _ | _ | _ | _ | _ <;> rcases y with _ | _ | _ | _ | _ | _ <;>
    first | exact h.elim | rfl

/-- The length of the domain, which no two functions share. -/
def domainSize : Hashed → Nat
  | roster _ => 34
  | membership _ => 38
  | partition _ _ _ => 46
  | lineage _ _ _ _ => 44
  | record _ => 42
  | connectivity _ _ _ => 49

theorem length_domain (x : Hashed) : (ascii x.domain).length = x.domainSize := by
  cases x <;> rfl

/-- **Two streams are equal** exactly if one function is fed the same fields twice. -/
theorem stream_eq_iff (x y : Hashed) : x.stream = y.stream ↔ x.Same y := by
  refine ⟨fun h => ?_, fun h => ?_⟩
  · have hshort : ∀ z : Hashed, (ascii z.domain).length < 2 ^ 32 := fun z => by
      rw [length_domain]
      cases z <;> simp [domainSize]
    obtain ⟨hdomain, hbody⟩ := text_cancel (hshort x) (hshort y) h
    have hsize : x.domainSize = y.domainSize := by
      rw [← length_domain, ← length_domain, hdomain]
    rcases x with _ | _ | ⟨_, _, _⟩ | ⟨_, _, _, _⟩ | _ | ⟨_, _, _⟩ <;>
      rcases y with _ | _ | ⟨_, _, _⟩ | ⟨_, _, _, _⟩ | _ | ⟨_, _, _⟩ <;>
      first | (simp [domainSize] at hsize; done) | skip
    · exact roster_body hbody
    · exact membership_body hbody
    · exact partition_body hbody
    · exact lineage_body hbody
    · exact record_body hbody
    · exact connectivity_body hbody
  · rw [stream, stream, domain_eq_of_same h, body_eq_of_same h]

/-- What a digest determines, where it does not collide on the streams at hand. -/
theorem same_of_injOn {β : Type} {digest : Bytes → β} {S : Set Hashed}
    (hinj : Set.InjOn digest (stream '' S)) {x y : Hashed} (hx : x ∈ S) (hy : y ∈ S)
    (h : digest x.stream = digest y.stream) : x.Same y :=
  (stream_eq_iff x y).mp (hinj (Set.mem_image_of_mem stream hx) (Set.mem_image_of_mem stream hy) h)

end Hashed

theorem mergeLineageId_comm (left right : LineageId) :
    mergeLineageId left right = mergeLineageId right left := by
  rcases lt_trichotomy left right with h | h | h
  · simp only [mergeLineageId, if_pos h, if_neg h.asymm]
  · rw [h]
  · simp only [mergeLineageId, if_pos h, if_neg h.asymm]

/-- **The preimages of the identities are unambiguous**: the identities are digests of streams, and
a stream has come from one function and one tuple of fields.  Equal digests then have equal fields
behind them wherever SHA-256 does not collide on the streams, and equal identifiers wherever its
first half does not.  The identity of a merge does not depend on which side comes first. -/
theorem identity_preimages_unambiguous :
    Hashed.Computes ∧
    (∀ x y : Hashed, x.stream = y.stream ↔ x.Same y) ∧
    (∀ S : Set Hashed, Set.InjOn sha256Bytes (Hashed.stream '' S) →
      ∀ x ∈ S, ∀ y ∈ S, x.digest = y.digest → x.Same y) ∧
    (∀ (letter : UInt8) (S : Set Hashed),
      Set.InjOn (fun s => hexIdentifier letter (sha256Bytes s)) (Hashed.stream '' S) →
      ∀ x ∈ S, ∀ y ∈ S, hexIdentifier letter x.digest = hexIdentifier letter y.digest →
        x.Same y) ∧
    ∀ left right : LineageId, mergeLineageId left right = mergeLineageId right left :=
  ⟨Hashed.computes, Hashed.stream_eq_iff,
    fun _ hinj _ hx _ hy h => Hashed.same_of_injOn hinj hx hy h,
    fun _ _ hinj _ hx _ hy h => Hashed.same_of_injOn hinj hx hy h, mergeLineageId_comm⟩

/-- A roster in two orders, and the membership it is the roster of. -/
def rosterOrders : Set Hashed :=
  {.roster (smallTopology 1 ["a", "b"]), .roster (smallTopology 1 ["b", "a"]),
    .membership ((smallTopology 1 ["a", "b"]).components)}

theorem rosterOrders_injOn :
    Set.InjOn (fun s => hexIdentifier 112 (sha256Bytes s)) (Hashed.stream '' rosterOrders) := by
  have horder : (Hashed.roster (smallTopology 1 ["b", "a"])).stream
      = (Hashed.roster (smallTopology 1 ["a", "b"])).stream := by decide +kernel
  have hapart : hexIdentifier 112 (Hashed.roster (smallTopology 1 ["a", "b"])).digest
      ≠ hexIdentifier 112 (Hashed.membership (smallTopology 1 ["a", "b"]).components).digest := by
    decide +kernel
  rw [rosterOrders, Set.image_insert_eq, Set.image_insert_eq, Set.image_singleton, horder,
    Set.insert_eq_of_mem (Set.mem_insert _ _), Set.injOn_pair]
  exact fun h => absurd h hapart

/-- The digests of the roster in two orders are equal, and so are the identifiers made of them; both
have the same fields behind them, up to the order of the components. -/
theorem roster_orders_unambiguous :
    (Hashed.roster (smallTopology 1 ["a", "b"])).Same (.roster (smallTopology 1 ["b", "a"])) ∧
      (Hashed.roster (smallTopology 1 ["b", "a"])).Same (.roster (smallTopology 1 ["a", "b"])) := by
  have hdigest : (Hashed.roster (smallTopology 1 ["a", "b"])).digest
      = (Hashed.roster (smallTopology 1 ["b", "a"])).digest := by decide +kernel
  have hfull : Set.InjOn sha256Bytes (Hashed.stream '' rosterOrders) := fun _ hs _ ht h =>
    rosterOrders_injOn hs ht (congrArg (hexIdentifier 112) h)
  exact ⟨identity_preimages_unambiguous.2.2.1 rosterOrders hfull _ (by simp [rosterOrders]) _
      (by simp [rosterOrders]) hdigest,
    identity_preimages_unambiguous.2.2.2.1 112 rosterOrders rosterOrders_injOn _
      (by simp [rosterOrders]) _ (by simp [rosterOrders]) (congrArg _ hdigest.symm)⟩

end FabricPartition
