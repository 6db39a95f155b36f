import Mathlib.Data.List.Lex
import Mathlib.Order.Basic
import Mathlib.Algebra.Order.BigOperators.Ring.Finset

/-!
# Strongly typed identities

`strong_id.hpp` builds every identity from three templates: a bounded text over a small alphabet
(`TextId`), a checked 64-bit counter (`Counter`) and a 16-byte binary identity (`BinaryId`), each
carrying a tag that keeps the domains apart.  The tags are an index of the Lean types, so two
identities of different domains cannot be compared or confused here either.

A `TextId` is either nil or a text that `isValidId` accepts: that is a field, so a malformed
identifier cannot be built.  The one identity of the program that is assembled without being
validated — the scope of a decision — is an `UncheckedId`, which only remembers that it was cut
to the maximal length.

Byte strings are lists of `UInt8`; a C++ `std::string` is one too, and `ascii` writes a literal.
-/

set_option autoImplicit false

namespace FabricPartition

/-- A byte string. -/
abbrev Bytes := List UInt8

/-- A C++ `std::string`, which is a byte string. -/
abbrev Text := Bytes

/-- The bytes of a string literal of the source. -/
def ascii (s : String) : Text := s.toUTF8.data.toList

/-- `std::to_string` on an unsigned integer of at most 64 bits: at most twenty decimal digits,
most significant first. -/
def decimalAux : Nat → Nat → Text → Text
  | 0, _, acc => acc
  | fuel + 1, n, acc =>
    if n < 10 then UInt8.ofNat (48 + n) :: acc
    else decimalAux fuel (n / 10) (UInt8.ofNat (48 + n % 10) :: acc)

@[inherit_doc decimalAux]
def decimal (n : Nat) : Text := decimalAux 20 n []

/-- The lowercase hexadecimal digit of a value below sixteen. -/
def hexDigit (n : Nat) : UInt8 := UInt8.ofNat (if n < 10 then 48 + n else 87 + n)

/-- Two lowercase hexadecimal digits for each byte. -/
def hex (bytes : Bytes) : Text :=
  bytes.flatMap fun b => [hexDigit (b.toNat / 16), hexDigit (b.toNat % 16)]

/-! ## Text identifiers -/

/-- The domains of the text identifiers. -/
inductive IdTag
  | component | partition | lineage | evidence | policy | topology | decision | fence
  | session | scope | publisher | provenance | attempt
  deriving DecidableEq

/-- The longest text an identifier of a domain may hold. -/
def IdTag.maxLength : IdTag → Nat
  | .session | .provenance | .attempt => 64
  | _ => 96

/-- `[a-z0-9]`. -/
def isIdAlphanumeric (b : UInt8) : Bool := (97 ≤ b && b ≤ 122) || (48 ≤ b && b ≤ 57)

/-- The separators `.`, `_`, `-` and `:`. -/
def isIdSeparator (b : UInt8) : Bool := b == 46 || b == 95 || b == 45 || b == 58

/-- `TextId::is_valid`: not empty, not too long, over the canonical alphabet, and with no
separator at either end. -/
def isValidId (maxLength : Nat) (t : Text) : Bool :=
  !t.isEmpty && decide (t.length ≤ maxLength) && t.head?.any isIdAlphanumeric
    && t.getLast?.any isIdAlphanumeric && t.all fun b => isIdAlphanumeric b || isIdSeparator b

theorem isValidId_iff {maxLength : Nat} {t : Text} : isValidId maxLength t = true ↔
    t ≠ [] ∧ t.length ≤ maxLength ∧ t.head?.any isIdAlphanumeric = true ∧
      t.getLast?.any isIdAlphanumeric = true ∧
      ∀ b ∈ t, (isIdAlphanumeric b || isIdSeparator b) = true := by
  simp only [isValidId, Bool.and_eq_true, decide_eq_true_eq, List.all_eq_true, and_assoc,
    Bool.not_eq_true', List.isEmpty_eq_false_iff]

/-- A text of letters and digits only is valid if its length is. -/
theorem isValidId_of_alphanumeric {maxLength : Nat} {t : Text} (hne : t ≠ [])
    (hlen : t.length ≤ maxLength) (hall : ∀ b ∈ t, isIdAlphanumeric b = true) :
    isValidId maxLength t = true := by
  refine isValidId_iff.mpr ⟨hne, hlen, ?_, ?_, fun b hb => by simp [hall b hb]⟩
  · rw [List.head?_eq_some_head hne]
    exact hall _ (List.head_mem hne)
  · rw [List.getLast?_eq_some_getLast hne]
    exact hall _ (List.getLast_mem hne)

/-- Two texts of letters and digits joined by a separator. -/
theorem isValidId_join {maxLength : Nat} {a b : Text} {sep : UInt8} (ha : a ≠ []) (hb : b ≠ [])
    (hlen : a.length + b.length + 1 ≤ maxLength) (hsep : isIdSeparator sep = true)
    (halla : ∀ x ∈ a, isIdAlphanumeric x = true) (hallb : ∀ x ∈ b, isIdAlphanumeric x = true) :
    isValidId maxLength (a ++ sep :: b) = true := by
  refine isValidId_iff.mpr ⟨by simp, by simp only [List.length_append, List.length_cons]; omega,
    ?_, ?_, ?_⟩
  · rw [List.head?_append_of_ne_nil _ ha, List.head?_eq_some_head ha]
    exact halla _ (List.head_mem ha)
  · rw [List.getLast?_append, List.getLast?_cons, List.getLast?_eq_some_getLast hb]
    exact hallb _ (List.getLast_mem hb)
  · intro x hx
    rcases List.mem_append.mp hx with hx | hx
    · simp [halla x hx]
    · rcases List.mem_cons.mp hx with rfl | hx
      · simp [hsep]
      · simp [hallb x hx]

theorem decimalAux_alphanumeric (fuel n : Nat) (acc : Text)
    (hacc : ∀ b ∈ acc, isIdAlphanumeric b = true) :
    ∀ b ∈ decimalAux fuel n acc, isIdAlphanumeric b = true := by
  have hdigit : ∀ m < 10, isIdAlphanumeric (UInt8.ofNat (48 + m)) = true := by decide
  induction fuel generalizing n acc with
  | zero => exact hacc
  | succ fuel ih =>
    rw [decimalAux]
    split
    · rename_i h
      intro b hb
      rcases List.mem_cons.mp hb with rfl | hb
      · exact hdigit n h
      · exact hacc b hb
    · refine ih _ _ ?_
      intro b hb
      rcases List.mem_cons.mp hb with rfl | hb
      · exact hdigit _ (Nat.mod_lt _ (by decide))
      · exact hacc b hb

theorem decimalAux_length_le (fuel n : Nat) (acc : Text) :
    (decimalAux fuel n acc).length ≤ acc.length + fuel := by
  induction fuel generalizing n acc with
  | zero => simp [decimalAux]
  | succ fuel ih =>
    rw [decimalAux]
    split
    · simp only [List.length_cons]
      omega
    · have := ih (n / 10) (UInt8.ofNat (48 + n % 10) :: acc)
      simp only [List.length_cons] at this
      omega

theorem decimal_alphanumeric (n : Nat) : ∀ b ∈ decimal n, isIdAlphanumeric b = true :=
  decimalAux_alphanumeric 20 n [] (by simp)

theorem decimal_length_le (n : Nat) : (decimal n).length ≤ 20 := by
  simpa [decimal] using decimalAux_length_le 20 n []

theorem hex_alphanumeric (bytes : Bytes) : ∀ b ∈ hex bytes, isIdAlphanumeric b = true := by
  have hdigit : ∀ m < 16, isIdAlphanumeric (hexDigit m) = true := by decide
  intro b hb
  obtain ⟨x, -, hb⟩ := List.mem_flatMap.mp hb
  have hx := x.toNat_lt
  simp only [List.mem_cons, List.not_mem_nil, or_false] at hb
  rcases hb with rfl | rfl
  · exact hdigit _ (by omega)
  · exact hdigit _ (by omega)

theorem hex_length (bytes : Bytes) : (hex bytes).length = 2 * bytes.length := by
  induction bytes with
  | nil => rfl
  | cons b bytes ih =>
    have h : hex (b :: bytes) = [hexDigit (b.toNat / 16), hexDigit (b.toNat % 16)] ++ hex bytes :=
      rfl
    rw [h, List.length_append, ih, List.length_cons, List.length_cons, List.length_cons,
      List.length_nil]
    omega

/-- An identifier of one domain: nil, or a valid text. -/
structure TextId (tag : IdTag) where
  /-- The canonical text; empty for the nil identifier. -/
  text : Text
  /-- The text is empty or `isValidId` accepts it. -/
  valid : text = [] ∨ isValidId tag.maxLength text = true
  deriving DecidableEq

abbrev ComponentId := TextId .component
abbrev PartitionId := TextId .partition
abbrev LineageId := TextId .lineage
abbrev EvidenceId := TextId .evidence
abbrev PolicyId := TextId .policy
abbrev TopologyId := TextId .topology
abbrev DecisionId := TextId .decision
abbrev FenceId := TextId .fence
abbrev PublisherId := TextId .publisher
abbrev Provenance := TextId .provenance
abbrev AttemptId := TextId .attempt

namespace TextId

variable {tag : IdTag}

/-- The nil identifier, which is also the default-constructed one. -/
def nil : TextId tag := ⟨[], .inl rfl⟩

instance : Inhabited (TextId tag) := ⟨nil⟩

/-- Is this the nil identifier? -/
def isNil (id : TextId tag) : Bool := id.text.isEmpty

/-- `TextId::parse`. -/
def parse (t : Text) : Option (TextId tag) :=
  if h : isValidId tag.maxLength t = true then some ⟨t, .inr h⟩ else none

/-- `TextId::from_validated`, on a text its caller has validated. -/
def fromValidated (t : Text) (h : isValidId tag.maxLength t = true) : TextId tag := ⟨t, .inr h⟩

theorem text_injective : Function.Injective (@TextId.text tag) := by
  intro a b h
  cases a
  cases b
  simpa using h

theorem isNil_iff {id : TextId tag} : id.isNil = true ↔ id = nil := by
  constructor
  · intro h
    exact text_injective (List.isEmpty_iff.mp h)
  · rintro rfl
    rfl

/-- Identifiers are ordered by their bytes. -/
instance : LinearOrder (TextId tag) :=
  LinearOrder.lift' (fun id => id.text.map UInt8.toNat) fun _ _ h =>
    text_injective (List.map_injective_iff.mpr (fun _ _ => UInt8.toNat_inj.mp) h)

end TextId

/-- What `TextId::from_validated` builds when nobody has validated the text: the text cut to the
maximal length of the domain. -/
structure UncheckedId (tag : IdTag) where
  /-- The text, valid or not. -/
  text : Text
  /-- The text fits the domain. -/
  length_le : text.length ≤ tag.maxLength
  deriving DecidableEq

abbrev ScopeId := UncheckedId .scope

/-- `TextId::from_validated` on an arbitrary text. -/
def UncheckedId.fromValidated {tag : IdTag} (t : Text) : UncheckedId tag :=
  ⟨t.take tag.maxLength, by simp only [List.length_take]; omega⟩

instance {tag : IdTag} : Inhabited (UncheckedId tag) := ⟨⟨[], Nat.zero_le _⟩⟩

/-! ## Counters -/

/-- The domains of the counters. -/
inductive CounterTag
  | topologyGeneration | reachabilityGeneration | policyGeneration | partitionGeneration
  | coordinatorEpoch | authoritySequence | evidenceSequence | decisionSequence
  | attemptSequence | bootSequence | lineageSequence | fenceSequence
  deriving DecidableEq

/-- A 64-bit counter that refuses to wrap. -/
structure Counter (tag : CounterTag) where
  /-- The value. -/
  value : UInt64
  deriving DecidableEq, Inhabited

abbrev TopologyGeneration := Counter .topologyGeneration
abbrev ReachabilityGeneration := Counter .reachabilityGeneration
abbrev PolicyGeneration := Counter .policyGeneration
abbrev PartitionGeneration := Counter .partitionGeneration
abbrev CoordinatorEpoch := Counter .coordinatorEpoch
abbrev AuthoritySequence := Counter .authoritySequence
abbrev EvidenceSequence := Counter .evidenceSequence
abbrev DecisionSequence := Counter .decisionSequence
abbrev AttemptSequence := Counter .attemptSequence
abbrev BootSequence := Counter .bootSequence
abbrev LineageSequence := Counter .lineageSequence
abbrev FenceSequence := Counter .fenceSequence

namespace Counter

variable {tag : CounterTag}

/-- The default-constructed counter. -/
def zero : Counter tag := ⟨0⟩

/-- Is the counter zero? -/
def isZero (c : Counter tag) : Bool := c.value == 0

/-- The checked successor: nothing at the top of the range. -/
def next (c : Counter tag) : Option (Counter tag) :=
  if c.value = 0xFFFFFFFFFFFFFFFF then none else some ⟨c.value + 1⟩

/-- The decimal rendering. -/
def render (c : Counter tag) : Text := decimal c.value.toNat

theorem next_toNat {c d : Counter tag} (h : c.next = some d) :
    d.value.toNat = c.value.toNat + 1 := by
  rw [next] at h
  split at h
  · cases h
  · rename_i hne
    cases h
    have hlt := c.value.toNat_lt
    have hne' : c.value.toNat ≠ 18446744073709551615 := fun he => hne (UInt64.toNat_inj.mp he)
    rw [UInt64.toNat_add]
    have h1 : (1 : UInt64).toNat = 1 := rfl
    omega

end Counter

/-- `checked_add` on 64-bit values. -/
def checkedAdd (lhs rhs : UInt64) : Option UInt64 :=
  if rhs > 0xFFFFFFFFFFFFFFFF - lhs then none else some (lhs + rhs)

/-! ## Binary identities -/

/-- The domains of the binary identities. -/
inductive BinaryTag
  | coordinatorBoot | processIncarnation | publisherBoot
  deriving DecidableEq

/-- A 16-byte identity drawn at random. -/
structure BinaryId (tag : BinaryTag) where
  /-- The bytes. -/
  bytes : Bytes
  /-- There are sixteen of them. -/
  size : bytes.length = 16
  deriving DecidableEq

abbrev CoordinatorBootId := BinaryId .coordinatorBoot
abbrev ProcessIncarnationId := BinaryId .processIncarnation
abbrev PublisherBootId := BinaryId .publisherBoot

instance {tag : BinaryTag} : Inhabited (BinaryId tag) := ⟨⟨List.replicate 16 0, rfl⟩⟩

/-- `hex().substr(0, 8)`, by which decisions and fences name the boot that issued them. -/
def BinaryId.shortHex {tag : BinaryTag} (id : BinaryId tag) : Text := (hex id.bytes).take 8

theorem BinaryId.shortHex_length {tag : BinaryTag} (id : BinaryId tag) :
    id.shortHex.length = 8 := by
  rw [shortHex, List.length_take, hex_length, id.size]
  rfl

/-- A prefix, a counter and a short boot identity always make a valid identifier. -/
theorem isValidId_sequenced {maxLength : Nat} (h : 30 ≤ maxLength) {c : UInt8}
    (hc : isIdAlphanumeric c = true) (n : Nat) {tag : BinaryTag} (boot : BinaryId tag) :
    isValidId maxLength (c :: decimal n ++ 45 :: boot.shortHex) = true := by
  have hlen := decimal_length_le n
  have hboot := boot.shortHex_length
  refine isValidId_join (by simp) ?_ (by simp only [List.length_cons]; omega) (by decide) ?_ ?_
  · intro h
    rw [h] at hboot
    cases hboot
  · intro b hb
    rcases List.mem_cons.mp hb with rfl | hb
    · exact hc
    · exact decimal_alphanumeric n b hb
  · exact fun b hb => hex_alphanumeric _ b (List.mem_of_mem_take hb)

end FabricPartition
