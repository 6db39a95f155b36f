import FabricPartition.Answers
import FabricPartition.WireCodecs

/-!
# The client of the service

`PartitionClient` of `service.cpp`.  A client is driven by one thread: `exchange` hands the frame of a
request to the socket and reads until a whole frame is there, and the typed methods are thin wrappers
over it.  An exchange is cut where it waits for bytes, so that the server can come between; the typed
methods are a request, and what is made of the response.

The receive loop of `exchange` makes the checks of `turn`, in the same order, on a buffer of its own,
and drops what lies behind the frame it takes.
-/

set_option autoImplicit false

namespace FabricPartition

/-! ## Exchanges -/

/-- `ClientResponse`. -/
structure ClientResponse where
  ok : Bool := false
  type : UInt16
  payload : Bytes := []
  error : String := ""
  deriving DecidableEq

/-- An exchange under way: the type of its request, and what it has read. -/
structure Exchange where
  type : MessageType
  buffer : Bytes := []
  deriving DecidableEq

/-- `PartitionClient::Impl`, with the exchange its thread is in. -/
structure PartitionClient where
  limits : Limits
  handle : SessionHandle := default
  epoch : CoordinatorEpoch := .zero
  boot : CoordinatorBootId := default
  sequence : UInt64 := 0
  connected : Bool := false
  exchange : Option Exchange := none

/-- How a socket fails to take bytes: after how many of them, and with what error. -/
structure SocketFault where
  taken : Nat
  error : String

/-- What comes of handing a frame to the socket. -/
inductive Handed
  /-- There is no image of the frame. -/
  | refused (response : ClientResponse)
  /-- The socket took some bytes, and failed. -/
  | failed (response : ClientResponse) (bytes : Bytes)
  /-- The socket took all of it. -/
  | sent (bytes : Bytes)

namespace PartitionClient

/-- The frame of a request, under the next sequence. -/
def requestFrame (client : PartitionClient) (type : MessageType) (payload : Bytes) : Frame where
  header :=
    { version := wireProtocolVersion
      type := type.code
      payloadLength := UInt32.ofNat payload.length
      sequence := client.sequence + 1
      epoch := client.epoch.value
      session := client.handle }
  payload := payload

/-- The sending half of `exchange`. -/
def send (client : PartitionClient) (type : MessageType) (payload : Bytes)
    (fault : Option SocketFault) : Handed :=
  let bytes := encodeFrame (client.requestFrame type payload) client.limits
  if bytes = [] then
    .refused { type := type.code, error := "the request frame exceeds the configured bound" }
  else
    match fault with
    | some fault =>
      .failed { type := type.code, error := "send failed: " ++ fault.error } (bytes.take fault.taken)
    | none => .sent bytes

/-- What can come of handing a request to the socket. -/
theorem send_cases (client : PartitionClient) (type : MessageType) (payload : Bytes)
    (fault : Option SocketFault) :
    let image := encodeFrame (client.requestFrame type payload) client.limits
    (∃ response, client.send type payload fault = .refused response) ∨
      (image ≠ [] ∧ ((∃ response bytes rest, response.ok = false ∧ bytes ++ rest = image ∧
          client.send type payload fault = .failed response bytes) ∨
        client.send type payload fault = .sent image)) := by
  intro image
  rw [send.eq_def]
  by_cases himage : image = []
  · exact .inl ⟨_, if_pos himage⟩
  · refine .inr ⟨himage, ?_⟩
    dsimp only
    rw [if_neg himage]
    rcases fault with _ | fault
    · exact .inr rfl
    · exact .inl ⟨_, _, _, rfl, List.take_append_drop fault.taken image, rfl⟩

/-- A turn of the receive loop of `exchange`: the response, or nothing when it is to read on. -/
def poll (client : PartitionClient) (exchange : Exchange) : Option ClientResponse :=
  match turn client.limits exchange.buffer with
  | .frame frame _ =>
    -- the response to a hello carries the handle that was just issued
    if exchange.type ≠ .hello ∧ frame.header.session ≠ client.handle then
      some
        { type := exchange.type.code, error := "the response names a different session handle" }
    else some { ok := true, type := frame.header.type, payload := frame.payload }
  | .wait => none
  | .overflow =>
    some { type := exchange.type.code, error := "the receive buffer exceeded the frame bound" }
  | .reject status =>
    some { type := exchange.type.code, error := "frame rejected: " ++ status.name }

/-- What `connect` makes of the response to its hello. -/
def greeted (client : PartitionClient) (response : ClientResponse) : Except String PartitionClient :=
  if !response.ok then .error response.error
  else if response.type ≠ MessageType.helloAck.code then
    .error "the server did not answer the handshake"
  else
    match decodeHelloResponse response.payload client.limits with
    | none => .error "the handshake response could not be decoded"
    | some hello =>
      if !hello.accepted then .error "the server refused the session"
      else
        .ok { client with
          handle := hello.session
          epoch := hello.epoch
          boot := hello.boot
          connected := true }

/-- A handshake leaves the bounds alone, and the exchange that was finished. -/
theorem greeted_keeps {client later : PartitionClient} {response : ClientResponse}
    (h : client.greeted response = .ok later) :
    later.limits = client.limits ∧ later.exchange = client.exchange := by
  rw [greeted] at h
  split at h
  · cases h
  split at h
  · cases h
  split at h
  · cases h
  split at h
  · cases h
  · cases h
    exact ⟨rfl, rfl⟩

end PartitionClient

end FabricPartition
