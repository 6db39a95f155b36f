import FabricPartition.Corruption

/-!
# Framed transport

`encode_frame` and `decode_frame` of `protocol.cpp`, and the loop in which `serve` of `service.cpp`
receives frames: it decodes one frame from the front of its buffer, drops it, and reads another chunk
when the buffer holds no whole frame.

`framing_transparent` is the law of that loop: however the bytes of some encoded frames are cut into
chunks, the loop yields the frames, and what `decode_frame` accepts is what `encode_frame` writes.
-/

set_option autoImplicit false

namespace FabricPartition

open Frames

/-! ## Frames -/

/-- `MessageType`. -/
inductive MessageType
  | hello | helloAck | goodbye | protocolError | publishEvidence | publishEvidenceAck
  | adoptTopology | adoptTopologyAck | setPolicy | setPolicyAck | assess | assessAck | queryStatus
  | queryStatusAck | queryPartitions | queryPartitionsAck | queryFences | queryFencesAck
  | queryLineage | queryLineageAck | merge | mergeAck | isolate | isolateAck | revalidate
  | revalidateAck | retire | retireAck
  deriving DecidableEq

namespace MessageType

/-- The value of the enumerator. -/
def code : MessageType → UInt16
  | hello => 1
  | helloAck => 2
  | goodbye => 3
  | protocolError => 4
  | publishEvidence => 10
  | publishEvidenceAck => 11
  | adoptTopology => 12
  | adoptTopologyAck => 13
  | setPolicy => 14
  | setPolicyAck => 15
  | assess => 20
  | assessAck => 21
  | queryStatus => 30
  | queryStatusAck => 31
  | queryPartitions => 32
  | queryPartitionsAck => 33
  | queryFences => 34
  | queryFencesAck => 35
  | queryLineage => 36
  | queryLineageAck => 37
  | merge => 40
  | mergeAck => 41
  | isolate => 42
  | isolateAck => 43
  | revalidate => 44
  | revalidateAck => 45
  | retire => 46
  | retireAck => 47

/-- Every message type, in the order of its value. -/
def all : List MessageType :=
  [hello, helloAck, goodbye, protocolError, publishEvidence, publishEvidenceAck, adoptTopology,
    adoptTopologyAck, setPolicy, setPolicyAck, assess, assessAck, queryStatus, queryStatusAck,
    queryPartitions, queryPartitionsAck, queryFences, queryFencesAck, queryLineage, queryLineageAck,
    merge, mergeAck, isolate, isolateAck, revalidate, revalidateAck, retire, retireAck]

/-- The enumerator with a value, if there is one. -/
def ofCode (v : UInt16) : Option MessageType := all.find? fun t => t.code == v

/-- `message_is_response_to`, as the response of a request. -/
def response : MessageType → Option MessageType
  | hello => some helloAck
  | publishEvidence => some publishEvidenceAck
  | adoptTopology => some adoptTopologyAck
  | setPolicy => some setPolicyAck
  | assess => some assessAck
  | queryStatus => some queryStatusAck
  | queryPartitions => some queryPartitionsAck
  | queryFences => some queryFencesAck
  | queryLineage => some queryLineageAck
  | merge => some mergeAck
  | isolate => some isolateAck
  | revalidate => some revalidateAck
  | retire => some retireAck
  | _ => none

end MessageType

/-- `message_type_in_domain`. -/
def messageTypeInDomain (value : UInt16) : Bool := (MessageType.ofCode value).isSome

/-- `frame_magic`. -/
def frameMagic : Bytes := ascii "FPM1"

/-- `frame_header_bytes`. -/
def frameHeaderBytes : Nat := 48

/-- `frame_trailer_bytes`. -/
def frameTrailerBytes : Nat := 8

/-- `frame_overhead_bytes`. -/
def frameOverheadBytes : Nat := frameHeaderBytes + frameTrailerBytes

/-- `wire_protocol_version`. -/
def wireProtocolVersion : UInt16 := 1

/-- `kFlagMask`, the only flag there is. -/
def flagMask : UInt16 := 1

/-- The sixteen bytes that name a session. -/
structure SessionHandle where
  /-- The bytes. -/
  bytes : Bytes
  /-- There are sixteen of them. -/
  size : bytes.length = 16

theorem SessionHandle.eq_iff {a b : SessionHandle} : a.bytes = b.bytes ↔ a = b := by
  obtain ⟨_, _⟩ := a
  obtain ⟨_, _⟩ := b
  rw [SessionHandle.mk.injEq]

instance : DecidableEq SessionHandle := fun _ _ => decidable_of_iff _ SessionHandle.eq_iff

theorem SessionHandle.zeros_size : (List.replicate 16 (0 : UInt8)).length = 16 := rfl

instance : Inhabited SessionHandle := ⟨⟨List.replicate 16 0, SessionHandle.zeros_size⟩⟩

/-- `FrameHeader`. -/
structure FrameHeader where
  version : UInt16 := 0
  type : UInt16 := 0
  flags : UInt16 := 0
  reserved : UInt16 := 0
  payloadLength : UInt32 := 0
  sequence : UInt64 := 0
  epoch : UInt64 := 0
  session : SessionHandle := default
  deriving DecidableEq

/-- A frame: its header and its payload. -/
structure Frame where
  header : FrameHeader
  payload : Bytes
  deriving DecidableEq

/-- The header of a frame.  The length field is the payload's, whatever the header says. -/
def frameHead (frame : Frame) : Bytes :=
  frameMagic ++ be16 frame.header.version ++ be16 frame.header.type ++ be16 frame.header.flags
    ++ [0, 0] ++ be32 (UInt32.ofNat frame.payload.length) ++ be64 frame.header.sequence
    ++ be64 frame.header.epoch ++ frame.header.session.bytes

/-- The header and the payload of a frame. -/
def frameBody (frame : Frame) : Bytes := frameHead frame ++ frame.payload

/-- `encode_frame`: empty when it refuses. -/
def encodeFrame (frame : Frame) (limits : Limits) : Bytes :=
  if frame.payload.length > limits.maxFrameBytes
      ∨ frame.payload.length + frameOverheadBytes > limits.maxFrameBytes then []
  else if !messageTypeInDomain frame.header.type || frame.header.flags &&& ~~~flagMask != 0
      || frame.header.reserved != 0 then []
  else frameBody frame ++ be64 (crc64Bytes (frameBody frame))

/-- `FrameDecodeStatus`, but for `Ok` and for `TrailingBytes`, which nothing returns. -/
inductive FrameDecodeStatus
  | needMore | invalidMagic | unsupportedVersion | oversizedPayload | corruptIntegrity
  | reservedNotZero | typeOutOfDomain
  deriving DecidableEq

/-- `FrameDecodeResult`. -/
inductive FrameDecodeResult
  | ok (frame : Frame) (consumed : Nat)
  | status (status : FrameDecodeStatus)
  deriving DecidableEq

/-- The header at the front of a buffer. -/
def readHeader (data : Bytes) (session : SessionHandle) : FrameHeader where
  version := readType (data.drop 4)
  type := readType (data.drop 6)
  flags := readType (data.drop 8)
  reserved := readType (data.drop 10)
  payloadLength := readU32 (data.drop 12)
  sequence := readU64 (data.drop 16)
  epoch := readU64 (data.drop 24)
  session := session

/-- The checks of `decode_frame` once the header is read. -/
def decodeBody (data : Bytes) (header : FrameHeader) (limits : Limits) : FrameDecodeResult :=
  if header.version ≠ wireProtocolVersion then .status .unsupportedVersion
  else if header.reserved ≠ 0 ∨ header.flags &&& ~~~flagMask ≠ 0 then .status .reservedNotZero
  else if !messageTypeInDomain header.type then .status .typeOutOfDomain
  else if header.payloadLength.toNat + frameOverheadBytes > limits.maxFrameBytes then
    .status .oversizedPayload
  else
    let body := frameHeaderBytes + header.payloadLength.toNat
    if data.length < body + frameTrailerBytes then .status .needMore
    else if readU64 (data.drop body) ≠ crc64Bytes (data.take body) then .status .corruptIntegrity
    else .ok ⟨header, (data.drop frameHeaderBytes).take header.payloadLength.toNat⟩
      (body + frameTrailerBytes)

/-- `decode_frame`. -/
def decodeFrame (data : Bytes) (limits : Limits) : FrameDecodeResult :=
  if h : data.length < frameHeaderBytes then .status .needMore
  else if data.take frameMagic.length ≠ frameMagic then .status .invalidMagic
  else
    have hsession : ((data.drop 32).take 16).length = 16 := by
      rw [frameHeaderBytes] at h
      rw [List.length_take, List.length_drop]
      omega
    decodeBody data (readHeader data ⟨(data.drop 32).take 16, hsession⟩) limits

/-! ## The receive loop -/

/-- What one turn of the loop does with its buffer. -/
inductive Turn
  /-- Take a frame off its front. -/
  | frame (frame : Frame) (rest : Bytes)
  /-- Wait for another chunk. -/
  | wait
  /-- The receive buffer exceeded the frame bound. -/
  | overflow
  /-- The bytes are no frame. -/
  | reject (status : FrameDecodeStatus)
  deriving DecidableEq

/-- The turn on a buffer. -/
def turn (limits : Limits) (buffer : Bytes) : Turn :=
  match decodeFrame buffer limits with
  | .ok frame consumed => .frame frame (buffer.drop consumed)
  | .status .needMore => if buffer.length > limits.maxFrameBytes then .overflow else .wait
  | .status status => .reject status

/-- What `recv_some` returned: at least one byte. -/
structure Chunk where
  /-- The bytes. -/
  bytes : Bytes
  /-- No bytes would be the end of the connection. -/
  nonempty : bytes ≠ []

/-- What the loop has yielded, and how it stands. -/
structure Received where
  frames : List Frame := []
  buffer : Bytes := []
  stopped : Option Turn := none
  deriving DecidableEq

/-- Turns until the buffer holds no whole frame.  Every frame takes at least its overhead, so the
length of the buffer bounds the turns. -/
def drain (limits : Limits) : Nat → Bytes → Received
  | 0, buffer => { buffer := buffer }
  | turns + 1, buffer =>
    match turn limits buffer with
    | .frame frame rest =>
      let later := drain limits turns rest
      { later with frames := frame :: later.frames }
    | .wait => { buffer := buffer }
    | .overflow => { buffer := buffer, stopped := some .overflow }
    | .reject status => { buffer := buffer, stopped := some (.reject status) }

/-- The loop over some chunks, from a buffer. -/
def receive (limits : Limits) : Bytes → List Chunk → Received
  | buffer, [] => drain limits buffer.length buffer
  | buffer, chunk :: chunks =>
    let first := drain limits buffer.length buffer
    if first.stopped.isSome then first
    else
      let later := receive limits (first.buffer ++ chunk.bytes) chunks
      { later with frames := first.frames ++ later.frames }

/-! ## Encoding -/

@[simp]
theorem frameHead_length (frame : Frame) : (frameHead frame).length = frameHeaderBytes := by
  rw [frameHead, List.length_append, frame.header.session.size]
  rfl

theorem frameBody_length (frame : Frame) :
    (frameBody frame).length = frameHeaderBytes + frame.payload.length := by
  rw [frameBody, List.length_append, frameHead_length]

/-- What `encode_frame` checks. -/
structure Frame.Encodable (frame : Frame) (limits : Limits) : Prop where
  size : frame.payload.length + frameOverheadBytes ≤ limits.maxFrameBytes
  type : messageTypeInDomain frame.header.type = true
  flags : frame.header.flags &&& ~~~flagMask = 0
  reserved : frame.header.reserved = 0

theorem encodeFrame_eq {frame : Frame} {limits : Limits} (h : frame.Encodable limits) :
    encodeFrame frame limits = frameBody frame ++ be64 (crc64Bytes (frameBody frame)) := by
  obtain ⟨hsize, htype, hflags, hreserved⟩ := h
  rw [encodeFrame, if_neg (by omega), if_neg (by simp [htype, hflags, hreserved])]

/-- A frame is encoded exactly when it passes the checks. -/
theorem encodeFrame_ne_nil_iff {frame : Frame} {limits : Limits} :
    encodeFrame frame limits ≠ [] ↔ frame.Encodable limits := by
  refine ⟨fun h => ?_, fun h => ?_⟩
  · rw [encodeFrame] at h
    split at h
    · exact absurd rfl h
    split at h
    · exact absurd rfl h
    · rename_i hsize hfields
      simp only [Bool.or_eq_true, Bool.not_eq_true', bne_iff_ne, not_or, Bool.not_eq_false,
        not_not] at hfields
      obtain ⟨⟨htype, hflags⟩, hreserved⟩ := hfields
      exact ⟨by omega, htype, hflags, hreserved⟩
  · rw [encodeFrame_eq h, ← List.length_pos_iff, List.length_append, be64_length]
    omega

theorem encodeFrame_length {frame : Frame} {limits : Limits} (h : frame.Encodable limits) :
    (encodeFrame frame limits).length = frameOverheadBytes + frame.payload.length := by
  rw [encodeFrame_eq h, List.length_append, frameBody_length, be64_length, frameOverheadBytes,
    frameTrailerBytes]
  omega

/-- The frame as the receiver sees it: its header tells the length of its payload. -/
def Frame.sent (frame : Frame) : Frame where
  header := { frame.header with payloadLength := UInt32.ofNat frame.payload.length }
  payload := frame.payload

/-- The frames of the law: accepted by `encode_frame`, of this version, with an exact length field. -/
structure Frame.Sendable (frame : Frame) (limits : Limits) : Prop where
  accepted : encodeFrame frame limits ≠ []
  version : frame.header.version = wireProtocolVersion
  short : frame.payload.length < 2 ^ 32

/-! ## Decoding what was encoded -/

/-- The header is read back, whatever follows it. -/
theorem decodeFrame_head {frame : Frame} (hreserved : frame.header.reserved = 0) (tail : Bytes)
    (limits : Limits) :
    decodeFrame (frameHead frame ++ tail) limits
      = decodeBody (frameHead frame ++ tail) frame.sent.header limits := by
  have hlong : ¬ (frameHead frame ++ tail).length < frameHeaderBytes := by
    rw [List.length_append, frameHead_length]
    omega
  have hdata : frameHead frame ++ tail = frameMagic ++ (be16 frame.header.version
      ++ (be16 frame.header.type ++ (be16 frame.header.flags ++ (be16 0
        ++ (be32 (UInt32.ofNat frame.payload.length) ++ (be64 frame.header.sequence
          ++ (be64 frame.header.epoch ++ (frame.header.session.bytes ++ tail)))))))) := by
    rw [frameHead]
    simp only [List.append_assoc]
    rfl
  have hsession : ((frameHead frame ++ tail).drop 32).take 16 = frame.header.session.bytes := by
    rw [hdata]
    exact List.take_left' frame.header.session.size
  have hheader : ∀ session : SessionHandle, session.bytes = frame.header.session.bytes →
      readHeader (frameHead frame ++ tail) session = frame.sent.header := by
    intro session hbytes
    have heq : session = frame.header.session := by
      cases hs : frame.header.session
      cases session
      simp_all
    rw [readHeader, hdata, heq, Frame.sent]
    refine FrameHeader.mk.injEq .. |>.mpr ⟨readType_be16 _ _, readType_be16 _ _, readType_be16 _ _,
      ?_, readU32_be32 _ _, readU64_be64 _ _, readU64_be64 _ _, rfl⟩
    exact (readType_be16 0 _).trans hreserved.symm
  rw [decodeFrame, dif_neg hlong, if_neg (by rw [hdata]; exact not_not.mpr List.take_left)]
  dsimp only
  rw [hheader _ hsession]

section Sendable

variable {frame : Frame} {limits : Limits}

theorem Frame.Sendable.encodable (h : frame.Sendable limits) : frame.Encodable limits :=
  encodeFrame_ne_nil_iff.mp h.accepted

theorem Frame.Sendable.length (h : frame.Sendable limits) :
    frame.sent.header.payloadLength.toNat = frame.payload.length := by
  show (UInt32.ofNat frame.payload.length).toNat = _
  rw [UInt32.toNat_ofNat']
  exact Nat.mod_eq_of_lt h.short

/-- The checks on a header that was sent come down to the bytes behind it. -/
theorem decodeBody_sent (h : frame.Sendable limits) (data : Bytes) :
    decodeBody data frame.sent.header limits
      = if data.length < frameOverheadBytes + frame.payload.length then .status .needMore
        else if readU64 (data.drop (frameHeaderBytes + frame.payload.length))
            ≠ crc64Bytes (data.take (frameHeaderBytes + frame.payload.length)) then
          .status .corruptIntegrity
        else .ok ⟨frame.sent.header, (data.drop frameHeaderBytes).take frame.payload.length⟩
          (frameOverheadBytes + frame.payload.length) := by
  obtain ⟨hsize, htype, hflags, hreserved⟩ := h.encodable
  have htotal : frameHeaderBytes + frame.payload.length + frameTrailerBytes
      = frameOverheadBytes + frame.payload.length := by
    rw [frameOverheadBytes]
    omega
  have hversion : frame.sent.header.version = wireProtocolVersion := h.version
  have hfields : ¬ (frame.sent.header.reserved ≠ 0 ∨ frame.sent.header.flags &&& ~~~flagMask ≠ 0) :=
    not_or.mpr ⟨not_not.mpr hreserved, not_not.mpr hflags⟩
  have hdomain : ¬ (!messageTypeInDomain frame.sent.header.type) = true := by
    rw [show frame.sent.header.type = frame.header.type from rfl, htype]
    decide
  rw [decodeBody, if_neg (not_not.mpr hversion), if_neg hfields, if_neg hdomain, h.length,
    if_neg (by omega)]
  dsimp only
  rw [htotal]

/-- **An encoded frame is decoded**, whatever follows it. -/
theorem decodeFrame_encode (h : frame.Sendable limits) (rest : Bytes) :
    decodeFrame (encodeFrame frame limits ++ rest) limits
      = .ok frame.sent (encodeFrame frame limits).length := by
  have henc := h.encodable
  have hbody : frameHeaderBytes + frame.payload.length = (frameBody frame).length :=
    (frameBody_length frame).symm
  have hdata : encodeFrame frame limits ++ rest = frameHead frame
      ++ (frame.payload ++ (be64 (crc64Bytes (frameBody frame)) ++ rest)) := by
    rw [encodeFrame_eq henc, frameBody]
    simp only [List.append_assoc]
  have hpayload : ((encodeFrame frame limits ++ rest).drop frameHeaderBytes).take
      frame.payload.length = frame.payload := by
    rw [hdata, List.drop_left' (frameHead_length frame), List.take_left]
  have hlong : ¬ (encodeFrame frame limits ++ rest).length
      < frameOverheadBytes + frame.payload.length := by
    rw [List.length_append, encodeFrame_length henc]
    omega
  have hcrc : readU64 ((encodeFrame frame limits ++ rest).drop (frameBody frame).length)
      = crc64Bytes ((encodeFrame frame limits ++ rest).take (frameBody frame).length) := by
    rw [encodeFrame_eq henc, List.append_assoc, List.drop_left, List.take_left, readU64_be64]
  rw [hdata, decodeFrame_head henc.reserved, ← hdata, decodeBody_sent h, if_neg hlong, hpayload,
    hbody, if_neg (not_not.mpr hcrc), encodeFrame_length henc]
  rfl

/-- **Every strict prefix needs more.** -/
theorem decodeFrame_take (h : frame.Sendable limits) {k : Nat}
    (hk : k < (encodeFrame frame limits).length) :
    decodeFrame ((encodeFrame frame limits).take k) limits = .status .needMore := by
  have henc := h.encodable
  have hlength : ((encodeFrame frame limits).take k).length = k := List.length_take_of_le hk.le
  rw [encodeFrame_length henc] at hk
  by_cases hhead : k < frameHeaderBytes
  · rw [decodeFrame, dif_pos (by rw [hlength]; exact hhead)]
  · have hdata : (encodeFrame frame limits).take k = frameHead frame
        ++ (frame.payload ++ be64 (crc64Bytes (frameBody frame))).take (k - frameHeaderBytes) := by
      rw [encodeFrame_eq henc, frameBody, List.append_assoc, List.take_append,
        frameHead_length, List.take_of_length_le (by rw [frameHead_length]; omega)]
    rw [hdata, decodeFrame_head henc.reserved, ← hdata, decodeBody_sent h,
      if_pos (by rw [hlength]; exact hk)]

end Sendable

/-! ## Encoding what was decoded -/

/-- **What is decoded is what would have been encoded.** -/
theorem encodeFrame_of_decode {data : Bytes} {limits : Limits} {frame : Frame} {consumed : Nat}
    (h : decodeFrame data limits = .ok frame consumed) :
    encodeFrame frame limits = data.take consumed ∧ consumed ≤ data.length ∧ 0 < consumed := by
  rw [decodeFrame] at h
  split at h
  · cases h
  rename_i hheader
  split at h
  · cases h
  rename_i hmagic
  rw [not_not] at hmagic
  rw [frameHeaderBytes] at hheader
  dsimp only at h
  generalize hsession : (⟨(data.drop 32).take 16, _⟩ : SessionHandle) = session at h
  have hbytes : session.bytes = (data.drop 32).take 16 := by rw [← hsession]
  rw [decodeBody] at h
  generalize hsize : (readHeader data session).payloadLength.toNat = size at h
  split at h
  · cases h
  split at h
  · cases h
  split at h
  · cases h
  split at h
  · cases h
  dsimp only at h
  split at h
  · cases h
  split at h
  · cases h
  rename_i hversion hfields htype hbound hlong hsum
  rw [not_not] at hversion hsum
  obtain ⟨hreserved, hflags⟩ := not_or.mp hfields
  rw [not_not] at hreserved hflags
  obtain ⟨rfl, rfl⟩ := FrameDecodeResult.ok.inj h
  rw [frameHeaderBytes, frameTrailerBytes] at hlong
  rw [frameHeaderBytes] at hsum
  have hpayload : ((data.drop frameHeaderBytes).take size).length = size := by
    rw [List.length_take, List.length_drop, frameHeaderBytes]
    omega
  have hencodable : Frame.Encodable
      ⟨readHeader data session, (data.drop frameHeaderBytes).take size⟩ limits := by
    refine ⟨?_, by simpa using htype, hflags, hreserved⟩
    rw [hpayload]
    omega
  have hbody : frameBody ⟨readHeader data session, (data.drop frameHeaderBytes).take size⟩
      = data.take (48 + size) := by
    have hlength : UInt32.ofNat size = readU32 (data.drop 12) := by
      rw [← hsize, UInt32.ofNat_toNat]
      rfl
    have hzero : ([0, 0] : Bytes) = (data.drop 10).take 2 := by
      rw [← be16_readType (by rw [List.length_drop]; omega),
        show readType (data.drop 10) = 0 from hreserved]
      rfl
    have hfront : frameMagic = data.take 4 := hmagic.symm
    rw [frameBody, frameHead, hpayload, hlength, hzero, hfront]
    simp only [readHeader, hbytes]
    rw [be16_readType (by rw [List.length_drop]; omega),
      be16_readType (by rw [List.length_drop]; omega),
      be16_readType (by rw [List.length_drop]; omega),
      be32_readU32 (by rw [List.length_drop]; omega),
      be64_readU64 (by rw [List.length_drop]; omega),
      be64_readU64 (by rw [List.length_drop]; omega), frameHeaderBytes]
    simp only [← List.take_add]
  refine ⟨?_, ?_, ?_⟩
  · rw [encodeFrame_eq hencodable, hbody, ← hsum, be64_readU64 (by rw [List.length_drop]; omega),
      ← List.take_add, frameHeaderBytes, frameTrailerBytes]
  · rw [frameHeaderBytes, frameTrailerBytes]
    omega
  · rw [frameHeaderBytes]
    omega

/-! ## Transparency -/

theorem turn_frame {limits : Limits} {frame : Frame} (h : frame.Sendable limits) (rest : Bytes) :
    turn limits (encodeFrame frame limits ++ rest) = .frame frame.sent rest := by
  rw [turn, decodeFrame_encode h]
  dsimp only
  rw [List.drop_left]

/-- **The receive buffer never exceeds the frame bound**: a buffer that needs more is short. -/
theorem turn_ne_overflow {limits : Limits} (hbound : frameOverheadBytes ≤ limits.maxFrameBytes)
    (buffer : Bytes) : turn limits buffer ≠ .overflow := by
  have hshort : decodeFrame buffer limits = .status .needMore →
      buffer.length ≤ limits.maxFrameBytes := by
    intro h
    rw [frameOverheadBytes] at hbound
    rw [decodeFrame] at h
    split at h
    · omega
    split at h
    · cases h
    dsimp only at h
    rw [decodeBody] at h
    generalize (readHeader buffer _).payloadLength.toNat = size at h
    split at h
    · cases h
    split at h
    · cases h
    split at h
    · cases h
    split at h
    · cases h
    dsimp only at h
    split at h
    · rename_i hsize hlong
      rw [frameOverheadBytes] at hsize
      omega
    split at h <;> cases h
  rw [turn]
  split
  · exact nofun
  · rename_i hmore
    rw [if_neg (Nat.not_lt.mpr (hshort hmore))]
    exact nofun
  · exact nofun

theorem turn_take {limits : Limits} (hbound : frameOverheadBytes ≤ limits.maxFrameBytes)
    {frame : Frame} (h : frame.Sendable limits) {k : Nat}
    (hk : k < (encodeFrame frame limits).length) :
    turn limits ((encodeFrame frame limits).take k) = .wait := by
  have hover := turn_ne_overflow hbound ((encodeFrame frame limits).take k)
  rw [turn, decodeFrame_take h hk] at hover ⊢
  dsimp only at hover ⊢
  split
  · rename_i hlong
    rw [if_pos hlong] at hover
    exact absurd rfl hover
  · rfl

/-- The bytes of some frames, one after the other. -/
def sendAll (limits : Limits) (frames : List Frame) : Bytes :=
  stream (fun frame => encodeFrame frame limits) frames

/-- **Draining** the front of a stream of frames takes the frames that lie wholly in it. -/
theorem drain_sendAll {limits : Limits} (hbound : frameOverheadBytes ≤ limits.maxFrameBytes)
    {frames : List Frame} (hsend : ∀ frame ∈ frames, frame.Sendable limits) {turns : Nat}
    {buffer more : Bytes} (hturns : buffer.length ≤ turns)
    (hbytes : buffer ++ more = sendAll limits frames) :
    ∃ front back rest, frames = front ++ back ∧
      drain limits turns buffer = { frames := front.map Frame.sent, buffer := rest } ∧
      rest ++ more = sendAll limits back ∧
      ∀ frame later, back = frame :: later → rest.length < (encodeFrame frame limits).length := by
  induction frames generalizing turns buffer with
  | nil =>
    obtain ⟨rfl, rfl⟩ := List.append_eq_nil_iff.mp hbytes
    refine ⟨[], [], [], rfl, ?_, rfl, nofun⟩
    cases turns with
    | zero => rfl
    | succ turns => rfl
  | cons frame frames ih =>
    have hframe := hsend frame List.mem_cons_self
    have hlength := encodeFrame_length hframe.encodable
    by_cases hshort : buffer.length < (encodeFrame frame limits).length
    · refine ⟨[], frame :: frames, buffer, rfl, ?_, hbytes, fun _ _ heq => ?_⟩
      · have htake : buffer = (encodeFrame frame limits).take buffer.length := by
          rw [sendAll, stream_cons] at hbytes
          have h := congrArg (List.take buffer.length) hbytes
          rwa [List.take_left, List.take_append_of_le_length hshort.le] at h
        cases turns with
        | zero => rfl
        | succ turns =>
          have hwait := turn_take hbound hframe hshort
          rw [← htake] at hwait
          rw [drain, hwait]
          rfl
      · obtain ⟨rfl, -⟩ := List.cons.inj heq
        exact hshort
    · rw [sendAll, stream_cons] at hbytes
      obtain ⟨rest, rfl⟩ : ∃ rest, buffer = encodeFrame frame limits ++ rest := by
        have h := congrArg (List.take (encodeFrame frame limits).length) hbytes
        rw [List.take_append_of_le_length (by omega), List.take_left] at h
        exact ⟨buffer.drop (encodeFrame frame limits).length, by
          nth_rewrite 1 [← h]
          exact (List.take_append_drop _ _).symm⟩
      rw [List.append_assoc] at hbytes
      rw [List.length_append, hlength, frameOverheadBytes, frameHeaderBytes] at hturns
      obtain ⟨turns, rfl⟩ := Nat.exists_eq_succ_of_ne_zero (show turns ≠ 0 by omega)
      obtain ⟨front, back, last, rfl, hdrain, hlast, hback⟩ :=
        ih (fun f hf => hsend f (List.mem_cons_of_mem _ hf)) (show rest.length ≤ turns by omega)
          (List.append_cancel_left hbytes)
      refine ⟨frame :: front, back, last, rfl, ?_, hlast, hback⟩
      rw [drain, turn_frame hframe]
      dsimp only
      rw [hdrain]
      rfl

/-- The bytes of some chunks. -/
def joined (chunks : List Chunk) : Bytes := chunks.flatMap Chunk.bytes

/-- **The receive loop is transparent to chunking**, from any buffer that the bytes before it have
left. -/
theorem receive_sendAll {limits : Limits} (hbound : frameOverheadBytes ≤ limits.maxFrameBytes)
    {frames : List Frame} (hsend : ∀ frame ∈ frames, frame.Sendable limits) {chunks : List Chunk}
    {buffer : Bytes} (hbytes : buffer ++ joined chunks = sendAll limits frames) :
    receive limits buffer chunks = { frames := frames.map Frame.sent } := by
  induction chunks generalizing frames buffer with
  | nil =>
    obtain ⟨front, back, rest, rfl, hdrain, hrest, hshort⟩ :=
      drain_sendAll hbound hsend (Nat.le_refl buffer.length) hbytes
    rw [receive, hdrain]
    rcases back with _ | ⟨frame, back⟩
    · obtain ⟨rfl, -⟩ := List.append_eq_nil_iff.mp hrest
      rw [List.append_nil]
    · -- what is left is a whole frame, and shorter than its first one
      have hlong := congrArg List.length hrest
      have hlt := hshort frame back rfl
      rw [sendAll, stream_cons, List.length_append, List.length_append] at hlong
      rw [show joined [] = [] from rfl, List.length_nil] at hlong
      omega
  | cons chunk chunks ih =>
    obtain ⟨front, back, rest, rfl, hdrain, hrest, -⟩ :=
      drain_sendAll hbound hsend (Nat.le_refl buffer.length) hbytes
    have hlater := ih (fun f hf => hsend f (List.mem_append_right _ hf))
      (show (rest ++ chunk.bytes) ++ joined chunks = sendAll limits back by
        rw [List.append_assoc]
        exact hrest)
    rw [receive, hdrain]
    dsimp only
    rw [if_neg (by simp), hlater, List.map_append]

/-- The overflow refusal is never reached, whatever is received. -/
theorem receive_ne_overflow {limits : Limits} (hbound : frameOverheadBytes ≤ limits.maxFrameBytes)
    (chunks : List Chunk) (buffer : Bytes) :
    (receive limits buffer chunks).stopped ≠ some .overflow := by
  have hdrain : ∀ turns buffer, (drain limits turns buffer).stopped ≠ some .overflow := by
    intro turns
    induction turns with
    | zero => exact fun _ => nofun
    | succ turns ih =>
      intro buffer
      have hturn := turn_ne_overflow hbound buffer
      rw [drain]
      split
      · exact ih _
      · exact nofun
      · rename_i hover
        exact absurd hover hturn
      · exact nofun
  induction chunks generalizing buffer with
  | nil => exact hdrain _ _
  | cons chunk chunks ih =>
    rw [receive]
    dsimp only
    split
    · exact hdrain _ _
    · exact ih _

/-- **Framing is transparent to chunking.**  However the bytes of some frames are cut into chunks, the
receive loop yields the frames; every strict prefix of a frame needs more; the receive buffer never
overflows; and what is decoded from any buffer encodes to the bytes it was decoded from. -/
theorem framing_transparent {limits : Limits} (hbound : frameOverheadBytes ≤ limits.maxFrameBytes) :
    (∀ (frames : List Frame) (chunks : List Chunk), (∀ frame ∈ frames, frame.Sendable limits) →
        joined chunks = sendAll limits frames →
          receive limits [] chunks = { frames := frames.map Frame.sent }) ∧
      (∀ frame : Frame, frame.Sendable limits → ∀ k < (encodeFrame frame limits).length,
        decodeFrame ((encodeFrame frame limits).take k) limits = .status .needMore) ∧
      (∀ (chunks : List Chunk) (buffer : Bytes),
        (receive limits buffer chunks).stopped ≠ some .overflow) ∧
      ∀ (buffer : Bytes) (frame : Frame) (consumed : Nat),
        decodeFrame buffer limits = .ok frame consumed →
          encodeFrame frame limits = buffer.take consumed :=
  ⟨fun _ _ hsend hbytes => receive_sendAll hbound hsend hbytes,
    fun _ h _ hk => decodeFrame_take h hk,
    fun chunks buffer => receive_ne_overflow hbound chunks buffer,
    fun _ _ _ h => (encodeFrame_of_decode h).1⟩

/-- A frame without a payload, cut into two chunks inside its header. -/
def assessFrame : Frame := ⟨{ version := 1, type := MessageType.assess.code, sequence := 1 }, []⟩

/-- The two chunks. -/
def assessChunks : List Chunk :=
  [⟨(encodeFrame assessFrame {}).take 20, by decide +kernel⟩,
    ⟨(encodeFrame assessFrame {}).drop 20, by decide +kernel⟩]

theorem assess_in_two_chunks : receive {} [] assessChunks = { frames := [assessFrame.sent] } :=
  (framing_transparent (by decide)).1 [assessFrame] assessChunks
    (fun frame hframe => by
      rw [List.mem_singleton.mp hframe]
      exact ⟨by decide +kernel, rfl, by decide⟩)
    (by decide +kernel)

end FabricPartition
