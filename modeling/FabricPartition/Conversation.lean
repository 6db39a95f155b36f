import FabricPartition.Client

/-!
# A client and its session

A client and the session the server runs for its connection, with the bytes that are under way between
them.  The rest of the server goes on as it likes: other sessions receive whatever they receive, the
process calls the runtime itself, threads interleave in any order, and the connection may break at any
point.

**What a client asks is executed once at most, in the order it was asked, and every answer it gets is
the one its own request was executed for** (`requests_executed_in_order`).  The responses do not name
their requests (`response_sequence` is never advanced), so it takes the whole run to tell: a client has
one exchange under way, a session has one request at hand, and neither side leaves bytes over.
-/

set_option autoImplicit false

namespace FabricPartition

/-! ## The connection -/

/-- A request the session executed. -/
structure Execution where
  frame : Frame
  faults : List (Option AppendFault)
  /-- The runtime it was executed on. -/
  runtime : PartitionRuntime
  /-- The runtime the answer to a request to assess was made from, if that was. -/
  viewed : Option PartitionRuntime := none

/-- A payload, under a type, is what the execution of a request was to be answered with. -/
def Execution.Gives (limits : Limits) (e : Execution) (type : UInt16) (payload : Bytes) : Prop :=
  (∃ expected, (MessageType.ofCode e.frame.header.type).bind MessageType.response = some expected ∧
    type = expected.code) ∧
  ∃ request, e.frame.request limits = some request ∧
    match (request.perform limits e.faults e.runtime).1 with
    | .answered answer => payload = answer
    | .assessed => ∃ r, e.viewed = some r ∧
        payload = encodeAssessmentView (makeAssessmentView r.assessment r) limits
    | .threw => False

/-- A client, the server, and the bytes under way between the client and the session in a place.  The
frames the client handed to its socket, the responses of these exchanges and the executions of the
session are recorded as they come; nothing reads the record. -/
structure Connection where
  place : Nat
  server : Server
  client : PartitionClient
  up : Bytes := []
  down : Bytes := []
  opened : Bool := false
  broken : Bool := false
  asked : List Frame := []
  responses : List ClientResponse := []
  executed : List Execution := []

/-- What happens on a connection, or in the server behind it. -/
inductive ConnectionEvent
  /-- `connect`. -/
  | connects (hello : HelloRequest) (fault : Option SocketFault)
  /-- `exchange`, of a connected client. -/
  | asks (type : MessageType) (payload : Bytes) (fault : Option SocketFault)
  /-- `close`. -/
  | closes (fault : Option SocketFault)
  /-- Bytes of the client arrive at the thread of the session. -/
  | arrives (chunk : Chunk)
  /-- Bytes of the session arrive at the thread of the client. -/
  | reads (chunk : Chunk)
  /-- The connection breaks, and whoever reads finds out. -/
  | breaks (error : String)
  /-- `recv_some` of the client fails on a connection that goes on. -/
  | interrupts (error : String)
  /-- Any other step of the server. -/
  | steps (event : ServerEvent)

/-- The frames the session in a place has sent. -/
def Server.sentBy (server : Server) (i : Nat) : List Frame :=
  (server.sessions[i]?.map Session.sent).getD []

/-- The session in a place is about to view an assessment. -/
def Server.viewsAt (server : Server) (i : Nat) : Bool :=
  !server.terminated && server.sessions[i]?.any fun session =>
    !session.finished && session.pending.isNone && session.viewing.isSome

/-- The view of the last execution is taken. -/
def viewLast (r : PartitionRuntime) : List Execution → List Execution
  | [] => []
  | [e] => [{ e with viewed := some r }]
  | e :: rest => e :: viewLast r rest

/-- The frames of the requests a session executed. -/
def executedFrames (happenings : List Happening) : List Frame :=
  happenings.filterMap fun
    | .executed frame _ _ => some frame
    | _ => none

namespace Connection

/-- The client hands a frame to its socket. -/
def hand (type : MessageType) (payload : Bytes) (fault : Option SocketFault) (c : Connection) :
    Connection :=
  let frame := c.client.requestFrame type payload
  let client := { c.client with sequence := c.client.sequence + 1 }
  match c.client.send type payload fault with
  | .refused _ => { c with client := client }
  | .failed response bytes =>
    { c with
      client := client
      up := c.up ++ bytes
      broken := true
      asked := c.asked ++ [frame]
      responses := c.responses ++ [response] }
  | .sent bytes =>
    { c with
      client := { client with exchange := some { type := type } }
      up := c.up ++ bytes
      asked := c.asked ++ [frame] }

/-- The exchange under way returns.  If it is that of `connect`, the rest of `connect` follows. -/
def finish (exchange : Exchange) (response : ClientResponse) (c : Connection) : Connection :=
  let client := { c.client with exchange := none }
  let c := { c with client := client, responses := c.responses ++ [response] }
  if exchange.type = .hello ∧ client.connected = false then
    match client.greeted response with
    | .error _ => { c with broken := true }
    | .ok client => { c with client := client }
  else c

/-- What is recorded of a step of the server. -/
def record (c : Connection) (event : ServerEvent) (log : List Occurrence) : List Execution :=
  match event with
  | .session i (.handled faults _) =>
    if i = c.place then
      c.executed ++ (executedFrames (historyOf i log)).map fun frame =>
        { frame := frame, faults := faults, runtime := c.server.runtime }
    else c.executed
  | .session i (.viewed _) =>
    if i = c.place ∧ c.server.viewsAt i then viewLast c.server.runtime c.executed else c.executed
  | _ => c.executed

/-- The bytes of a session come from its client. -/
def foreign (c : Connection) : ServerEvent → Bool
  | .session i (.received _) => i != c.place
  | _ => true

/-- One step. -/
def step (c : Connection) : ConnectionEvent → Connection
  | .connects hello fault =>
    if c.opened || c.broken || c.client.connected || c.client.exchange.isSome then c
    else
      let c := { c with opened := true }.hand .hello (encodeHelloRequest hello) fault
      if c.client.exchange.isNone then { c with broken := true } else c
  | .asks type payload fault =>
    if c.broken || !c.client.connected || c.client.exchange.isSome then c
    else c.hand type payload fault
  | .closes fault =>
    if c.broken || !c.client.connected || c.client.exchange.isSome then c
    else
      let c := c.hand .goodbye [] fault
      { c with client := { c.client with connected := false, exchange := none }, broken := true }
  | .arrives chunk =>
    if chunk.bytes.isPrefixOf c.up then
      let next := c.server.step (.session c.place (.received chunk))
      if next.2 = [] then c
      else { c with server := next.1, up := c.up.drop chunk.bytes.length }
    else c
  | .reads chunk =>
    match c.client.exchange with
    | none => c
    | some exchange =>
      if chunk.bytes.isPrefixOf c.down then
        let exchange := { exchange with buffer := exchange.buffer ++ chunk.bytes }
        let c := { c with
          client := { c.client with exchange := some exchange }
          down := c.down.drop chunk.bytes.length }
        match c.client.poll exchange with
        | none => c
        | some response => c.finish exchange response
      else c
  | .breaks error =>
    let c := { c with broken := true }
    match c.client.exchange with
    | none => c
    | some exchange => c.finish exchange { type := exchange.type.code, error := error }
  | .interrupts error =>
    match c.client.exchange with
    | none => c
    | some exchange => c.finish exchange { type := exchange.type.code, error := error }
  | .steps event =>
    if c.foreign event then
      let next := c.server.step event
      { c with
        server := next.1
        down := c.down ++ sendAll c.server.limits
          ((next.1.sentBy c.place).drop (c.server.sentBy c.place).length)
        executed := c.record event next.2 }
    else c

/-- What an event is for the server. -/
def moves (c : Connection) : ConnectionEvent → Option ServerEvent
  | .arrives chunk =>
    let event : ServerEvent := .session c.place (.received chunk)
    if chunk.bytes.isPrefixOf c.up ∧ (c.server.step event).2 ≠ [] then some event else none
  | .steps event => if c.foreign event then some event else none
  | _ => none

/-- The steps of a run. -/
def run (c : Connection) (events : List ConnectionEvent) : Connection := events.foldl step c

/-- A client that is not connected, and the session of its next connection. -/
def fresh (server : Server) (place : Nat) (client : PartitionClient) : Connection where
  place := place
  server := server
  client := client

end Connection

/-! ## The bytes under way -/

theorem sendAll_append (limits : Limits) (frames later : List Frame) :
    sendAll limits (frames ++ later) = sendAll limits frames ++ sendAll limits later :=
  Frames.stream_append _ frames later

theorem sendAll_singleton (limits : Limits) (frame : Frame) :
    sendAll limits [frame] = encodeFrame frame limits := by
  rw [sendAll, Frames.stream_cons, Frames.stream_nil, List.append_nil]

/-- A frame that is decoded is decoded under any wider bound. -/
theorem decodeFrame_mono {data : Bytes} {limits wider : Limits}
    (hle : limits.maxFrameBytes ≤ wider.maxFrameBytes) {frame : Frame} {consumed : Nat}
    (h : decodeFrame data limits = .ok frame consumed) :
    decodeFrame data wider = .ok frame consumed := by
  rw [decodeFrame] at h ⊢
  split at h
  · cases h
  rename_i hlong
  rw [dif_neg hlong]
  split at h
  · cases h
  rename_i hmagic
  rw [if_neg hmagic]
  dsimp only at h ⊢
  rw [decodeBody] at h ⊢
  split at h
  · cases h
  split at h
  · cases h
  split at h
  · cases h
  split at h
  · cases h
  rename_i hversion hreserved htype hsize
  rw [if_neg hversion, if_neg hreserved, if_neg htype, if_neg (by omega)]
  exact h

theorem turn_nil (limits : Limits) : turn limits [] = .wait := by
  rw [turn, decodeFrame, dif_pos (by simp [frameHeaderBytes])]
  simp

/-- A frame that is sendable is sendable under any wider bound, and has the same image. -/
theorem Frame.Sendable.mono {frame : Frame} {limits wider : Limits}
    (hle : limits.maxFrameBytes ≤ wider.maxFrameBytes) (h : frame.Sendable limits) :
    frame.Sendable wider ∧ encodeFrame frame wider = encodeFrame frame limits := by
  obtain ⟨hsize, htype, hflags, hreserved⟩ := h.encodable
  have hwider : frame.Encodable wider := ⟨hsize.trans hle, htype, hflags, hreserved⟩
  refine ⟨⟨encodeFrame_ne_nil_iff.mpr hwider, h.version, h.short⟩, ?_⟩
  rw [encodeFrame_eq hwider, encodeFrame_eq h.encodable]

/-- **A frame that is taken off a stream is its first**, whatever the bounds of the two ends are. -/
theorem turn_stream {limits bound : Limits} {frames : List Frame}
    (hsend : ∀ frame ∈ frames, frame.Sendable limits) {buffer more : Bytes}
    (hbytes : buffer ++ more = sendAll limits frames) {frame : Frame} {rest : Bytes}
    (hturn : turn bound buffer = .frame frame rest) :
    ∃ first later, frames = first :: later ∧ frame = first.sent ∧
      rest ++ more = sendAll limits later := by
  rcases frames with _ | ⟨first, later⟩
  · obtain ⟨rfl, -⟩ := List.append_eq_nil_iff.mp hbytes
    rw [turn_nil] at hturn
    cases hturn
  refine ⟨first, later, rfl, ?_⟩
  let wider : Limits := { limits with maxFrameBytes := max limits.maxFrameBytes bound.maxFrameBytes }
  have hfirst := hsend first List.mem_cons_self
  obtain ⟨hwide, himage⟩ := @Frame.Sendable.mono first limits wider (le_max_left _ _) hfirst
  rw [sendAll, Frames.stream_cons] at hbytes
  obtain ⟨consumed, hdecode, rfl⟩ : ∃ consumed, decodeFrame buffer bound = .ok frame consumed ∧
      rest = buffer.drop consumed := by
    rw [turn] at hturn
    split at hturn
    · rename_i consumed hdecode
      cases hturn
      exact ⟨_, hdecode, rfl⟩
    · split at hturn <;> cases hturn
    · cases hturn
  have hdecode := @decodeFrame_mono buffer bound wider (le_max_right _ _) frame consumed hdecode
  rcases Nat.lt_or_ge buffer.length (encodeFrame first limits).length with hshort | hlong
  · have htake : buffer = (encodeFrame first limits).take buffer.length := by
      have h := congrArg (List.take buffer.length) hbytes
      rwa [List.take_left, List.take_append_of_le_length hshort.le] at h
    rw [htake, ← himage, decodeFrame_take hwide (by rw [himage]; exact hshort)] at hdecode
    cases hdecode
  · obtain ⟨rest, rfl⟩ : ∃ rest, buffer = encodeFrame first limits ++ rest := by
      have h := congrArg (List.take (encodeFrame first limits).length) hbytes
      rw [List.take_append_of_le_length hlong, List.take_left] at h
      exact ⟨buffer.drop (encodeFrame first limits).length, by
        nth_rewrite 1 [← h]
        exact (List.take_append_drop _ _).symm⟩
    rw [← himage, decodeFrame_encode hwide] at hdecode
    cases hdecode
    rw [List.append_assoc] at hbytes
    rw [himage, List.drop_left]
    exact ⟨rfl, List.append_cancel_left hbytes⟩

/-! ## The steps of a session -/

/-- A frame a server has sent. -/
structure IsReply (limits : Limits) (type : MessageType) (payload : Bytes) (reply : Frame) : Prop where
  type : reply.header.type = type.code
  payload : reply.payload = payload
  accepted : encodeFrame reply limits ≠ []
  version : reply.header.version = wireProtocolVersion

namespace Session

/-- Sending a frame, or not. -/
theorem sendFrame_reply (limits : Limits) (delivered : Bool) (type : MessageType) (epoch : UInt64)
    (payload : Bytes) (session : Session) :
    session.sendFrame limits delivered type epoch payload = (false, session) ∨
      ∃ reply, IsReply limits type payload reply ∧
        session.sendFrame limits delivered type epoch payload
          = (true, { session with sent := session.sent ++ [reply] }) := by
  rw [sendFrame]
  split
  · exact .inl rfl
  rename_i haccepted
  split
  · exact .inl rfl
  · exact .inr ⟨_, ⟨rfl, rfl, haccepted, rfl⟩, rfl⟩

/-- A session that has ended, with a last frame or without. -/
def EndsWith (limits : Limits) (session after : Session) (P : MessageType → Prop) : Prop :=
  after.finished = true ∧ after.pending = none ∧ after.viewing = none ∧
    (after.sent = session.sent ∨
      ∃ reply type payload, P type ∧ IsReply limits type payload reply ∧
        after.sent = session.sent ++ [reply])

theorem failSession_ends (limits : Limits) (delivered : Bool) (detail : String) {session : Session}
    (hpending : session.pending = none) (hviewing : session.viewing = none) :
    EndsWith limits session (session.failSession limits delivered detail) (· = .protocolError) := by
  rw [failSession]
  generalize encodeOperationResult _ limits = payload
  rcases session.sendFrame_reply limits delivered .protocolError session.epoch payload with
    h | ⟨reply, hreply, h⟩
  · rw [h]
    exact ⟨rfl, hpending, hviewing, .inl rfl⟩
  · rw [h]
    exact ⟨rfl, hpending, hviewing, .inr ⟨reply, _, _, rfl, hreply, rfl⟩⟩

/-- What a turn of the loop does to a session that has no request at hand. -/
inductive Served (limits : Limits) (session after : Session) : Prop
  /-- It waits for bytes. -/
  | waits (h : after = session)
  /-- It ends the session. -/
  | ends (hbuffer : session.buffer ≠ []) (h : EndsWith limits session after fun type =>
      session.established = true → type = .protocolError)
  /-- It takes up a request. -/
  | takes (frame : Frame) (rest : Bytes) (hturn : turn limits session.buffer = .frame frame rest)
      (hestablished : session.established = true) (lastSequence : UInt64)
      (h : after = { session with buffer := rest, lastSequence := lastSequence, pending := some frame })
  /-- It answers the hello. -/
  | greets (frame : Frame) (rest : Bytes) (hturn : turn limits session.buffer = .frame frame rest)
      (hestablished : session.established = false) (reply : Frame) (payload : Bytes)
      (hreply : IsReply limits .helloAck payload reply) (handle : SessionHandle)
      (publisher : PublisherId) (boot : PublisherBootId) (epoch : UInt64)
      (h : after = { session with
        buffer := rest
        handle := handle
        publisher := publisher
        boot := boot
        epoch := epoch
        established := true
        sent := session.sent ++ [reply]
        finished := false })

/-- **A turn of the loop.** -/
theorem serve_served (limits : Limits) (r : PartitionRuntime) (handle : SessionHandle)
    (delivered : Bool) {session : Session} (hpending : session.pending = none)
    (hviewing : session.viewing = none) :
    Served limits session (session.serve limits r handle delivered).1 := by
  have hbuffer : turn limits session.buffer ≠ .wait → session.buffer ≠ [] := by
    intro h hnil
    rw [hnil, turn_nil] at h
    exact h rfl
  -- every refusal sends an error, or nothing
  have hfail : ∀ (later : Session) (detail : String), later.sent = session.sent →
      later.pending = none → later.viewing = none →
      EndsWith limits session (later.failSession limits delivered detail) fun type =>
        session.established = true → type = .protocolError := by
    intro later detail hsent hpending hviewing
    obtain ⟨hfinished, hp, hv, hs | ⟨reply, type, payload, htype, hreply, hs⟩⟩ :=
      failSession_ends limits delivered detail hpending hviewing
    · exact ⟨hfinished, hp, hv, .inl (hs.trans hsent)⟩
    · exact ⟨hfinished, hp, hv, .inr ⟨reply, type, payload, fun _ => htype, hreply, hsent ▸ hs⟩⟩
  rw [serve]
  rcases hturn : turn limits session.buffer with ⟨frame, rest⟩ | _ | _ | status
  · have hne : session.buffer ≠ [] := hbuffer (by rw [hturn]; simp)
    dsimp only
    by_cases hestablished : session.established = true
    · rw [if_pos hestablished, checkFrame]
      split
      · exact .ends hne (hfail _ _ rfl hpending hviewing)
      split
      · exact .ends hne (hfail _ _ rfl hpending hviewing)
      split
      · exact .ends hne (hfail _ _ rfl hpending hviewing)
      dsimp only
      split
      · exact .ends hne ⟨rfl, hpending, hviewing, .inl rfl⟩
      · exact .takes frame rest hturn hestablished _ rfl
    · rw [if_neg hestablished, greet]
      split
      · exact .ends hne (hfail _ _ rfl hpending hviewing)
      split
      · exact .ends hne (hfail _ _ rfl hpending hviewing)
      dsimp only
      split
      · generalize encodeHelloResponse (rejection r) limits = payload
        rcases sendFrame_reply limits delivered .helloAck r.state.epoch.value payload
          { session with buffer := rest } with h | ⟨reply, hreply, h⟩
        · rw [h]
          exact .ends hne ⟨rfl, hpending, hviewing, .inl rfl⟩
        · rw [h]
          exact .ends hne ⟨rfl, hpending, hviewing,
            .inr ⟨reply, _, _, fun he => absurd he hestablished, hreply, rfl⟩⟩
      · rename_i hello _ _
        generalize encodeHelloResponse (acceptance r handle) limits = payload
        generalize r.state.epoch.value = epoch
        rcases sendFrame_reply limits delivered .helloAck epoch payload
          { session with
            buffer := rest
            handle := handle
            publisher := hello.publisher
            boot := hello.boot
            epoch := epoch
            established := true } with h | ⟨reply, hreply, h⟩
        · rw [h]
          exact .ends hne ⟨rfl, hpending, hviewing, .inl rfl⟩
        · rw [h]
          exact .greets frame rest hturn (Bool.eq_false_iff.mpr hestablished) reply payload hreply
            handle hello.publisher hello.boot epoch rfl
  · exact .waits rfl
  · exact .ends (hbuffer (by rw [hturn]; simp)) (hfail _ _ rfl hpending hviewing)
  · exact .ends (hbuffer (by rw [hturn]; simp)) (hfail _ _ rfl hpending hviewing)

/-- The answer to a request goes out, or the session ends. -/
inductive Responds (limits : Limits) (frame : Frame) (payload : Bytes) (session after : Session) : Prop
  | ends (h : EndsWith limits session after (· = .protocolError))
  | answers (reply : Frame) (type : MessageType) (hreply : IsReply limits type payload reply)
      (htype : (MessageType.ofCode frame.header.type).bind MessageType.response = some type)
      (h : after = { session with sent := session.sent ++ [reply], finished := false })

theorem respond_responds (limits : Limits) (delivered : Bool) (frame : Frame) (payload : Bytes)
    {session : Session} (hpending : session.pending = none) (hviewing : session.viewing = none) :
    Responds limits frame payload session (session.respond limits delivered frame payload).1 := by
  rw [respond]
  split
  · exact .ends (failSession_ends limits delivered _ hpending hviewing)
  · rename_i type htype
    rcases session.sendFrame_reply limits delivered type session.epoch payload with
      h | ⟨reply, hreply, h⟩
    · rw [h]
      exact .ends ⟨rfl, hpending, hviewing, .inl rfl⟩
    · rw [h]
      exact .answers reply type hreply htype rfl

/-- What handling a request does to the session that has it at hand. -/
inductive Handles (limits : Limits) (r : PartitionRuntime) (faults : List (Option AppendFault))
    (frame : Frame) (session : Session) (outcome : Outcome) : Prop
  | refuses (h : EndsWith limits session outcome.session (· = .protocolError))
      (hexecuted : executedFrames outcome.happenings = [])
  | throws (hterminated : outcome.terminated = true)
      (h : outcome.session = { session with pending := none })
      (hexecuted : executedFrames outcome.happenings = [frame])
  | assesses (request : Request) (hrequest : frame.request limits = some request)
      (hperform : (request.perform limits faults r).1 = .assessed)
      (h : outcome.session = { session with pending := none, viewing := some frame })
      (hexecuted : executedFrames outcome.happenings = [frame])
  | answers (request : Request) (hrequest : frame.request limits = some request) (payload : Bytes)
      (hperform : (request.perform limits faults r).1 = .answered payload)
      (h : Responds limits frame payload { session with pending := none } outcome.session)
      (hexecuted : executedFrames outcome.happenings = [frame])

theorem handleRequest_handles (limits : Limits) (r : PartitionRuntime)
    (faults : List (Option AppendFault)) (delivered : Bool) (frame : Frame) {session : Session}
    (hviewing : session.viewing = none) :
    Handles limits r faults frame session
      (session.handleRequest limits r faults delivered frame) := by
  rw [handleRequest]
  dsimp only
  rcases hrequest : frame.request limits with _ | request
  · exact .refuses (failSession_ends limits delivered _ rfl hviewing) rfl
  · dsimp only
    rcases hperform : request.perform limits faults r with ⟨payload | _ | _, r'⟩
    · have hfirst : (request.perform limits faults r).1 = .answered payload := by rw [hperform]
      have hafter := @respond_responds limits delivered frame payload
        { session with pending := none } rfl hviewing
      obtain ⟨_, _, -, hlater⟩ := respond_cases limits delivered frame payload
        { session with pending := none }
      refine .answers request hrequest payload hfirst hafter ?_
      dsimp only
      rcases hlater with h | ⟨-, h⟩ <;> rw [h] <;> rfl
    · have hfirst : (request.perform limits faults r).1 = .assessed := by rw [hperform]
      exact .assesses request hrequest hfirst rfl rfl
    · exact .throws rfl rfl rfl

end Session

/-! ## What a session keeps -/

open Session

/-- What holds between a session and its client: `taken` of the frames the client asked have been taken
off the stream. -/
structure Talks (limits bound : Limits) (asked : List Frame) (up : Bytes) (broken ended : Bool)
    (executed : List Execution) (taken : Nat) (session : Session) : Prop where
  taken_le : taken ≤ asked.length
  stream : session.finished = false → ∃ tail,
    session.buffer ++ up ++ tail = sendAll limits (asked.drop taken) ∧ (broken = false → tail = [])
  one : session.pending = none ∨ session.viewing = none
  hello : session.finished = false → session.established = false →
    executed = [] ∧ session.pending = none ∧ session.viewing = none ∧ session.sent = []
  count : ended = false → session.finished = false →
    session.sent.length + session.pending.toList.length + session.viewing.toList.length = taken
  took : ended = false → session.finished = false → session.established = true →
    taken = executed.length + session.pending.toList.length + 1
  sent_le : session.sent.length ≤ asked.length
  order : executed.map Execution.frame ++ session.pending.toList <+: (asked.drop 1).map Frame.sent
  viewing : ∀ frame, session.viewing = some frame → ∃ done e, executed = done ++ [e] ∧
    e.frame = frame ∧ ∃ request, e.frame.request bound = some request ∧
      (request.perform bound e.faults e.runtime).1 = .assessed
  replies : ∀ reply ∈ session.sent, reply.Sendable bound
  answers : ∀ k reply, session.sent[k + 1]? = some reply →
    reply.header.type ≠ MessageType.protocolError.code →
    ∃ e, executed[k]? = some e ∧ e.Gives bound reply.header.type reply.payload

variable {limits bound : Limits} {asked : List Frame} {up : Bytes} {broken ended : Bool}
  {executed : List Execution} {taken : Nat} {session after : Session}

/-- A frame the server has sent can be read, whatever it holds. -/
theorem IsReply.sendable {type : MessageType} {payload : Bytes} {reply : Frame}
    (h : IsReply bound type payload reply) (hbound : bound.maxFrameBytes < 2 ^ 32) :
    reply.Sendable bound := by
  have hsize := (encodeFrame_ne_nil_iff.mp h.accepted).size
  exact ⟨h.accepted, h.version, by omega⟩

/-- A session that ends, while a frame of its client is yet unanswered. -/
theorem Talks.ends (h : Talks limits bound asked up broken ended executed taken session)
    (hbound : bound.maxFrameBytes < 2 ^ 32) {ended' : Bool} {executed' : List Execution}
    (horder : executed'.map Execution.frame <+: (asked.drop 1).map Frame.sent)
    (hkept : ∀ k e type payload, executed[k]? = some e → e.Gives bound type payload →
      session.sent[k + 1]?.isSome → ∃ e', executed'[k]? = some e' ∧ e'.Gives bound type payload)
    {P : MessageType → Prop} (hends : EndsWith bound session after P)
    (hunanswered : (∃ type, P type) → session.sent.length < asked.length)
    (herror : ∀ type, P type → session.sent ≠ [] → type = .protocolError) :
    Talks limits bound asked up broken ended' executed' taken after := by
  obtain ⟨hfinished, hpending, hviewing, hsent⟩ := hends
  have hsent' : ∀ k reply, after.sent[k + 1]? = some reply →
      session.sent[k + 1]? = some reply ∨ reply.header.type = MessageType.protocolError.code := by
    intro k reply hreply
    rcases hsent with hsent | ⟨last, type, payload, hP, hlast, hsent⟩
    · rw [hsent] at hreply
      exact .inl hreply
    · rw [hsent] at hreply
      rcases Nat.lt_or_ge (k + 1) session.sent.length with hlt | hge
      · rw [List.getElem?_append_left hlt] at hreply
        exact .inl hreply
      · rw [List.getElem?_append_right hge, List.getElem?_singleton] at hreply
        split at hreply
        · cases hreply
          have hne : session.sent ≠ [] := List.ne_nil_of_length_pos (by omega)
          exact .inr (by rw [hlast.type, herror type hP hne])
        · cases hreply
  refine ⟨h.taken_le, fun hu => ?_, .inl hpending, fun hu => ?_, fun _ hu => ?_, fun _ hu => ?_, ?_, ?_,
    fun frame hframe => ?_, fun reply hreply => ?_, fun k reply hreply herr => ?_⟩
  · rw [hfinished] at hu
    cases hu
  · rw [hfinished] at hu
    cases hu
  · rw [hfinished] at hu
    cases hu
  · rw [hfinished] at hu
    cases hu
  · rcases hsent with hsent | ⟨last, type, payload, hP, -, hsent⟩
    · rw [hsent]
      exact h.sent_le
    · rw [hsent, List.length_append, List.length_singleton]
      exact hunanswered ⟨type, hP⟩
  · rw [hpending]
    simpa using horder
  · rw [hviewing] at hframe
    cases hframe
  · rcases hsent with hsent | ⟨last, type, payload, -, hlast, hsent⟩
    · exact h.replies reply (hsent ▸ hreply)
    · rw [hsent] at hreply
      rcases List.mem_append.mp hreply with hreply | hreply
      · exact h.replies reply hreply
      · rw [List.mem_singleton.mp hreply]
        exact hlast.sendable hbound
  · rcases hsent' k reply hreply with hold | htype
    · obtain ⟨e, he, hgives⟩ := h.answers k reply hold herr
      exact hkept k e _ _ he hgives (by rw [hold]; rfl)
    · exact absurd htype herr

theorem prefix_snoc {α : Type} {l whole : List α} {x : α} (h : l <+: whole)
    (hx : whole[l.length]? = some x) : l ++ [x] <+: whole := by
  obtain ⟨rest, rfl⟩ := h
  rw [List.getElem?_append_right (Nat.le_refl _), Nat.sub_self] at hx
  rcases rest with _ | ⟨y, rest⟩
  · cases hx
  · cases hx
    exact ⟨rest, by simp⟩

/-- Nothing is taken up before the hello is accepted. -/
theorem Talks.established (h : Talks limits bound asked up broken ended executed taken session)
    (hunfinished : session.finished = false) (hbusy : ¬ (session.pending = none ∧
      session.viewing = none ∧ session.sent = [])) : session.established = true := by
  by_contra hnot
  obtain ⟨-, hpending, hviewing, hsent⟩ := h.hello hunfinished (Bool.eq_false_iff.mpr hnot)
  exact hbusy ⟨hpending, hviewing, hsent⟩

/-- A frame that lies in the buffer is the next one that was asked. -/
theorem Talks.next (h : Talks limits bound asked up broken ended executed taken session)
    (hsend : ∀ frame ∈ asked, frame.Sendable limits) (hunfinished : session.finished = false)
    {frame : Frame} {rest : Bytes} (hturn : turn bound session.buffer = .frame frame rest) :
    (asked.map Frame.sent)[taken]? = some frame ∧ ∃ tail,
      rest ++ up ++ tail = sendAll limits (asked.drop (taken + 1)) ∧ (broken = false → tail = []) := by
  obtain ⟨tail, hstream, htail⟩ := h.stream hunfinished
  rw [List.append_assoc] at hstream
  obtain ⟨first, later, hdrop, rfl, hrest⟩ := turn_stream
    (fun f hf => hsend f (List.mem_of_mem_drop hf)) hstream hturn
  have hget : asked[taken]? = some first := by
    have h := congrArg (fun l : List Frame => l[0]?) hdrop
    simpa using h
  have hlater : asked.drop (taken + 1) = later := by
    rw [← List.drop_drop, hdrop, List.drop_one, List.tail_cons]
  refine ⟨by rw [List.getElem?_map, hget]; rfl, tail, ?_, htail⟩
  rw [hlater, List.append_assoc]
  exact hrest

/-- **A turn of the loop of a session.** -/
theorem Talks.serve (h : Talks limits bound asked up broken ended executed taken session)
    (hbound : bound.maxFrameBytes < 2 ^ 32) (hsend : ∀ frame ∈ asked, frame.Sendable limits)
    (hended : ended = false) (hunfinished : session.finished = false)
    (hpending : session.pending = none) (hviewing : session.viewing = none)
    (hserved : Served bound session after) :
    ∃ taken', Talks limits bound asked up broken ended executed taken' after := by
  have hcount := h.count hended hunfinished
  have horder := h.order
  rw [hpending, hviewing] at hcount
  rw [hpending] at horder
  simp only [Option.toList_none, List.length_nil, Nat.add_zero] at hcount
  simp only [Option.toList_none, List.append_nil] at horder
  rcases hserved with hafter | ⟨hbuffer, hends⟩ | ⟨frame, rest, hturn, hestablished, last, hafter⟩ |
    ⟨frame, rest, hturn, hestablished, reply, payload, hreply, handle, publisher, boot, epoch, hafter⟩
  · exact ⟨taken, hafter ▸ h⟩
  · refine ⟨taken, h.ends hbound horder (fun k e _ _ he hgives _ => ⟨e, he, hgives⟩) hends
      (fun _ => ?_) fun type htype hsent => ?_⟩
    · obtain ⟨tail, hstream, -⟩ := h.stream hunfinished
      rw [hcount]
      by_contra hge
      rw [List.drop_eq_nil_of_le (Nat.not_lt.mp hge)] at hstream
      exact hbuffer (List.append_eq_nil_iff.mp (List.append_eq_nil_iff.mp hstream).1).1
    · exact htype (h.established hunfinished fun hidle => hsent hidle.2.2)
  · obtain ⟨hget, hstream⟩ := h.next hsend hunfinished hturn
    have htook := h.took hended hunfinished hestablished
    rw [hpending] at htook
    simp only [Option.toList_none, List.length_nil, Nat.add_zero] at htook
    have hlt := (List.getElem?_eq_some_iff.mp hget).1
    rw [List.length_map] at hlt
    subst hafter
    refine ⟨taken + 1, hlt, fun _ => hstream, .inr hviewing, fun _ he => ?_, fun _ _ => ?_,
      fun _ _ _ => ?_, h.sent_le, ?_, fun f hf => ?_, h.replies, h.answers⟩
    · rw [hestablished] at he
      cases he
    · simp [hviewing, hcount]
    · simp [htook]
    · refine prefix_snoc horder ?_
      rw [List.length_map, List.getElem?_map, List.getElem?_drop, Nat.add_comm 1, ← htook,
        ← List.getElem?_map]
      exact hget
    · rw [hviewing] at hf
      cases hf
  · obtain ⟨hget, hstream⟩ := h.next hsend hunfinished hturn
    obtain ⟨hexecuted, -, -, hsent⟩ := h.hello hunfinished hestablished
    have hlt := (List.getElem?_eq_some_iff.mp hget).1
    rw [List.length_map] at hlt
    rw [hsent] at hcount
    obtain rfl : taken = 0 := hcount.symm
    subst hafter
    refine ⟨1, hlt, fun _ => hstream, .inl hpending, fun _ he => ?_, fun _ _ => ?_,
      fun _ _ _ => ?_, ?_, ?_, fun f hf => ?_, fun other hother => ?_, fun k other hother _ => ?_⟩
    · cases he
    · simp [hsent, hpending, hviewing]
    · simp [hexecuted, hpending]
    · rw [hsent]
      exact hlt
    · simpa [hpending] using horder
    · rw [hviewing] at hf
      cases hf
    · rw [hsent] at hother
      rw [List.mem_singleton.mp hother]
      exact hreply.sendable hbound
    · rw [hsent] at hother
      simp at hother

/-- An execution that was recorded stays what it was. -/
theorem getElem?_append_kept {done : List Execution} {k : Nat} {e : Execution}
    (h : executed[k]? = some e) : (executed ++ done)[k]? = some e := by
  rw [List.getElem?_append_left (List.getElem?_eq_some_iff.mp h).1]
  exact h

/-- The answer of an execution is the next one. -/
theorem Talks.answered (h : Talks limits bound asked up broken ended executed taken session)
    (hbound : bound.maxFrameBytes < 2 ^ 32) {ended' : Bool} {executed' : List Execution}
    {e : Execution} (hcount : session.sent.length + 1 = taken)
    (hlast : executed'.length = session.sent.length) (hfinal : executed'.getLast? = some e) {type : MessageType} {payload : Bytes}
    (hgives : e.Gives bound type.code payload)
    (hkept : ∀ k e type payload, executed[k]? = some e → e.Gives bound type payload →
      session.sent[k + 1]?.isSome → ∃ e', executed'[k]? = some e' ∧ e'.Gives bound type payload)
    (horder : executed'.map Execution.frame <+: (asked.drop 1).map Frame.sent)
    (hestablished : session.established = true) {reply : Frame}
    (hreply : IsReply bound type payload reply) (hunfinished : session.finished = false)
    (hafter : after = { session with
      pending := none, viewing := none, sent := session.sent ++ [reply], finished := false }) :
    Talks limits bound asked up broken ended' executed' taken after := by
  subst hafter
  refine ⟨h.taken_le, fun _ => h.stream hunfinished, .inl rfl, fun _ he => ?_, fun _ _ => ?_,
    fun _ _ _ => ?_, ?_, ?_, fun f hf => ?_, fun other hother => ?_,
    fun k other hother herr => ?_⟩
  · rw [hestablished] at he
    cases he
  · simpa using hcount
  · simp only [Option.toList_none, List.length_nil]
    omega
  · rw [List.length_append, List.length_singleton, hcount]
    exact h.taken_le
  · simpa using horder
  · cases hf
  · rcases List.mem_append.mp hother with hother | hother
    · exact h.replies other hother
    · rw [List.mem_singleton.mp hother]
      exact hreply.sendable hbound
  · have hother' : (session.sent ++ [reply])[k + 1]? = some other := hother
    rcases Nat.lt_or_ge (k + 1) session.sent.length with hlt | hge
    · rw [List.getElem?_append_left hlt] at hother'
      obtain ⟨e, he, hg⟩ := h.answers k other hother' herr
      exact hkept k e _ _ he hg (by rw [hother']; rfl)
    · rw [List.getElem?_append_right hge, List.getElem?_singleton] at hother'
      split at hother'
      · cases hother'
        refine ⟨e, ?_, by rw [hreply.type, hreply.payload]; exact hgives⟩
        rw [List.getLast?_eq_getElem?, hlast] at hfinal
        rw [← hfinal]
        congr 1
        omega
      · cases hother'

/-- **A request that is handled.** -/
theorem Talks.handle (h : Talks limits bound asked up broken ended executed taken session)
    (hbound : bound.maxFrameBytes < 2 ^ 32) (hended : ended = false)
    (hunfinished : session.finished = false) {frame : Frame} (hpending : session.pending = some frame)
    {r : PartitionRuntime} {faults : List (Option AppendFault)} {outcome : Outcome}
    (hhandles : Handles bound r faults frame session outcome) :
    Talks limits bound asked up broken outcome.terminated
      (executed ++ (executedFrames outcome.happenings).map fun frame =>
        { frame := frame, faults := faults, runtime := r }) taken outcome.session := by
  have hviewing : session.viewing = none := by
    rcases h.one with hnone | hnone
    · rw [hpending] at hnone
      cases hnone
    · exact hnone
  have hestablished := h.established hunfinished fun hidle => by
    rw [hpending] at hidle
    cases hidle.1
  have hcount := h.count hended hunfinished
  have htook := h.took hended hunfinished hestablished
  have horder := h.order
  rw [hpending, hviewing] at hcount
  rw [hpending] at htook horder
  simp only [Option.toList_some, Option.toList_none, List.length_singleton, List.length_nil,
    Nat.add_zero] at hcount htook horder
  have hunanswered : session.sent.length < asked.length := by
    have := h.taken_le
    omega
  have hsame : ∀ (done : List Execution) (k : Nat) (e : Execution) (type : UInt16) (payload : Bytes),
      executed[k]? = some e → e.Gives bound type payload → session.sent[k + 1]?.isSome →
      ∃ e', (executed ++ done)[k]? = some e' ∧ e'.Gives bound type payload :=
    fun done k e _ _ he hgives _ => ⟨e, getElem?_append_kept he, hgives⟩
  let last : Execution := { frame := frame, faults := faults, runtime := r }
  have horder' : (executed ++ [last]).map Execution.frame <+: (asked.drop 1).map Frame.sent := by
    rw [List.map_append]
    exact horder
  rcases hhandles with ⟨hends, hexecuted⟩ | ⟨hterminated, hafter, hexecuted⟩ |
    ⟨request, hrequest, hperform, hafter, hexecuted⟩ |
    ⟨request, hrequest, payload, hperform, hresponds, hexecuted⟩
  · rw [hexecuted, List.map_nil, List.append_nil]
    refine h.ends hbound ((List.prefix_append _ _).trans horder) ?_ hends (fun _ => hunanswered)
      fun type htype _ => htype
    simpa using hsame []
  · rw [hexecuted, hterminated, hafter]
    refine ⟨h.taken_le, h.stream, .inl rfl, fun _ he => ?_, nofun, nofun, h.sent_le, ?_,
      fun f hf => ?_, h.replies, fun k reply hreply herr => ?_⟩
    · rw [hestablished] at he
      cases he
    · rw [Option.toList_none, List.append_nil]
      exact horder'
    · rw [hviewing] at hf
      cases hf
    · obtain ⟨e, he, hgives⟩ := h.answers k reply hreply herr
      exact ⟨e, getElem?_append_kept he, hgives⟩
  · rw [hexecuted, hafter]
    refine ⟨h.taken_le, h.stream, .inl rfl, fun _ he => ?_, fun _ _ => ?_, fun _ _ _ => ?_, h.sent_le,
      ?_, fun f hf => ?_, h.replies, fun k reply hreply herr => ?_⟩
    · rw [hestablished] at he
      cases he
    · simpa using hcount
    · simpa using htook
    · rw [Option.toList_none, List.append_nil]
      exact horder'
    · exact ⟨executed, last, rfl, Option.some.inj hf, request, hrequest, hperform⟩
    · obtain ⟨e, he, hgives⟩ := h.answers k reply hreply herr
      exact ⟨e, getElem?_append_kept he, hgives⟩
  · rw [hexecuted]
    rcases hresponds with ⟨hends⟩ | ⟨reply, type, hreply, htype, hafter⟩
    · exact h.ends hbound horder' (hsame [last]) hends (fun _ => hunanswered) fun type htype _ => htype
    · have hgives : last.Gives bound type.code payload :=
        ⟨⟨type, htype, rfl⟩, request, hrequest, by rw [hperform]⟩
      have hdone : (executed ++ [last]).length = session.sent.length := by
        rw [List.length_append, List.length_singleton]
        omega
      refine h.answered hbound hcount hdone List.getLast?_concat hgives (hsame [last]) horder'
        hestablished hreply hunfinished (hafter.trans ?_)
      exact congrArg (fun viewing : Option Frame => ({ session with
        pending := none, viewing := viewing, sent := session.sent ++ [reply], finished := false } :
          Session)) hviewing

theorem viewLast_append (r : PartitionRuntime) (done : List Execution) (e : Execution) :
    viewLast r (done ++ [e]) = done ++ [{ e with viewed := some r }] := by
  induction done with
  | nil => rfl
  | cons first rest ih =>
    rcases rest with _ | ⟨second, rest⟩
    · rfl
    · show first :: viewLast r (second :: rest ++ [e]) = _
      rw [ih]
      rfl

/-- **An assessment that is viewed.** -/
theorem Talks.view (h : Talks limits bound asked up broken ended executed taken session)
    (hbound : bound.maxFrameBytes < 2 ^ 32) (hended : ended = false)
    (hunfinished : session.finished = false) (hpending : session.pending = none) {frame : Frame}
    (hviewing : session.viewing = some frame) {r : PartitionRuntime}
    (hresponds : Responds bound frame
      (encodeAssessmentView (makeAssessmentView r.assessment r) bound)
      { session with viewing := none } after) :
    Talks limits bound asked up broken ended (viewLast r executed) taken after := by
  have hestablished := h.established hunfinished fun hidle => by
    rw [hviewing] at hidle
    cases hidle.2.1
  have hcount := h.count hended hunfinished
  have htook := h.took hended hunfinished hestablished
  have horder := h.order
  rw [hpending, hviewing] at hcount
  rw [hpending] at htook horder
  simp only [Option.toList_some, Option.toList_none, List.length_singleton, List.length_nil,
    Nat.add_zero, List.append_nil] at hcount htook horder
  obtain ⟨done, e, rfl, hframe, request, hrequest, hperform⟩ := h.viewing frame hviewing
  rw [viewLast_append]
  rw [List.length_append, List.length_singleton] at htook
  have horder' : (done ++ [{ e with viewed := some r }]).map Execution.frame <+:
      (asked.drop 1).map Frame.sent := by
    rw [List.map_append] at horder ⊢
    exact horder
  -- the last execution is not answered yet, and the others stay what they were
  have hkept : ∀ k e' type payload, (done ++ [e])[k]? = some e' → e'.Gives bound type payload →
      session.sent[k + 1]?.isSome → ∃ e'', (done ++ [{ e with viewed := some r }])[k]? = some e'' ∧
        e''.Gives bound type payload := by
    intro k e' type payload he' hgives hsome
    have hlt : k + 1 < session.sent.length := by
      rw [Option.isSome_iff_exists] at hsome
      obtain ⟨reply, hreply⟩ := hsome
      exact (List.getElem?_eq_some_iff.mp hreply).1
    rw [List.getElem?_append_left (by omega)] at he'
    exact ⟨e', getElem?_append_kept he', hgives⟩
  rcases hresponds with ⟨hends⟩ | ⟨reply, type, hreply, htype, hafter⟩
  · refine h.ends hbound horder' hkept hends (fun _ => ?_) fun type htype _ => htype
    have := h.taken_le
    show session.sent.length < asked.length
    omega
  · have hdone : (done ++ [{ e with viewed := some r }]).length = session.sent.length := by
      rw [List.length_append, List.length_singleton]
      omega
    have hgives : ({ e with viewed := some r } : Execution).Gives bound type.code
        (encodeAssessmentView (makeAssessmentView r.assessment r) bound) := by
      refine ⟨⟨type, hframe ▸ htype, rfl⟩, request, hrequest, ?_⟩
      dsimp only
      rw [hperform]
      exact ⟨r, rfl, rfl⟩
    refine h.answered hbound hcount hdone List.getLast?_concat hgives hkept horder' hestablished hreply
      hunfinished (hafter.trans ?_)
    exact congrArg (fun pending : Option Frame => ({ session with
      pending := pending, viewing := none, sent := session.sent ++ [reply], finished := false } :
        Session)) hpending

/-- **A frame that is handed to the socket**, wholly or in part. -/
theorem Talks.ask (h : Talks limits bound asked up false ended executed taken session) {frame : Frame}
    {bytes rest : Bytes} (hbytes : bytes ++ rest = encodeFrame frame limits) {broken' : Bool}
    (hrest : broken' = false → rest = []) :
    Talks limits bound (asked ++ [frame]) (up ++ bytes) broken' ended executed taken session := by
  refine ⟨?_, fun hunfinished => ?_, h.one, h.hello, h.count, h.took, ?_, h.order.trans ?_, h.viewing,
    h.replies, h.answers⟩
  · rw [List.length_append]
    exact Nat.le_add_right_of_le h.taken_le
  · obtain ⟨tail, hstream, htail⟩ := h.stream hunfinished
    obtain rfl := htail rfl
    refine ⟨rest, ?_, hrest⟩
    rw [List.append_nil] at hstream
    rw [List.drop_append_of_le_length h.taken_le, sendAll_append, ← hstream, sendAll_singleton,
      ← hbytes]
    simp only [List.append_assoc]
  · rw [List.length_append]
    exact Nat.le_add_right_of_le h.sent_le
  · refine List.IsPrefix.map Frame.sent ?_
    rcases asked with _ | ⟨first, rest⟩
    · simp
    · simp

/-- What happens elsewhere asks less of a session. -/
theorem Talks.weaken (h : Talks limits bound asked up broken ended executed taken session)
    {broken' ended' departed : Bool} (hbroken : broken' = false → broken = false)
    (hended : ended' = false → ended = false) :
    Talks limits bound asked up broken' ended' executed taken
      { session with departed := departed } where
  taken_le := h.taken_le
  stream hunfinished := by
    obtain ⟨tail, hstream, htail⟩ := h.stream hunfinished
    exact ⟨tail, hstream, fun hb => htail (hbroken hb)⟩
  one := h.one
  hello := h.hello
  count he := h.count (hended he)
  took he := h.took (hended he)
  sent_le := h.sent_le
  order := h.order
  viewing := h.viewing
  replies := h.replies
  answers := h.answers

/-- Bytes that arrive. -/
theorem Talks.receive {bytes rest : Bytes}
    (h : Talks limits bound asked (bytes ++ rest) broken ended executed taken session) :
    Talks limits bound asked rest broken ended executed taken
      { session with buffer := session.buffer ++ bytes } where
  taken_le := h.taken_le
  stream hunfinished := by
    obtain ⟨tail, hstream, htail⟩ := h.stream hunfinished
    exact ⟨tail, by simpa using hstream, htail⟩
  one := h.one
  hello := h.hello
  count := h.count
  took := h.took
  sent_le := h.sent_le
  order := h.order
  viewing := h.viewing
  replies := h.replies
  answers := h.answers

/-- **A step of a session**, on anything but bytes. -/
theorem Talks.step (h : Talks limits bound asked up broken ended executed taken session)
    (hbound : bound.maxFrameBytes < 2 ^ 32) (hsend : ∀ frame ∈ asked, frame.Sendable limits)
    (hended : ended = false) (hunfinished : session.finished = false) {r : PartitionRuntime}
    (stopping : Bool) {c : Connection} (hruntime : c.server.runtime = r)
    (hexecuted : c.executed = executed) (hviews : c.server.viewsAt c.place
      = (session.pending.isNone && session.viewing.isSome)) {e : SessionEvent}
    (he : ∀ chunk, e ≠ .received chunk) :
    let outcome := session.step bound r stopping e
    ∃ taken', Talks limits bound asked up broken outcome.terminated
      (c.record (.session c.place e) (outcome.happenings.map fun h => (c.place, h))) taken'
      outcome.session := by
  subst hruntime hexecuted hended
  intro outcome
  have hstays : ∀ e, c.record (.session c.place e) [] = c.executed →
      outcome.session = session → outcome.terminated = false → outcome.happenings = [] →
      ∃ taken', Talks limits bound asked up broken outcome.terminated
        (c.record (.session c.place e) (outcome.happenings.map fun h => (c.place, h))) taken'
        outcome.session := by
    intro e hrecord hsession hterminated hquiet
    rw [hsession, hterminated, hquiet, List.map_nil, hrecord]
    exact ⟨taken, h⟩
  have hends : ∀ e, (∀ log, c.record (.session c.place e) log = c.executed) →
      outcome.session = { session with finished := true } → session.pending = none →
      session.viewing = none → ∃ taken', Talks limits bound asked up broken outcome.terminated
        (c.record (.session c.place e) (outcome.happenings.map fun h => (c.place, h))) taken'
        outcome.session := by
    intro e hrecord hsession hpending hviewing
    have horder := h.order
    rw [hpending, Option.toList_none, List.append_nil] at horder
    rw [hsession, hrecord]
    exact ⟨taken, h.ends hbound horder (fun k e _ _ he hgives _ => ⟨e, he, hgives⟩)
      (P := fun _ => False) ⟨rfl, hpending, hviewing, .inl rfl⟩ nofun nofun⟩
  rcases e with chunk | _ | ⟨handle, delivered⟩ | ⟨faults, delivered⟩ | delivered
  · exact absurd rfl (he chunk)
  · rcases hp : session.pending with _ | frame
    · rcases hv : session.viewing with _ | frame
      · by_cases hwait : turn bound session.buffer = .wait
        · refine hends .hungUp (fun _ => rfl) ?_ hp hv
          simp only [outcome, Session.step, hp, hv, hwait, if_true]
        · refine hstays .hungUp rfl ?_ ?_ ?_ <;>
            simp only [outcome, Session.step, hp, hv, hwait, if_false]
      · refine hstays .hungUp rfl ?_ ?_ ?_ <;> simp only [outcome, Session.step, hp, hv]
    · refine hstays .hungUp rfl ?_ ?_ ?_ <;> simp only [outcome, Session.step, hp]
  · rcases hp : session.pending with _ | frame
    · rcases hv : session.viewing with _ | frame
      · rcases hstopping : stopping with _ | _
        · have hserved := session.serve_served bound c.server.runtime handle delivered hp hv
          have hsession : outcome.session
              = (session.serve bound c.server.runtime handle delivered).1 := by
            simp [outcome, Session.step, hp, hv, hstopping]
          have hterminated : outcome.terminated = false := by
            simp [outcome, Session.step, hp, hv, hstopping]
          rw [hsession, hterminated]
          exact h.serve hbound hsend rfl hunfinished hp hv hserved
        · refine hends (.served handle delivered) (fun _ => rfl) ?_ hp hv
          simp [outcome, Session.step, hp, hv, hstopping]
      · refine hstays (.served handle delivered) rfl ?_ ?_ ?_ <;>
          simp only [outcome, Session.step, hp, hv]
    · refine hstays (.served handle delivered) rfl ?_ ?_ ?_ <;>
        simp only [outcome, Session.step, hp]
  · rcases hp : session.pending with _ | frame
    · refine hstays (.handled faults delivered) ?_ ?_ ?_ ?_
      · simp [Connection.record, executedFrames, historyOf]
      all_goals
        rcases hv : session.viewing with _ | frame <;> simp only [outcome, Session.step, hp, hv]
    · have hviewing : session.viewing = none := by
        rcases h.one with hnone | hnone
        · rw [hp] at hnone
          cases hnone
        · exact hnone
      have hstep : outcome
          = session.handleRequest bound c.server.runtime faults delivered frame := by
        simp only [outcome, Session.step, hp]
      have hhandles := @handleRequest_handles bound c.server.runtime faults delivered frame session
        hviewing
      rw [← hstep] at hhandles
      have hafter := h.handle hbound rfl hunfinished hp hhandles
      refine ⟨taken, ?_⟩
      rw [Connection.record, if_pos rfl, historyOf_tagged]
      exact hafter
  · rcases hp : session.pending with _ | frame
    · rcases hv : session.viewing with _ | frame
      · refine hstays (.viewed delivered) ?_ ?_ ?_ ?_
        · rw [Connection.record, hviews, hp, hv]
          simp
        all_goals simp only [outcome, Session.step, hp, hv]
      · have hstep : outcome
            = session.viewAssessment bound c.server.runtime delivered frame := by
          simp only [outcome, Session.step, hp, hv]
        have hresponds := @respond_responds bound delivered frame
          (encodeAssessmentView (makeAssessmentView c.server.runtime.assessment c.server.runtime) bound)
          { session with viewing := none } hp rfl
        refine ⟨taken, ?_⟩
        rw [Connection.record, hviews, hp, hv, if_pos ⟨rfl, rfl⟩, hstep]
        exact h.view hbound rfl hunfinished hp hv hresponds
    · refine hstays (.viewed delivered) ?_ ?_ ?_ ?_
      · rw [Connection.record, hviews, hp]
        simp
      all_goals simp only [outcome, Session.step, hp]

/-! ## What a client keeps -/

/-- What holds between a client and what its session has sent: the bytes it has not made a response of
yet are those of the frames behind the ones it has. -/
structure Hears (bound : Limits) (asked sent : List Frame) (exchange : Option Exchange) (down : Bytes)
    (broken : Bool) (responses : List ClientResponse) : Prop where
  busy : ∀ e, exchange = some e → broken = false ∧ asked.length = responses.length + 1
  idle : exchange = none → broken = false → asked.length = responses.length
  heard : broken = false → responses.length ≤ sent.length
  down : broken = false → ((exchange.map Exchange.buffer).getD []) ++ down
    = sendAll bound (sent.drop responses.length)
  results : ∀ (k : Nat) (response : ClientResponse), responses[k]? = some response →
    response.ok = true →
    ∃ reply, sent[k]? = some reply ∧ response.type = reply.header.type ∧
      response.payload = reply.payload

section Hears

variable {sent : List Frame} {exchange : Option Exchange} {down : Bytes}
  {responses : List ClientResponse}

/-- The session sends. -/
theorem Hears.send (h : Hears bound asked sent exchange down broken responses) (more : List Frame) :
    Hears bound asked (sent ++ more) exchange (down ++ sendAll bound more) broken responses := by
  refine ⟨h.busy, h.idle, fun hb => ?_, fun hb => ?_, fun k response hk hok => ?_⟩
  · rw [List.length_append]
    exact Nat.le_add_right_of_le (h.heard hb)
  · rw [List.drop_append_of_le_length (h.heard hb), sendAll_append, ← h.down hb, List.append_assoc]
  · obtain ⟨reply, hreply, hrest⟩ := h.results k response hk hok
    refine ⟨reply, ?_, hrest⟩
    rw [List.getElem?_append_left (List.getElem?_eq_some_iff.mp hreply).1]
    exact hreply

theorem results_snoc {response : ClientResponse}
    (h : ∀ (k : Nat) (response : ClientResponse), responses[k]? = some response →
      response.ok = true → ∃ reply, sent[k]? = some reply ∧ response.type = reply.header.type ∧
        response.payload = reply.payload)
    (hnew : response.ok = true → ∃ reply, sent[responses.length]? = some reply ∧
      response.type = reply.header.type ∧ response.payload = reply.payload) (k : Nat)
    (other : ClientResponse) (hk : (responses ++ [response])[k]? = some other)
    (hok : other.ok = true) : ∃ reply, sent[k]? = some reply ∧ other.type = reply.header.type ∧
      other.payload = reply.payload := by
  rcases Nat.lt_or_ge k responses.length with hlt | hge
  · rw [List.getElem?_append_left hlt] at hk
    exact h k other hk hok
  · rw [List.getElem?_append_right hge, List.getElem?_singleton] at hk
    split at hk
    · cases hk
      obtain rfl : k = responses.length := by omega
      exact hnew hok
    · cases hk

/-- The connection breaks, on a client that may be in an exchange. -/
theorem Hears.breaks (h : Hears bound asked sent exchange down broken responses)
    (responses' : List ClientResponse) (hresponses : responses' = responses ∨
      ∃ response, response.ok = false ∧ responses' = responses ++ [response]) (asked' : List Frame)
    (down' : Bytes) : Hears bound asked' sent none down' true responses' := by
  refine ⟨nofun, nofun, nofun, nofun, ?_⟩
  rcases hresponses with rfl | ⟨response, hok, rfl⟩
  · exact h.results
  · refine results_snoc h.results fun hok' => ?_
    rw [hok] at hok'
    cases hok'

/-- **Bytes that are read.**  If they make a response, it is that of the one frame there is. -/
theorem Hears.read {e : Exchange} {client : PartitionClient} {bytes rest : Bytes}
    (h : Hears bound asked sent (some e) (bytes ++ rest) broken responses)
    (hle : bound.maxFrameBytes ≤ client.limits.maxFrameBytes)
    (hsent : ∀ reply ∈ sent, reply.Sendable bound) (hcount : sent.length ≤ asked.length) :
    let e' : Exchange := { e with buffer := e.buffer ++ bytes }
    Hears bound asked sent (some e') rest broken responses ∧
      ∀ response, client.poll e' = some response →
        Hears bound asked sent none rest broken (responses ++ [response]) := by
  intro e'
  obtain ⟨hunbroken, hasked⟩ := h.busy e rfl
  have hsplit : e'.buffer ++ rest = sendAll bound (sent.drop responses.length) := by
    rw [← h.down hunbroken]
    simp [e']
  refine ⟨⟨fun _ _ => ⟨hunbroken, hasked⟩, nofun, h.heard, fun _ => hsplit, h.results⟩,
    fun response hpoll => ?_⟩
  rcases hfirst : sent.drop responses.length with _ | ⟨reply, later⟩
  · rw [hfirst] at hsplit
    have hnil : e'.buffer = [] := (List.append_eq_nil_iff.mp hsplit).1
    rw [PartitionClient.poll, hnil, turn_nil] at hpoll
    cases hpoll
  have hlength := congrArg List.length hfirst
  rw [List.length_drop, List.length_cons] at hlength
  obtain rfl : later = [] := List.eq_nil_of_length_eq_zero (by omega)
  have hreply : reply ∈ sent := List.mem_of_mem_drop (hfirst ▸ List.mem_cons_self)
  have hget : sent[responses.length]? = some reply := by
    have h := congrArg (fun l : List Frame => l[0]?) hfirst
    simpa using h
  obtain ⟨hwide, himage⟩ := (hsent reply hreply).mono hle
  rw [hfirst, sendAll_singleton, ← himage] at hsplit
  rcases Nat.lt_or_ge e'.buffer.length (encodeFrame reply client.limits).length with hshort | hlong
  · have htake : e'.buffer = (encodeFrame reply client.limits).take e'.buffer.length := by
      rw [← hsplit, List.take_left]
    have hfits : frameOverheadBytes ≤ client.limits.maxFrameBytes :=
      (Nat.le_add_left _ _).trans hwide.encodable.size
    rw [PartitionClient.poll, htake, turn_take hfits hwide hshort] at hpoll
    cases hpoll
  · have hrest : rest = [] := by
      have h := congrArg List.length hsplit
      rw [List.length_append] at h
      exact List.eq_nil_of_length_eq_zero (by omega)
    rw [hrest, List.append_nil] at hsplit
    have hturn : turn client.limits e'.buffer = .frame reply.sent [] := by
      have h := turn_frame hwide []
      rwa [List.append_nil, ← hsplit] at h
    have hresponse : response.ok = true →
        response.type = reply.header.type ∧ response.payload = reply.payload := by
      rw [PartitionClient.poll, hturn] at hpoll
      dsimp only at hpoll
      split at hpoll
      · cases hpoll
        nofun
      · cases hpoll
        exact fun _ => ⟨rfl, rfl⟩
    refine ⟨nofun, fun _ _ => ?_, fun _ => ?_, fun _ => ?_,
      results_snoc h.results fun hok => ⟨reply, hget, hresponse hok⟩⟩
    · rw [hasked, List.length_append, List.length_singleton]
    · rw [List.length_append, List.length_singleton]
      omega
    · rw [List.length_append, List.length_singleton, ← List.drop_drop, hfirst, hrest]
      rfl

end Hears

/-- The client hands a frame to the socket. -/
theorem Hears.ask {sent : List Frame} {down : Bytes} {responses : List ClientResponse}
    (h : Hears bound asked sent none down false responses) (frame : Frame) (type : MessageType) :
    Hears bound (asked ++ [frame]) sent (some { type := type }) down false responses where
  busy _ _ := ⟨rfl, by rw [List.length_append, List.length_singleton, h.idle rfl rfl]⟩
  idle := nofun
  heard := h.heard
  down := h.down
  results := h.results

/-! ## The server behind the connection -/

namespace Server

variable {server : Server} {i : Nat} {session : Session}

theorem step_terminated (h : server.terminated = true) (event : ServerEvent) :
    server.step event = (server, []) := by
  unfold Server.step
  rw [if_pos h]

/-- The thread of a session takes a step, or it does not run any more. -/
theorem step_found (hfound : server.sessions[i]? = some session) (e : SessionEvent) :
    (server.step (.session i e) = (server, []) ∧ server.viewsAt i = false) ∨
      (server.terminated = false ∧ session.finished = false ∧
        server.viewsAt i = (session.pending.isNone && session.viewing.isSome) ∧
        let outcome := session.step server.limits server.runtime server.stopping e
        (server.step (.session i e)).1.sessions[i]? = some outcome.session ∧
          (server.step (.session i e)).1.terminated = outcome.terminated ∧
          (server.step (.session i e)).2 = outcome.happenings.map fun h => (i, h)) := by
  have hviews : server.viewsAt i = (!server.terminated &&
      (!session.finished && session.pending.isNone && session.viewing.isSome)) := by
    rw [viewsAt, hfound]
    rfl
  rw [hviews]
  rcases hterminated : server.terminated with _ | _
  · rcases hfinished : session.finished with _ | _
    · refine .inr ⟨rfl, rfl, by rw [Bool.not_false, Bool.true_and, Bool.true_and], ?_⟩
      unfold Server.step
      rw [if_neg (by simp [hterminated])]
      dsimp only
      rw [hfound]
      dsimp only
      rw [if_neg (by simp [hfinished])]
      exact ⟨List.getElem?_set_self (List.getElem?_eq_some_iff.mp hfound).1, rfl, rfl⟩
    · exact .inl ⟨by simp [Server.step, hterminated, hfound, hfinished], rfl⟩
  · exact .inl ⟨step_terminated hterminated _, rfl⟩

theorem sentBy_found (hfound : server.sessions[i]? = some session) :
    server.sentBy i = session.sent := by
  rw [sentBy, hfound]
  rfl

end Server

namespace Session

/-! What a session has sent stays sent. -/

theorem EndsWith.sent {P : MessageType → Prop} (h : EndsWith bound session after P) :
    session.sent <+: after.sent := by
  obtain ⟨-, -, -, h | ⟨reply, -, -, -, -, h⟩⟩ := h
  · rw [h]
  · exact ⟨[reply], h.symm⟩

theorem Served.sent (h : Served bound session after) : session.sent <+: after.sent := by
  rcases h with rfl | ⟨-, h⟩ | ⟨_, _, _, _, _, rfl⟩ | ⟨_, _, _, _, reply, _, _, _, _, _, _, rfl⟩
  · exact List.prefix_refl _
  · exact h.sent
  · exact List.prefix_refl _
  · exact List.prefix_append _ _

theorem Responds.sent {frame : Frame} {payload : Bytes}
    (h : Responds bound frame payload session after) :
    session.sent <+: after.sent := by
  rcases h with h | ⟨reply, _, _, _, rfl⟩
  · exact h.sent
  · exact List.prefix_append _ _

theorem Handles.sent {r : PartitionRuntime} {faults : List (Option AppendFault)} {frame : Frame}
    {outcome : Outcome} (h : Handles bound r faults frame session outcome) :
    session.sent <+: outcome.session.sent := by
  rcases h with ⟨h, -⟩ | ⟨-, h, -⟩ | ⟨_, _, _, h, -⟩ | ⟨_, _, _, _, h, -⟩
  · exact h.sent
  · rw [h]
  · rw [h]
  · exact h.sent

/-- **A step of a session** sends behind what was sent. -/
theorem step_sent (limits : Limits) (r : PartitionRuntime) (stopping : Bool) (e : SessionEvent)
    (hone : session.pending = none ∨ session.viewing = none) :
    session.sent <+: (session.step limits r stopping e).session.sent := by
  rcases hp : session.pending with _ | frame
  · rcases hv : session.viewing with _ | frame
    · rcases e with chunk | _ | ⟨handle, delivered⟩ | _ | _
      · simp only [Session.step, hp, hv]
        split <;> exact List.prefix_refl _
      · simp only [Session.step, hp, hv]
        split <;> exact List.prefix_refl _
      · simp only [Session.step, hp, hv]
        split
        · exact List.prefix_refl _
        · exact (session.serve_served limits r handle delivered hp hv).sent
      · simp only [Session.step, hp, hv, List.prefix_rfl]
      · simp only [Session.step, hp, hv, List.prefix_rfl]
    · rcases e with _ | _ | _ | _ | delivered
      all_goals simp only [Session.step, hp, hv, List.prefix_rfl]
      exact (@respond_responds limits delivered frame
        (encodeAssessmentView (makeAssessmentView r.assessment r) limits)
        { session with viewing := none } hp rfl).sent
  · have hv : session.viewing = none := by
      rcases hone with h | h
      · rw [hp] at h
        cases h
      · exact h
    rcases e with _ | _ | _ | ⟨faults, delivered⟩ | _
    all_goals simp only [Session.step, hp, hv, List.prefix_rfl]
    exact (handleRequest_handles limits r faults delivered frame hv).sent

end Session

/-! ## The connection as a whole -/

namespace Connection

/-- The invariant of a connection. -/
structure Sound (c : Connection) (session : Session) (taken : Nat) : Prop where
  found : c.server.sessions[c.place]? = some session
  narrow : c.server.limits.maxFrameBytes ≤ c.client.limits.maxFrameBytes
  short : c.client.limits.maxFrameBytes < 2 ^ 32
  sendable : ∀ frame ∈ c.asked, frame.Sendable c.client.limits
  talks : Talks c.client.limits c.server.limits c.asked c.up c.broken c.server.terminated c.executed
    taken session
  hears : Hears c.server.limits c.asked session.sent c.client.exchange c.down c.broken c.responses

variable {c : Connection} {session : Session} {taken : Nat}

theorem Sound.fresh {server : Server} {place : Nat} {client : PartitionClient}
    (hfound : server.sessions[place]? = some {})
    (hnarrow : server.limits.maxFrameBytes ≤ client.limits.maxFrameBytes)
    (hshort : client.limits.maxFrameBytes < 2 ^ 32) (hidle : client.exchange = none) :
    (fresh server place client).Sound {} 0 := by
  refine ⟨hfound, hnarrow, hshort, by simp [Connection.fresh], ?_, ?_⟩
  · exact ⟨Nat.le_refl 0, fun _ => ⟨[], rfl, fun _ => rfl⟩, .inl rfl, fun _ _ => ⟨rfl, rfl, rfl, rfl⟩,
      fun _ _ => rfl, nofun, Nat.le_refl 0, List.prefix_refl [], nofun, nofun, nofun⟩
  · refine ⟨fun e he => ?_, fun _ _ => rfl, fun _ => Nat.le_refl 0, fun _ => ?_, nofun⟩
    · rw [Connection.fresh, hidle] at he
      cases he
    · rw [Connection.fresh, hidle]
      rfl

/-- The connection breaks, on a client that may be in an exchange. -/
theorem Sound.breaks (h : c.Sound session taken) (client : PartitionClient)
    (hlimits : client.limits = c.client.limits) (hidle : client.exchange = none)
    {responses : List ClientResponse} (hresponses : responses = c.responses ∨
      ∃ response, response.ok = false ∧ responses = c.responses ++ [response]) :
    ({ c with client := client, broken := true, responses := responses } : Connection).Sound
      session taken := by
  refine ⟨h.found, ?_, ?_, ?_, ?_, ?_⟩
  · rw [hlimits]
    exact h.narrow
  · rw [hlimits]
    exact h.short
  · rw [hlimits]
    exact h.sendable
  · rw [hlimits]
    exact h.talks.weaken nofun id
  · rw [hidle]
    exact h.hears.breaks responses hresponses c.asked c.down

/-- **A frame that is handed to the socket.** -/
theorem Sound.hand (h : c.Sound session taken) (hidle : c.client.exchange = none)
    (hunbroken : c.broken = false) (type : MessageType) (payload : Bytes)
    (fault : Option SocketFault) : (c.hand type payload fault).Sound session taken := by
  have htalks := h.talks
  have hhears := h.hears
  rw [hunbroken] at htalks hhears
  rw [hidle] at hhears
  have hsendable : encodeFrame (c.client.requestFrame type payload) c.client.limits ≠ [] →
      ∀ frame ∈ c.asked ++ [c.client.requestFrame type payload], frame.Sendable c.client.limits := by
    intro himage frame hframe
    rcases List.mem_append.mp hframe with hframe | hframe
    · exact h.sendable frame hframe
    · rw [List.mem_singleton.mp hframe]
      have hsize := (encodeFrame_ne_nil_iff.mp himage).size
      have hshort := h.short
      exact ⟨himage, rfl, by omega⟩
  rw [Connection.hand]
  dsimp only
  rcases c.client.send_cases type payload fault with ⟨response, hsend⟩ |
    ⟨himage, ⟨response, bytes, rest, hok, hbytes, hsend⟩ | hsend⟩
  · rw [hsend]
    exact ⟨h.found, h.narrow, h.short, h.sendable, h.talks, h.hears⟩
  · rw [hsend]
    refine ⟨h.found, h.narrow, h.short, hsendable himage, ?_, ?_⟩
    · exact htalks.ask hbytes nofun
    · dsimp only
      rw [hidle]
      exact hhears.breaks _ (.inr ⟨response, hok, rfl⟩) _ _
  · rw [hsend]
    dsimp only
    rw [hunbroken]
    refine ⟨h.found, h.narrow, h.short, hsendable himage, ?_, ?_⟩
    · exact htalks.ask (List.append_nil _) (fun _ => rfl)
    · exact hhears.ask _ type

/-- An exchange that returns. -/
theorem Sound.finish {exchange : Exchange} {response : ClientResponse}
    (h : ({ c with
      client := { c.client with exchange := none }
      responses := c.responses ++ [response] } : Connection).Sound session taken) :
    (c.finish exchange response).Sound session taken := by
  rw [Connection.finish]
  dsimp only
  split
  · rcases hgreeted : PartitionClient.greeted { c.client with exchange := none } response with
      _ | client
    · exact h.breaks { c.client with exchange := none } rfl rfl (.inl rfl)
    · obtain ⟨hlimits, hexchange⟩ := PartitionClient.greeted_keeps hgreeted
      dsimp only
      refine ⟨h.found, ?_, ?_, ?_, ?_, ?_⟩
      · rw [hlimits]
        exact h.narrow
      · rw [hlimits]
        exact h.short
      · rw [hlimits]
        exact h.sendable
      · rw [hlimits]
        exact h.talks
      · rw [hexchange]
        exact h.hears
  · exact h

/-- The client reads. -/
theorem Sound.reads (h : c.Sound session taken) (chunk : Chunk) :
    (c.step (.reads chunk)).Sound session taken := by
  rw [Connection.step]
  rcases hexchange : c.client.exchange with _ | exchange
  · exact h
  dsimp only
  split
  case isFalse => exact h
  rename_i hprefix
  obtain ⟨rest, hdown⟩ := List.isPrefixOf_iff_prefix.mp hprefix
  have hhears := h.hears
  rw [hexchange, ← hdown] at hhears
  have hrest : c.down.drop chunk.bytes.length = rest := by
    rw [← hdown, List.drop_left]
  rw [hrest]
  obtain ⟨hhears, hresponse⟩ := @Hears.read _ _ _ _ _ _
    { c.client with exchange := some { exchange with buffer := exchange.buffer ++ chunk.bytes } }
    _ _ hhears h.narrow h.talks.replies h.talks.sent_le
  split
  · exact ⟨h.found, h.narrow, h.short, h.sendable, h.talks, hhears⟩
  · rename_i response hpoll
    exact Sound.finish ⟨h.found, h.narrow, h.short, h.sendable, h.talks, hresponse response hpoll⟩

/-- Bytes arrive at the session. -/
theorem Sound.arrives (h : c.Sound session taken) (chunk : Chunk) :
    ∃ session', (c.step (.arrives chunk)).Sound session' taken := by
  rw [Connection.step]
  split
  case isFalse => exact ⟨session, h⟩
  rename_i hprefix
  obtain ⟨rest, hup⟩ := List.isPrefixOf_iff_prefix.mp hprefix
  have hrest : c.up.drop chunk.bytes.length = rest := by
    rw [← hup, List.drop_left]
  have htalks := h.talks
  rw [← hup] at htalks
  dsimp only
  split
  case isTrue => exact ⟨session, h⟩
  rename_i htaken
  rcases Server.step_found h.found (.received chunk) with
    ⟨hstay, -⟩ | ⟨hruns, -, -, hfound, hterminated, hlog⟩
  · rw [hstay] at htaken
    exact absurd rfl htaken
  -- the session takes bytes when it waits for them, and only then something happens
  have hreceived : session.step c.server.limits c.server.runtime c.server.stopping (.received chunk)
      = { session := { session with buffer := session.buffer ++ chunk.bytes }
          runtime := c.server.runtime
          happenings := [.received chunk.bytes] } := by
    have hsome : (session.step c.server.limits c.server.runtime c.server.stopping
        (.received chunk)).happenings ≠ [] := by
      intro hnil
      rw [hlog, hnil] at htaken
      exact htaken rfl
    rcases hp : session.pending with _ | frame <;> rcases hv : session.viewing with _ | frame <;>
      simp only [Session.step, hp, hv] at hsome ⊢
    · split at hsome
      · rename_i hwait
        rw [if_pos hwait]
      · exact absurd rfl hsome
    all_goals exact absurd rfl hsome
  rw [hreceived] at hfound hterminated
  rw [hruns] at htalks
  refine ⟨{ session with buffer := session.buffer ++ chunk.bytes }, hfound, ?_, h.short, h.sendable,
    ?_, ?_⟩
  · rw [Server.step_limits]
    exact h.narrow
  · rw [hrest, Server.step_limits, hterminated]
    exact htalks.receive
  · rw [Server.step_limits]
    exact h.hears

/-- What is recorded of a step that leaves the session alone. -/
theorem record_elsewhere {event : ServerEvent} (helse : Server.Elsewhere c.place event)
    (log : List Occurrence) : c.record event log = c.executed := by
  rcases event with _ | _ | _ | _ | ⟨i, e⟩ | _ | _ | _
  case session =>
    have hi : i ≠ c.place := by
      rintro rfl
      exact helse e rfl
    rcases e with _ | _ | _ | _ | _ <;> simp [record, hi]
  all_goals rfl

/-- What is recorded of a step that does not happen. -/
theorem record_nothing {e : SessionEvent} (hviews : c.server.viewsAt c.place = false) :
    c.record (.session c.place e) [] = c.executed := by
  rcases e with _ | _ | _ | _ | _ <;> simp [record, hviews, historyOf, executedFrames]

/-- A step of the server that leaves the session alone. -/
theorem Sound.elsewhere (h : c.Sound session taken) {server : Server} {departed : Bool}
    (hfound : server.sessions[c.place]? = some { session with departed := departed })
    (hlimits : server.limits = c.server.limits)
    (hended : server.terminated = false → c.server.terminated = false) :
    ({ c with
      server := server
      down := c.down ++ sendAll c.server.limits
        ((server.sentBy c.place).drop session.sent.length) } : Connection).Sound
      { session with departed := departed } taken := by
  have hquiet : (server.sentBy c.place).drop session.sent.length = [] := by
    rw [Server.sentBy_found hfound, List.drop_length]
  rw [hquiet, sendAll, Frames.stream_nil, List.append_nil]
  refine ⟨hfound, ?_, h.short, h.sendable, ?_, ?_⟩
  · rw [hlimits]
    exact h.narrow
  · rw [hlimits]
    exact h.talks.weaken id hended
  · rw [hlimits]
    exact h.hears

/-- The server takes any other step. -/
theorem Sound.steps (h : c.Sound session taken) (event : ServerEvent) :
    ∃ session' taken', (c.step (.steps event)).Sound session' taken' := by
  rw [Connection.step]
  split
  case isFalse => exact ⟨session, taken, h⟩
  rename_i hforeign
  have hsmall : c.server.limits.maxFrameBytes < 2 ^ 32 := h.narrow.trans_lt h.short
  dsimp only
  rw [c.server.sentBy_found h.found]
  by_cases hown : ∃ e, event = .session c.place e
  · obtain ⟨e, rfl⟩ := hown
    have hbytes : ∀ chunk, e ≠ .received chunk := by
      rintro chunk rfl
      simp [foreign] at hforeign
    rcases Server.step_found h.found e with
      ⟨hstay, hviews⟩ | ⟨hruns, hunfinished, hviews, hfound, hterminated, hlog⟩
    · rw [hstay, record_nothing hviews]
      exact ⟨_, taken, h.elsewhere h.found rfl id⟩
    · obtain ⟨taken', htalks⟩ := h.talks.step hsmall h.sendable hruns hunfinished
        c.server.stopping rfl rfl hviews hbytes
      refine ⟨_, taken', hfound, ?_, h.short, h.sendable, ?_, ?_⟩
      · rw [Server.step_limits]
        exact h.narrow
      · rw [Server.step_limits, hterminated, hlog]
        exact htalks
      · obtain ⟨more, hmore⟩ := step_sent c.server.limits c.server.runtime c.server.stopping e
          h.talks.one
        rw [Server.step_limits, Server.sentBy_found hfound, ← hmore, List.drop_left]
        exact h.hears.send more
  · have helse : Server.Elsewhere c.place event := fun e he => hown ⟨e, he⟩
    obtain ⟨departed, hfound⟩ := (Server.Holds.of_found h.found).step helse
    rw [record_elsewhere helse]
    refine ⟨_, taken, h.elsewhere hfound (Server.step_limits event) fun hruns => ?_⟩
    rcases hterminated : c.server.terminated with _ | _
    · rfl
    · rw [Server.step_terminated hterminated, hterminated] at hruns
      cases hruns

/-- **A step of a connection.**  Whoever reads is not interrupted. -/
theorem Sound.step (h : c.Sound session taken) {event : ConnectionEvent}
    (hwhole : ∀ error, event ≠ .interrupts error) :
    ∃ session' taken', (c.step event).Sound session' taken' := by
  rcases event with ⟨hello, fault⟩ | ⟨type, payload, fault⟩ | fault | chunk | chunk | error | error |
    event
  · refine ⟨session, taken, ?_⟩
    rw [Connection.step]
    split
    case isTrue => exact h
    rename_i hfree
    simp only [Bool.or_eq_true, not_or, Bool.not_eq_true, Option.isSome_eq_false_iff,
      Option.isNone_iff_eq_none] at hfree
    have hopened : ({ c with opened := true } : Connection).Sound session taken :=
      ⟨h.found, h.narrow, h.short, h.sendable, h.talks, h.hears⟩
    have hasked := hopened.hand hfree.2 hfree.1.1.2 .hello (encodeHelloRequest hello) fault
    dsimp only
    split
    · rename_i hrefused
      exact hasked.breaks _ rfl (Option.isNone_iff_eq_none.mp hrefused) (.inl rfl)
    · exact hasked
  · refine ⟨session, taken, ?_⟩
    rw [Connection.step]
    split
    case isTrue => exact h
    rename_i hfree
    simp only [Bool.or_eq_true, not_or, Bool.not_eq_true, Option.isSome_eq_false_iff,
      Option.isNone_iff_eq_none] at hfree
    exact h.hand hfree.2 hfree.1.1 type payload fault
  · refine ⟨session, taken, ?_⟩
    rw [Connection.step]
    split
    case isTrue => exact h
    rename_i hfree
    simp only [Bool.or_eq_true, not_or, Bool.not_eq_true, Option.isSome_eq_false_iff,
      Option.isNone_iff_eq_none] at hfree
    have hasked := h.hand hfree.2 hfree.1.1 .goodbye [] fault
    exact hasked.breaks { (c.hand .goodbye [] fault).client with
      connected := false, exchange := none } rfl rfl (.inl rfl)
  · obtain ⟨session', h'⟩ := h.arrives chunk
    exact ⟨session', taken, h'⟩
  · exact ⟨session, taken, h.reads chunk⟩
  · refine ⟨session, taken, ?_⟩
    rw [Connection.step]
    dsimp only
    split
    · rename_i hidle
      exact h.breaks _ rfl hidle (.inl rfl)
    · exact Sound.finish
        (h.breaks { c.client with exchange := none } rfl rfl (.inr ⟨_, rfl, rfl⟩))
  · exact absurd rfl (hwhole error)
  · exact h.steps event

/-- **A run of a connection**: by induction on its steps. -/
theorem Sound.run (h : c.Sound session taken) {events : List ConnectionEvent}
    (hwhole : ∀ error, .interrupts error ∉ events) :
    ∃ session' taken', (c.run events).Sound session' taken' := by
  induction events generalizing c session taken with
  | nil => exact ⟨session, taken, h⟩
  | cons event events ih =>
    obtain ⟨session', taken', hnext⟩ := h.step fun error he =>
      hwhole error (he ▸ List.mem_cons_self)
    exact ih hnext fun error he => hwhole error (List.mem_cons_of_mem event he)

/-- What a step of a connection is for the server, and for the record of the executions. -/
structure Moved (c c' : Connection) (move : Option ServerEvent) : Prop where
  place : c'.place = c.place
  server : c'.server = (move.map fun event => (c.server.step event).1).getD c.server
  executed : c'.executed
    = (move.map fun event => c.record event (c.server.step event).2).getD c.executed

theorem hand_moved (type : MessageType) (payload : Bytes) (fault : Option SocketFault)
    (c : Connection) : c.Moved (c.hand type payload fault) none := by
  rw [hand]
  dsimp only
  split <;> exact ⟨rfl, rfl, rfl⟩

theorem finish_moved {c c' : Connection} (exchange : Exchange) (response : ClientResponse)
    (h : c.Moved c' none) : c.Moved (c'.finish exchange response) none := by
  obtain ⟨hplace, hserver, hexecuted⟩ := h
  rw [Connection.finish]
  dsimp only
  split
  · split <;> exact ⟨hplace, hserver, hexecuted⟩
  · exact ⟨hplace, hserver, hexecuted⟩

/-- **One step** of a connection is one of the server at most. -/
theorem step_moved (c : Connection) (event : ConnectionEvent) :
    c.Moved (c.step event) (c.moves event) := by
  have hstay : c.Moved c none := ⟨rfl, rfl, rfl⟩
  rcases event with ⟨hello, fault⟩ | ⟨type, payload, fault⟩ | fault | chunk | chunk | error | error |
    event
  case connects =>
    rw [Connection.step]
    split
    · exact hstay
    · obtain ⟨hplace, hserver, hexecuted⟩ := hand_moved .hello (encodeHelloRequest hello) fault
        { c with opened := true }
      dsimp only
      split <;> exact ⟨hplace, hserver, hexecuted⟩
  case asks =>
    rw [Connection.step]
    split
    · exact hstay
    · exact hand_moved type payload fault c
  case closes =>
    rw [Connection.step]
    split
    · exact hstay
    · obtain ⟨hplace, hserver, hexecuted⟩ := hand_moved .goodbye [] fault c
      exact ⟨hplace, hserver, hexecuted⟩
  case arrives =>
    rw [Connection.step, moves]
    dsimp only
    rcases hprefix : chunk.bytes.isPrefixOf c.up with _ | _
    · simp only [Bool.false_eq_true, false_and, if_false]
      exact hstay
    · by_cases hnone : (c.server.step (.session c.place (.received chunk))).2 = []
      · simp only [hnone, ne_eq, not_true, and_false, if_true, if_false]
        exact hstay
      · simp only [hnone, ne_eq, not_false_eq_true, and_self, if_true, if_false]
        exact ⟨rfl, rfl, rfl⟩
  case reads =>
    rw [Connection.step]
    split
    · exact hstay
    · split
      · dsimp only
        split
        · exact ⟨rfl, rfl, rfl⟩
        · exact finish_moved _ _ ⟨rfl, rfl, rfl⟩
      · exact hstay
  case breaks =>
    rw [Connection.step]
    dsimp only
    split
    · exact ⟨rfl, rfl, rfl⟩
    · exact finish_moved _ _ ⟨rfl, rfl, rfl⟩
  case interrupts =>
    rw [Connection.step]
    split
    · exact hstay
    · exact finish_moved _ _ hstay
  case steps =>
    rw [Connection.step, moves]
    split
    · exact ⟨rfl, rfl, rfl⟩
    · exact hstay

/-- A server keeps its bounds on a connection. -/
theorem step_bounds (c : Connection) (event : ConnectionEvent) :
    (c.step event).server.limits = c.server.limits := by
  rw [(c.step_moved event).server]
  rcases c.moves event with _ | move
  · rfl
  · exact c.server.step_limits move

theorem run_bounds (c : Connection) (events : List ConnectionEvent) :
    (c.run events).server.limits = c.server.limits := by
  induction events generalizing c with
  | nil => rfl
  | cons event events ih => exact (ih _).trans (c.step_bounds event)

/-- A session executes what its client asked, in order and each request once at most, and a response is
what the execution of its own request was to be answered with. -/
structure Faithful (limits : Limits) (c : Connection) : Prop where
  order : c.executed.map Execution.frame <+: (c.asked.drop 1).map Frame.sent
  answers : ∀ (k : Nat) (request : Frame) (response : ClientResponse),
    c.asked[k + 1]? = some request → c.responses[k + 1]? = some response → response.ok = true →
    response.type ≠ MessageType.protocolError.code →
    ∃ e, c.executed[k]? = some e ∧ e.frame = request.sent ∧
      e.Gives limits response.type response.payload

theorem Sound.faithful (h : c.Sound session taken) : c.Faithful c.server.limits := by
  have horder : c.executed.map Execution.frame <+: (c.asked.drop 1).map Frame.sent :=
    (List.prefix_append _ _).trans h.talks.order
  refine ⟨horder, fun k request response hrequest hresponse hok htype => ?_⟩
  obtain ⟨reply, hreply, htypes, hpayload⟩ := h.hears.results (k + 1) response hresponse hok
  rw [htypes] at htype
  obtain ⟨e, he, hgives⟩ := h.talks.answers k reply hreply htype
  rw [← htypes, ← hpayload] at hgives
  refine ⟨e, he, ?_, hgives⟩
  have hframe : (c.executed.map Execution.frame)[k]? = some e.frame := by
    rw [List.getElem?_map, he]
    rfl
  have hasked : ((c.asked.drop 1).map Frame.sent)[k]? = some request.sent := by
    rw [List.getElem?_map, List.getElem?_drop, Nat.add_comm 1, hrequest]
    rfl
  obtain ⟨rest, hrest⟩ := horder
  rw [← hrest, List.getElem?_append_left (List.getElem?_eq_some_iff.mp hframe).1, hframe] at hasked
  exact Option.some.inj hasked

end Connection

/-- What is under way, if there is something. -/
def delivery (bytes : Bytes) : List Chunk := if h : bytes ≠ [] then [⟨bytes, h⟩] else []

/-- An exchange that goes well: the request arrives, the server takes some steps, and what the session
has sent is read. -/
def Connection.exchanged (c : Connection) (request : ConnectionEvent) (events : List ServerEvent) :
    List ConnectionEvent :=
  let served := request :: (delivery (c.step request).up).map .arrives ++ events.map .steps
  served ++ (delivery (c.run served).down).map .reads

/-- A server with a session for a client that is about to connect. -/
def awaited : Connection :=
  .fresh ((Server.started smallRuntime {}).run [.looped, .connected, .counted, .spawned]).1 0
    { limits := {} }

/-- The client connects, and asks for the status. -/
def Connection.asksStatus (c : Connection) : List ConnectionEvent :=
  let greeting := c.exchanged (.connects ⟨named _ "p", default, .zero, .nil⟩ none)
    [.session c.place (.served default true)]
  greeting ++ (c.run greeting).exchanged (.asks .queryStatus [] none)
    [.session c.place (.served default true), .session c.place (.handled [] true)]

/-- The client is interrupted before it reads the status, and asks for the fences. -/
def fencesAsked : List ConnectionEvent :=
  let interrupted := awaited.asksStatus.dropLast
    ++ [.interrupts "interrupted", .asks .queryFences [] none]
  interrupted ++ (delivery (awaited.run interrupted).down).map .reads

/-- A client that goes on after an interruption is given the status for the fences: `exchange` leaves
its socket open. -/
theorem interrupted_client_misled :
    let c := awaited.run fencesAsked
    c.executed.length = 1 ∧
      (c.asked[2]?.map fun request => request.header.type) = some MessageType.queryFences.code ∧
      (c.responses[2]?.map fun response => (response.ok, response.type))
        = some (true, MessageType.queryStatusAck.code) := by
  decide +kernel

end FabricPartition
