import FabricPartition.Drift
import FabricPartition.Wire

/-!
# The coordinator service

`PartitionServer` of `service.cpp`: one runtime, and a session for each accepted connection.  A
session is the thread that runs `serve` on it.  Its loop is cut at the points where other threads
can come between: where it waits for bytes, between the checks of a request and the runtime operation
the request asks for, and between `assess` and the queries its answer is made from.  What a session
goes through is recorded as it happens, for the law of this module; nothing reads the record.

`accept_loop` is cut where it reads and where it writes `active_sessions`: a session that ends
decrements the counter on its own.

`sessions_bound` is that law: whatever bytes the peers send, in whatever order the threads run,
**every operation comes from a frame that was received on its session after its hello was accepted,
under that session's handle, in the current epoch and above every sequence executed before, and none
follows a refusal**.
-/

set_option autoImplicit false

namespace FabricPartition

/-! ## Views -/

/-- The view of a partition. -/
def makePartitionView (p : Partition) : PartitionView where
  id := p.id
  lineage := p.lineage
  generation := p.generation
  memberCount := UInt64.ofNat p.members.length
  certainty := p.certainty
  lifecycle := p.lifecycle
  authorityClass := p.authority.authorityClass
  basis := p.authority.basis
  applicationState := p.authority.applicationState
  authorizedBits := p.authority.authorized
  eligibleBits := p.authority.eligible
  observedBits := p.authority.observed
  authoritySequence := p.authoritySequence.value
  authoritative := p.authoritative
  pendingMerge := p.pendingMergeParents ≠ []

/-- `make_assessment_view`, on an assessment and the status of a runtime.  Of the status it reads the
epoch and the boot identity. -/
def makeAssessmentView (assessment : PartitionAssessment) (r : PartitionRuntime) :
    AssessmentView where
  verdict := assessment.decision.verdict
  generation := assessment.generation
  epoch := r.state.epoch
  boot := r.state.boot
  confirmed := assessment.confirmed
  splitBrain := assessment.splitBrain
  orderedPairs := UInt64.ofNat assessment.reachability.counters.orderedPairs
  orderedUnknown := UInt64.ofNat assessment.reachability.counters.orderedUnknown
  orderedConflicting := UInt64.ofNat assessment.reachability.counters.orderedConflicting
  orderedStale := UInt64.ofNat assessment.reachability.counters.orderedStale
  orderedAsymmetric := UInt64.ofNat assessment.reachability.counters.orderedAsymmetric
  undirectedReachable := UInt64.ofNat assessment.reachability.counters.undirectedReachable
  crossComponentIndeterminate :=
    UInt64.ofNat assessment.reachability.counters.crossComponentIndeterminate
  topologyGeneration := assessment.reachability.topologyGeneration.value
  reachabilityGeneration := assessment.reachability.reachabilityGeneration.value
  decision := assessment.decision.id
  partitions := assessment.partitions.map makePartitionView
  reasons := assessment.decision.reasons

/-- The view `QueryPartitions` answers with: the partitions, and little else. -/
def makePartitionsView (r : PartitionRuntime) : AssessmentView where
  verdict := r.assessment.decision.verdict
  generation := r.assessment.generation
  confirmed := r.assessment.confirmed
  decision := r.assessment.decision.id
  partitions := r.assessment.partitions.map makePartitionView

/-- `make_status_view`, on the status of a runtime. -/
def makeStatusView (r : PartitionRuntime) : StatusView where
  epoch := r.state.epoch
  boot := r.state.boot
  incarnation := r.state.incarnation
  tick := r.state.tick
  partitionGeneration := r.state.partitionGeneration.value
  authoritySequence := r.state.authoritySequence.value
  decisionSequence := r.state.decisionSequence.value
  attemptSequence := r.state.attemptSequence.value
  lineageSequence := r.state.lineageSequence.value
  fenceSequence := r.state.fenceSequence.value
  partitionCount := UInt64.ofNat r.partitions.length
  lineageRecords := UInt64.ofNat r.lineage.size
  fenceRecords := UInt64.ofNat r.fences.length
  evidenceBundles := UInt64.ofNat r.ledger.retained.length
  interruptedAuthorities := UInt64.ofNat r.interrupted.length
  decisionHistory := UInt64.ofNat r.decisions.entries.length
  decisionsDropped := UInt64.ofNat r.decisions.dropped
  durable := r.store.isSome

/-! ## Requests -/

deriving instance DecidableEq for Operation

/-- What a request asks of the runtime. -/
inductive Request
  | operation (operation : Operation)
  | queryStatus
  | queryPartitions
  | queryFences
  | queryLineage
  deriving DecidableEq

/-- The decoding half of `handle_request`: nothing for a type or a payload it does not support. -/
def decodeRequest (type : MessageType) (payload : Bytes) (limits : Limits) : Option Request :=
  match type with
  | .publishEvidence =>
    (decodeEvidence payload limits).map fun evidence => .operation (.ingestEvidence evidence)
  | .adoptTopology =>
    (decodeTopology payload limits).map fun definition => .operation (.adoptTopology definition)
  | .setPolicy => (decodePolicy payload limits).map fun policy => .operation (.setPolicy policy)
  | .assess => some (.operation .assess)
  | .queryStatus => some .queryStatus
  | .queryPartitions => some .queryPartitions
  | .queryFences => some .queryFences
  | .queryLineage => some .queryLineage
  | .merge =>
    (decodeMergeRequest payload).map fun request => .operation (.requestMerge request)
  | .isolate =>
    (decodeIsolationRequest payload).map fun decoded =>
      .operation (if decoded.2 then .clearIsolation decoded.1 else .isolate decoded.1)
  | .revalidate =>
    (decodeRevalidationRequest payload).map fun request => .operation (.revalidate request)
  | .retire => (decodeRetireRequest payload).map fun request => .operation (.retire request)
  | _ => none

/-- The request a frame carries. -/
def Frame.request (frame : Frame) (limits : Limits) : Option Request :=
  (MessageType.ofCode frame.header.type).bind fun type => decodeRequest type frame.payload limits

/-- The result a decision is reported as. -/
def resultOf (verdict : DecisionVerdict) (decision : Decision) : OperationResult :=
  ⟨verdict, decision.id, decision.reasons⟩

/-- What the first runtime call of a request comes to. -/
inductive Reply
  /-- The payload of the answer. -/
  | answered (payload : Bytes)
  /-- `assess` has returned; what it returned is dropped, and the answer is made from queries. -/
  | assessed
  /-- An exception. -/
  | threw
  deriving DecidableEq

/-- What a response is answered with.  No request is for the clock or for closing. -/
def answer (limits : Limits) : Response → Reply
  | .decision d => .answered (encodeOperationResult (resultOf d.verdict d) limits)
  | .assessment _ => .assessed
  | .merge outcome => .answered (encodeMergeAck
      ⟨resultOf outcome.verdict outcome.decision, outcome.mergedLineage, outcome.mergedPartition⟩
      limits)
  | .isolation outcome =>
    .answered (encodeOperationResult (resultOf outcome.verdict outcome.decision) limits)
  | .revalidation outcome =>
    .answered (encodeOperationResult (resultOf outcome.verdict outcome.decision) limits)
  | .ticks _ | .closed => .answered []
  | .threw _ => .threw

/-- The other half of `handle_request` up to its first runtime call, and the runtime after it. -/
def Request.perform (request : Request) (limits : Limits) (faults : List (Option AppendFault))
    (r : PartitionRuntime) : Reply × PartitionRuntime :=
  match request with
  | .operation wanted =>
    let done := r.call ⟨wanted, faults⟩
    (answer limits done.1, done.2)
  | .queryStatus => (.answered (encodeStatusView (makeStatusView r)), r)
  | .queryPartitions => (.answered (encodeAssessmentView (makePartitionsView r) limits), r)
  | .queryFences => (.answered (encodeFenceList r.fences limits), r)
  | .queryLineage => (.answered (encodeLineageList r.lineage.records limits), r)

/-! ## Sessions -/

/-- `Session`, with the buffer of its thread, the request the thread is about to handle or whose
`assess` has returned, the frames it has sent, and whether the thread has left `active_sessions`. -/
structure Session where
  handle : SessionHandle := default
  publisher : PublisherId := .nil
  boot : PublisherBootId := default
  lastSequence : UInt64 := 0
  epoch : UInt64 := 0
  established : Bool := false
  finished : Bool := false
  buffer : Bytes := []
  pending : Option Frame := none
  viewing : Option Frame := none
  sent : List Frame := []
  departed : Bool := false

/-- What a session goes through. -/
inductive Happening
  | received (bytes : Bytes)
  | framed (frame : Frame)
  | accepted (handle : SessionHandle) (epoch : UInt64)
  | refused
  | executed (frame : Frame) (request : Request) (epoch : UInt64)
  deriving DecidableEq

/-- `frame_decode_status_name`. -/
def FrameDecodeStatus.name : FrameDecodeStatus → String
  | .needMore => "NEED_MORE"
  | .invalidMagic => "INVALID_MAGIC"
  | .unsupportedVersion => "UNSUPPORTED_VERSION"
  | .oversizedPayload => "OVERSIZED_PAYLOAD"
  | .corruptIntegrity => "CORRUPT_INTEGRITY"
  | .reservedNotZero => "RESERVED_NOT_ZERO"
  | .typeOutOfDomain => "TYPE_OUT_OF_DOMAIN"

namespace Session

/-- `send_frame`, on a socket that delivers or not.  Every response bears the sequence zero:
`response_sequence` is never advanced. -/
def sendFrame (limits : Limits) (delivered : Bool) (type : MessageType) (epoch : UInt64)
    (payload : Bytes) (session : Session) : Bool × Session :=
  let frame : Frame :=
    { header :=
        { version := wireProtocolVersion
          type := type.code
          flags := 1
          payloadLength := UInt32.ofNat payload.length
          epoch := epoch
          session := session.handle }
      payload := payload }
  if encodeFrame frame limits = [] then (false, session)
  else if !delivered then (false, session)
  else (true, { session with sent := session.sent ++ [frame] })

/-- `fail_session`, after which `serve` returns. -/
def failSession (limits : Limits) (delivered : Bool) (detail : String) (session : Session) :
    Session :=
  let result : OperationResult :=
    { verdict := .invalid
      reasons := [{ code := .invalidRequest, subject := (ascii detail).take 64 }] }
  { (session.sendFrame limits delivered .protocolError session.epoch
      (encodeOperationResult result limits)).2 with finished := true }

/-- The response to a hello for another epoch. -/
def rejection (r : PartitionRuntime) : HelloResponse where
  epoch := r.state.epoch
  boot := r.state.boot
  protocolVersion := wireProtocolVersion
  reasons :=
    [{ code := .epochMismatchReason, detail := ascii "the requested epoch is not current" }]

/-- The response to a hello that is accepted. -/
def acceptance (r : PartitionRuntime) (handle : SessionHandle) : HelloResponse where
  session := handle
  epoch := r.state.epoch
  boot := r.state.boot
  protocolVersion := wireProtocolVersion
  accepted := true
  reasons := [{ code := .evidenceAccepted, detail := ascii "session established" }]

/-- The turn of `serve` on a frame of a session that is not established.  The handle is the one
`fill_session_handle` draws. -/
def greet (limits : Limits) (r : PartitionRuntime) (handle : SessionHandle) (delivered : Bool)
    (frame : Frame) (session : Session) : Session × List Happening :=
  if MessageType.ofCode frame.header.type ≠ some .hello then
    (session.failSession limits delivered "the first frame must be a hello", [.refused])
  else
    match decodeHelloRequest frame.payload with
    | none =>
      (session.failSession limits delivered "the hello payload could not be decoded", [.refused])
    | some hello =>
      if !hello.expectedEpoch.isZero && hello.expectedEpoch != r.state.epoch then
        let (_, session) := session.sendFrame limits delivered .helloAck r.state.epoch.value
          (encodeHelloResponse (rejection r) limits)
        ({ session with finished := true }, [.refused])
      else
        let session := { session with
          handle := handle
          publisher := hello.publisher
          boot := hello.boot
          epoch := r.state.epoch.value
          established := true }
        let (sent, session) := session.sendFrame limits delivered .helloAck session.epoch
          (encodeHelloResponse (acceptance r handle) limits)
        ({ session with finished := !sent }, [.accepted handle r.state.epoch.value])

/-- The checks `serve` makes on a frame of an established session, up to `handle_request`. -/
def checkFrame (limits : Limits) (r : PartitionRuntime) (delivered : Bool) (frame : Frame)
    (session : Session) : Session × List Happening :=
  if frame.header.session ≠ session.handle then
    (session.failSession limits delivered
      "the frame names a session handle that this connection does not own", [.refused])
  else if frame.header.epoch ≠ session.epoch ∨ frame.header.epoch ≠ r.state.epoch.value then
    (session.failSession limits delivered
      "the frame names an epoch that is not the established epoch", [.refused])
  else if frame.header.sequence ≤ session.lastSequence then
    (session.failSession limits delivered
      "the frame sequence did not advance past the last accepted sequence", [.refused])
  else
    let session := { session with lastSequence := frame.header.sequence }
    if MessageType.ofCode frame.header.type = some .goodbye then
      ({ session with finished := true }, [])
    else ({ session with pending := some frame }, [])

/-- The turn of `serve` on its buffer, up to `handle_request`. -/
def serve (limits : Limits) (r : PartitionRuntime) (handle : SessionHandle) (delivered : Bool)
    (session : Session) : Session × List Happening :=
  match turn limits session.buffer with
  | .wait => (session, [])
  | .overflow =>
    (session.failSession limits delivered "the receive buffer exceeded the frame bound", [.refused])
  | .reject status =>
    (session.failSession limits delivered ("frame rejected: " ++ status.name), [.refused])
  | .frame frame rest =>
    let session := { session with buffer := rest }
    let (session, later) :=
      if session.established then session.checkFrame limits r delivered frame
      else session.greet limits r handle delivered frame
    (session, .framed frame :: later)

/-- What a step of a session amounts to: the session, the runtime, and whether an exception has left
the thread, which ends the process. -/
structure Outcome where
  session : Session
  runtime : PartitionRuntime
  terminated : Bool := false
  happenings : List Happening := []

/-- The end of the turn of `serve` on a request: the answer. -/
def respond (limits : Limits) (delivered : Bool) (frame : Frame) (payload : Bytes)
    (session : Session) : Session × List Happening :=
  match (MessageType.ofCode frame.header.type).bind MessageType.response with
  | none =>
    (session.failSession limits delivered "the request has no response type", [.refused])
  | some type =>
    let (sent, session) := session.sendFrame limits delivered type session.epoch payload
    ({ session with finished := !sent }, [])

/-- The rest of the turn of `serve` on a request: `handle_request`, and the answer. -/
def handleRequest (limits : Limits) (r : PartitionRuntime) (faults : List (Option AppendFault))
    (delivered : Bool) (frame : Frame) (session : Session) : Outcome :=
  let session := { session with pending := none }
  match frame.request limits with
  | none =>
    { session := session.failSession limits delivered
        "the request type or payload is not supported"
      runtime := r
      happenings := [.refused] }
  | some request =>
    let executed := Happening.executed frame request r.state.epoch.value
    match request.perform limits faults r with
    | (.threw, r) =>
      { session := session, runtime := r, terminated := true, happenings := [executed] }
    | (.assessed, r) =>
      { session := { session with viewing := some frame }, runtime := r, happenings := [executed] }
    | (.answered payload, r) =>
      let (session, later) := session.respond limits delivered frame payload
      { session := session, runtime := r, happenings := executed :: later }

/-- The answer to a request to assess, from the last assessment and the status. -/
def viewAssessment (limits : Limits) (r : PartitionRuntime) (delivered : Bool) (frame : Frame)
    (session : Session) : Outcome :=
  let (session, later) := { session with viewing := none }.respond limits delivered frame
    (encodeAssessmentView (makeAssessmentView r.assessment r) limits)
  { session := session, runtime := r, happenings := later }

end Session

/-- What the thread of a session does next, and what it meets. -/
inductive SessionEvent
  /-- `recv_some` returns bytes. -/
  | received (chunk : Chunk)
  /-- `recv_some` returns nothing, or fails. -/
  | hungUp
  /-- The loop turns, up to the request it finds. -/
  | served (handle : SessionHandle) (delivered : Bool)
  /-- The request is handled. -/
  | handled (faults : List (Option AppendFault)) (delivered : Bool)
  /-- The last assessment is queried, and answered with. -/
  | viewed (delivered : Bool)

/-- A step of a session that has not finished.  A thread only receives when its buffer holds no
frame, and only turns when it has no request to handle. -/
def Session.step (limits : Limits) (r : PartitionRuntime) (stopping : Bool) (session : Session)
    (event : SessionEvent) : Outcome :=
  match session.pending, session.viewing, event with
  | none, none, .received chunk =>
    if turn limits session.buffer = .wait then
      { session := { session with buffer := session.buffer ++ chunk.bytes }
        runtime := r
        happenings := [.received chunk.bytes] }
    else { session := session, runtime := r }
  | none, none, .hungUp =>
    if turn limits session.buffer = .wait then
      { session := { session with finished := true }, runtime := r }
    else { session := session, runtime := r }
  | none, none, .served handle delivered =>
    if stopping then { session := { session with finished := true }, runtime := r }
    else
      let (session, happenings) := session.serve limits r handle delivered
      { session := session, runtime := r, happenings := happenings }
  | some frame, _, .handled faults delivered =>
    session.handleRequest limits r faults delivered frame
  | none, some frame, .viewed delivered => session.viewAssessment limits r delivered frame
  | _, _, _ => { session := session, runtime := r }

/-! ## The server -/

/-- Where `accept_loop` is in its turn. -/
inductive Acceptor
  /-- Between two turns. -/
  | waiting
  /-- The server was found not to be stopping, and the listener is polled. -/
  | polling
  /-- A connection was accepted, and `active_sessions` was read. -/
  | loaded (active : Nat)
  /-- `active_sessions` was written; the thread of the session is to be started. -/
  | stored
  deriving DecidableEq

/-- `PartitionServer::Impl`.  A session that has finished keeps its place: reaping only frees it. -/
structure Server where
  runtime : PartitionRuntime
  limits : Limits
  sessions : List Session := []
  activeSessions : Nat := 0
  acceptor : Acceptor := .waiting
  stopping : Bool := false
  terminated : Bool := false

/-- What the server or its process does next. -/
inductive ServerEvent
  /-- `accept_loop` starts a turn. -/
  | looped
  /-- It accepts a connection, and reads `active_sessions`. -/
  | connected
  /-- It refuses the connection, or writes `active_sessions`. -/
  | counted
  /-- It starts the thread of the session. -/
  | spawned
  /-- The thread of a session takes a step. -/
  | session (i : Nat) (event : SessionEvent)
  /-- The thread of a session that has finished decrements `active_sessions`. -/
  | departed (i : Nat)
  /-- The process calls the runtime itself. -/
  | called (call : Call)
  /-- `stop`. -/
  | stopped

/-- Something that happened to the session in a place. -/
abbrev Occurrence := Nat × Happening

namespace Server

/-- One step of the process. -/
def step (server : Server) (event : ServerEvent) : Server × List Occurrence :=
  if server.terminated then (server, [])
  else
    match event with
    | .looped =>
      if server.acceptor = .waiting ∧ server.stopping = false then
        ({ server with acceptor := .polling }, [])
      else (server, [])
    | .connected =>
      if server.acceptor = .polling then
        ({ server with acceptor := .loaded server.activeSessions }, [])
      else (server, [])
    | .counted =>
      match server.acceptor with
      | .loaded active =>
        if active ≥ server.limits.maxSessions then ({ server with acceptor := .waiting }, [])
        else ({ server with activeSessions := active + 1, acceptor := .stored }, [])
      | _ => (server, [])
    | .spawned =>
      if server.acceptor = .stored then
        ({ server with sessions := server.sessions ++ [{}], acceptor := .waiting }, [])
      else (server, [])
    | .departed i =>
      match server.sessions[i]? with
      | none => (server, [])
      | some session =>
        if session.finished && !session.departed then
          ({ server with
              sessions := server.sessions.set i { session with departed := true }
              activeSessions := server.activeSessions - 1 }, [])
        else (server, [])
    | .session i event =>
      match server.sessions[i]? with
      | none => (server, [])
      | some session =>
        if session.finished then (server, [])
        else
          let outcome := session.step server.limits server.runtime server.stopping event
          ({ server with
              runtime := outcome.runtime
              sessions := server.sessions.set i outcome.session
              terminated := outcome.terminated },
            outcome.happenings.map fun h => (i, h))
    | .called call => ({ server with runtime := (server.runtime.call call).2 }, [])
    | .stopped => ({ server with stopping := true }, [])

/-- The steps of a run, with everything that happened. -/
def run : Server → List ServerEvent → Server × List Occurrence
  | server, [] => (server, [])
  | server, event :: events =>
    let first := server.step event
    let later := run first.1 events
    (later.1, first.2 ++ later.2)

end Server

/-! ## Histories -/

/-- The bytes a session received. -/
def receivedBytes (history : List Happening) : Bytes :=
  history.flatMap fun
    | .received bytes => bytes
    | _ => []

/-- The frames a session took from them. -/
def takenFrames (history : List Happening) : List Frame :=
  history.filterMap fun
    | .framed frame => some frame
    | _ => none

/-- What happened to the session in a place. -/
def historyOf (i : Nat) (log : List Occurrence) : List Happening :=
  (log.filter fun o => o.1 = i).map Prod.snd

@[simp]
theorem receivedBytes_append (h h' : List Happening) :
    receivedBytes (h ++ h') = receivedBytes h ++ receivedBytes h' := List.flatMap_append

@[simp]
theorem takenFrames_append (h h' : List Happening) :
    takenFrames (h ++ h') = takenFrames h ++ takenFrames h' := List.filterMap_append

@[simp]
theorem historyOf_append (i : Nat) (log log' : List Occurrence) :
    historyOf i (log ++ log') = historyOf i log ++ historyOf i log' := by
  rw [historyOf, List.filter_append, List.map_append]
  rfl

theorem historyOf_tagged (i : Nat) (happenings : List Happening) :
    historyOf i (happenings.map fun h => (i, h)) = happenings := by
  induction happenings with
  | nil => rfl
  | cons h happenings ih =>
    rw [List.map_cons, historyOf, List.filter_cons_of_pos (by simp), List.map_cons]
    exact congrArg (h :: ·) ih

theorem historyOf_tagged_ne {i j : Nat} (hij : j ≠ i) (happenings : List Happening) :
    historyOf i (happenings.map fun h => (j, h)) = [] := by
  rw [historyOf, List.filter_eq_nil_iff.mpr, List.map_nil]
  intro o ho
  obtain ⟨h, -, rfl⟩ := List.mem_map.mp ho
  simpa using hij

/-- Where an element of a list lies that was extended by one. -/
theorem snoc_eq_append_cons {α : Type} {xs before after : List α} {x y : α}
    (h : xs ++ [x] = before ++ y :: after) :
    (xs = before ∧ x = y) ∨ ∃ rest, xs = before ++ y :: rest := by
  rcases List.eq_nil_or_concat after with rfl | ⟨rest, z, rfl⟩
  · obtain ⟨hxs, hxy⟩ := List.append_inj' h rfl
    exact .inl ⟨hxs, (List.cons.inj hxy).1⟩
  · rw [List.concat_eq_append, ← List.cons_append, ← List.append_assoc] at h
    exact .inr ⟨rest, (List.append_inj' h rfl).1⟩

/-- What an execution rests on, in the history of its session before it. -/
structure Justified (limits : Limits) (epoch : UInt64) (before : List Happening) (frame : Frame)
    (request : Request) (current : UInt64) : Prop where
  /-- The frame asks for it. -/
  request : frame.request limits = some request
  /-- The bytes received are those of the frames that were taken, and a rest. -/
  received : ∃ rest, receivedBytes before = sendAll limits (takenFrames before) ++ rest
  /-- The frame was taken after a hello was accepted, under its handle and in its epoch. -/
  accepted : ∃ earlier between later, before
    = earlier ++ .accepted frame.header.session frame.header.epoch :: between
      ++ .framed frame :: later
  /-- It was the only hello that was accepted. -/
  unique : ∀ handle established, .accepted handle established ∈ before →
    handle = frame.header.session ∧ established = frame.header.epoch
  /-- Its epoch is that of the runtime. -/
  epoch : frame.header.epoch = current ∧ current = epoch
  /-- Its sequence is above every one that was executed. -/
  sequence : ∀ earlier request' current', .executed earlier request' current' ∈ before →
    earlier.header.sequence < frame.header.sequence
  /-- Nothing was refused. -/
  unrefused : .refused ∉ before

/-! ## The epoch of an incarnation -/

namespace PartitionRuntime

/-- **No operation changes the incarnation.** -/
theorem perform_incarnation (r : PartitionRuntime) (operation : Operation) :
    (r.perform operation).2.state.epoch = r.state.epoch ∧
      (r.perform operation).2.state.boot = r.state.boot := by
  by_cases hclose : operation = .close
  · subst hclose
    show r.close.state.epoch = _ ∧ r.close.state.boot = _
    rw [close]
    split <;> exact ⟨rfl, rfl⟩
  · have hphases := perform_phases r hclose
    rw [Phases] at hphases
    rcases hassessing : r.assessing operation with _ | ⟨allowRestore, a⟩
    · rw [hassessing] at hphases
      obtain ⟨_, _, hdrift⟩ := hphases
      exact ⟨hdrift.epoch, hdrift.boot⟩
    · rw [hassessing] at hphases
      obtain ⟨⟨_, _, hbefore⟩, ⟨_, _, hafter⟩⟩ := hphases
      have hassess := assessLocked_consulted (Prod.eta (assessLocked allowRestore a)).symm
      exact ⟨by rw [hafter.epoch, hassess.epoch, hbefore.epoch],
        by rw [hafter.boot, hassess.boot, hbefore.boot]⟩

theorem call_epoch (r : PartitionRuntime) (c : Call) :
    (r.call c).2.state.epoch = r.state.epoch := (perform_incarnation _ _).1

theorem call_boot (r : PartitionRuntime) (c : Call) :
    (r.call c).2.state.boot = r.state.boot := (perform_incarnation _ _).2

end PartitionRuntime

theorem Request.perform_epoch (request : Request) (limits : Limits)
    (faults : List (Option AppendFault)) (r : PartitionRuntime) :
    (request.perform limits faults r).2.state.epoch = r.state.epoch := by
  cases request with
  | operation wanted => exact r.call_epoch _
  | queryStatus | queryPartitions | queryFences | queryLineage => rfl

/-! ## Sound sessions -/

/-- A frame was taken after a hello was accepted under its handle and in its epoch. -/
def TakenAfterHello (history : List Happening) (frame : Frame) : Prop :=
  ∃ earlier between later, history
    = earlier ++ .accepted frame.header.session frame.header.epoch :: between
      ++ .framed frame :: later

theorem TakenAfterHello.append {history : List Happening} {frame : Frame}
    (h : TakenAfterHello history frame) (more : List Happening) :
    TakenAfterHello (history ++ more) frame := by
  obtain ⟨earlier, between, later, rfl⟩ := h
  exact ⟨earlier, between, later ++ more, by simp⟩

/-- What holds between a session and its history. -/
structure Session.Sound (limits : Limits) (epoch : UInt64) (history : List Happening)
    (session : Session) : Prop where
  buffer : receivedBytes history = sendAll limits (takenFrames history) ++ session.buffer
  established : session.established = true →
    session.epoch = epoch ∧ .accepted session.handle session.epoch ∈ history
  hello : ∀ handle current, .accepted handle current ∈ history →
    session.established = true ∧ handle = session.handle ∧ current = session.epoch
  pending : ∀ frame, session.pending = some frame →
    TakenAfterHello history frame ∧ session.established = true ∧
      frame.header.session = session.handle ∧ frame.header.epoch = session.epoch ∧
      frame.header.sequence = session.lastSequence ∧
      ∀ earlier request current, .executed earlier request current ∈ history →
        earlier.header.sequence < frame.header.sequence
  last : ∀ earlier request current, .executed earlier request current ∈ history →
    earlier.header.sequence ≤ session.lastSequence
  refused : .refused ∈ history → session.finished = true
  justified : ∀ before frame request current after,
    history = before ++ .executed frame request current :: after →
      Justified limits epoch before frame request current

namespace Session.Sound

variable {limits : Limits} {epoch : UInt64} {history : List Happening} {session session' : Session}

theorem initial : Sound limits epoch [] {} where
  buffer := rfl
  established := nofun
  hello := by simp
  pending := nofun
  last := by simp
  refused := nofun
  justified := by
    intro before frame request current after h
    simp at h

/-- What was executed stays justified while nothing is executed. -/
theorem justified_snoc (hs : Sound limits epoch history session) {happening : Happening}
    (hexecuted : ∀ frame request current, happening ≠ .executed frame request current)
    {before after : List Happening} {frame : Frame} {request : Request} {current : UInt64}
    (h : history ++ [happening] = before ++ .executed frame request current :: after) :
    Justified limits epoch before frame request current := by
  rcases snoc_eq_append_cons h with ⟨-, hlast⟩ | ⟨middle, hhistory⟩
  · exact absurd hlast (hexecuted _ _ _)
  · exact hs.justified before frame request current middle hhistory

/-- Nothing but an execution adds to what was executed. -/
theorem mem_of_mem_snoc {happening other : Happening} (hne : happening ≠ other)
    (h : other ∈ history ++ [happening]) : other ∈ history := by
  rcases List.mem_append.mp h with h | h
  · exact h
  · exact absurd (List.mem_singleton.mp h).symm hne

/-- A happening other than an execution or the acceptance of a hello. -/
theorem extend (hs : Sound limits epoch history session) {happening : Happening}
    (hexecuted : ∀ frame request current, happening ≠ .executed frame request current)
    (haccepted : ∀ handle current, happening ≠ .accepted handle current)
    (hbuffer : receivedBytes (history ++ [happening])
      = sendAll limits (takenFrames (history ++ [happening])) ++ session'.buffer)
    (hsame : session' = { session with
      buffer := session'.buffer, sent := session'.sent, finished := session'.finished })
    (hfinished : session.finished = true → session'.finished = true)
    (hrefused : happening = .refused → session'.finished = true) :
    Sound limits epoch (history ++ [happening]) session' := by
  refine ⟨hbuffer, ?_, ?_, ?_, ?_, ?_, fun _ _ _ _ _ h => hs.justified_snoc hexecuted h⟩
  · rw [hsame]
    exact fun h => ⟨(hs.established h).1, List.mem_append_left _ (hs.established h).2⟩
  · rw [hsame]
    exact fun handle current h => hs.hello _ _ (mem_of_mem_snoc (haccepted _ _) h)
  · rw [hsame]
    intro frame hframe
    obtain ⟨htaken, hestablished, hhandle, hepoch, hsequence, hbelow⟩ := hs.pending frame hframe
    exact ⟨htaken.append _, hestablished, hhandle, hepoch, hsequence,
      fun earlier request current h => hbelow _ _ _ (mem_of_mem_snoc (hexecuted _ _ _) h)⟩
  · rw [hsame]
    exact fun earlier request current h => hs.last _ _ _ (mem_of_mem_snoc (hexecuted _ _ _) h)
  · intro h
    rcases List.mem_append.mp h with h | h
    · exact hfinished (hs.refused h)
    · exact hrefused (List.mem_singleton.mp h).symm

/-- What the law of a session does not look at, and whether it has finished. -/
theorem settle (hs : Sound limits epoch history session) {sent : List Frame} {finished : Bool}
    (hfinished : session.finished = true → finished = true) :
    Sound limits epoch history { session with sent := sent, finished := finished } :=
  ⟨hs.buffer, hs.established, hs.hello, hs.pending, hs.last, fun h => hfinished (hs.refused h),
    hs.justified⟩

/-- The request is taken up. -/
theorem takeUp (hs : Sound limits epoch history session) :
    Sound limits epoch history { session with pending := none } :=
  ⟨hs.buffer, hs.established, hs.hello, nofun, hs.last, hs.refused, hs.justified⟩

/-- What is left of a request, and whether the thread was counted out. -/
theorem progress (hs : Sound limits epoch history session) {viewing : Option Frame}
    {departed : Bool} :
    Sound limits epoch history { session with viewing := viewing, departed := departed } :=
  ⟨hs.buffer, hs.established, hs.hello, hs.pending, hs.last, hs.refused, hs.justified⟩

/-- The last sequence advances while no request waits. -/
theorem advance (hs : Sound limits epoch history session) (hpending : session.pending = none)
    {sequence : UInt64} (hle : session.lastSequence ≤ sequence) :
    Sound limits epoch history { session with lastSequence := sequence } := by
  refine ⟨hs.buffer, hs.established, hs.hello, fun frame hframe => ?_, ?_, hs.refused, hs.justified⟩
  · rw [hpending] at hframe
    cases hframe
  · exact fun earlier request current h => UInt64.le_trans (hs.last _ _ _ h) hle

/-- A happening that moves no bytes. -/
theorem buffer_silent (hs : Sound limits epoch history session) {happening : Happening}
    (hbytes : receivedBytes [happening] = []) (hframes : takenFrames [happening] = []) :
    receivedBytes (history ++ [happening])
      = sendAll limits (takenFrames (history ++ [happening])) ++ session.buffer := by
  rw [receivedBytes_append, takenFrames_append, hbytes, hframes, List.append_nil, List.append_nil,
    hs.buffer]

/-- Bytes arrive. -/
theorem receive (hs : Sound limits epoch history session) (bytes : Bytes) :
    Sound limits epoch (history ++ [.received bytes])
      { session with buffer := session.buffer ++ bytes } := by
  refine hs.extend (by rintro _ _ _ ⟨⟩) (by rintro _ _ ⟨⟩) ?_ rfl id nofun
  rw [receivedBytes_append, takenFrames_append, hs.buffer, List.append_assoc,
    show receivedBytes [.received bytes] = bytes from List.append_nil bytes,
    show takenFrames [.received bytes] = [] from rfl, List.append_nil]

/-- A frame is taken off the buffer. -/
theorem take (hs : Sound limits epoch history session) {frame : Frame} {rest : Bytes}
    (hturn : turn limits session.buffer = .frame frame rest) :
    Sound limits epoch (history ++ [.framed frame]) { session with buffer := rest } := by
  have hbytes : session.buffer = encodeFrame frame limits ++ rest := by
    rw [turn] at hturn
    split at hturn
    · rename_i taken consumed hdecode
      obtain ⟨rfl, rfl⟩ := Turn.frame.inj hturn
      rw [(encodeFrame_of_decode hdecode).1, List.take_append_drop]
    · split at hturn <;> cases hturn
    · cases hturn
  have hsend : sendAll limits (takenFrames history ++ [frame])
      = sendAll limits (takenFrames history) ++ encodeFrame frame limits := by
    rw [sendAll, Frames.stream_append, Frames.stream_cons, Frames.stream_nil, List.append_nil]
    rfl
  refine hs.extend (by rintro _ _ _ ⟨⟩) (by rintro _ _ ⟨⟩) ?_ rfl id
    (fun hframe => by cases hframe)
  rw [receivedBytes_append, takenFrames_append, hs.buffer, hbytes,
    show receivedBytes [.framed frame] = [] from rfl,
    show takenFrames [.framed frame] = [frame] from rfl, List.append_nil, hsend,
    List.append_assoc]

/-- A refusal ends the session. -/
theorem refuse (hs : Sound limits epoch history session) {sent : List Frame} :
    Sound limits epoch (history ++ [.refused])
      { session with sent := sent, finished := true } :=
  hs.extend (by rintro _ _ _ ⟨⟩) (by rintro _ _ ⟨⟩) (hs.buffer_silent rfl rfl) rfl
    (fun _ => rfl) fun _ => rfl

/-- A hello is accepted, in the epoch of the runtime. -/
theorem accept (hs : Sound limits epoch history session) (hfresh : session.established = false)
    (handle : SessionHandle) (publisher : PublisherId) (boot : PublisherBootId) :
    Sound limits epoch (history ++ [.accepted handle epoch])
      { session with
        handle := handle
        publisher := publisher
        boot := boot
        epoch := epoch
        established := true } := by
  refine ⟨hs.buffer_silent rfl rfl, fun _ => ⟨rfl, ?_⟩, ?_, ?_, ?_, ?_, ?_⟩
  · exact List.mem_append_right _ (List.mem_singleton_self _)
  · intro other current h
    rcases List.mem_append.mp h with h | h
    · rw [(hs.hello _ _ h).1] at hfresh
      cases hfresh
    · cases List.mem_singleton.mp h
      exact ⟨rfl, rfl, rfl⟩
  · intro frame hframe
    rw [(hs.pending frame hframe).2.1] at hfresh
    cases hfresh
  · exact fun earlier request current h => hs.last _ _ _ (mem_of_mem_snoc (by rintro ⟨⟩) h)
  · exact fun h => hs.refused (mem_of_mem_snoc (by rintro ⟨⟩) h)
  · exact fun _ _ _ _ _ h => hs.justified_snoc (by rintro _ _ _ ⟨⟩) h

/-- The last frame taken passes the checks of an established session. -/
theorem pass {frame : Frame} (hs : Sound limits epoch (history ++ [.framed frame]) session)
    (hestablished : session.established = true) (hhandle : frame.header.session = session.handle)
    (hepoch : frame.header.epoch = session.epoch)
    (hsequence : session.lastSequence < frame.header.sequence) :
    Sound limits epoch (history ++ [.framed frame])
      { session with lastSequence := frame.header.sequence, pending := some frame } := by
  have htaken : TakenAfterHello (history ++ [.framed frame]) frame := by
    obtain ⟨-, haccepted⟩ := hs.established hestablished
    rw [← hhandle, ← hepoch] at haccepted
    rcases List.mem_append.mp haccepted with haccepted | haccepted
    · obtain ⟨earlier, between, rfl⟩ := List.append_of_mem haccepted
      exact ⟨earlier, between, [], rfl⟩
    · cases List.mem_singleton.mp haccepted
  have hbelow : ∀ earlier request current,
      .executed earlier request current ∈ history ++ [.framed frame] →
        earlier.header.sequence < frame.header.sequence :=
    fun earlier request current h => UInt64.lt_of_le_of_lt (hs.last _ _ _ h) hsequence
  refine ⟨hs.buffer, hs.established, hs.hello, ?_, ?_, hs.refused, hs.justified⟩
  · intro other hother
    obtain rfl := Option.some.inj hother
    exact ⟨htaken, hestablished, hhandle, hepoch, rfl, hbelow⟩
  · exact fun earlier request current h => UInt64.le_of_lt (hbelow earlier request current h)

/-- The request that passed the checks is executed. -/
theorem execute (hs : Sound limits epoch history session) (hfinished : session.finished = false)
    {frame : Frame} (hpending : session.pending = some frame) {request : Request}
    (hrequest : frame.request limits = some request) :
    Sound limits epoch (history ++ [.executed frame request epoch])
      { session with pending := none } := by
  obtain ⟨htaken, hestablished, hhandle, hepoch, hsequence, hbelow⟩ := hs.pending frame hpending
  have hcurrent : frame.header.epoch = epoch := hepoch.trans (hs.established hestablished).1
  have hunique : ∀ handle current, .accepted handle current ∈ history →
      handle = frame.header.session ∧ current = frame.header.epoch := by
    intro handle current h
    obtain ⟨-, rfl, rfl⟩ := hs.hello _ _ h
    exact ⟨hhandle.symm, hepoch.symm⟩
  have hunrefused : .refused ∉ history := by
    intro h
    rw [hs.refused h] at hfinished
    cases hfinished
  refine ⟨hs.buffer_silent rfl rfl, fun h => ?_, ?_, nofun, ?_, fun h => ?_, ?_⟩
  · exact ⟨(hs.established h).1, List.mem_append_left _ (hs.established h).2⟩
  · exact fun handle current h => hs.hello _ _ (mem_of_mem_snoc (by rintro ⟨⟩) h)
  · intro earlier request' current h
    rcases List.mem_append.mp h with h | h
    · exact hs.last _ _ _ h
    · cases List.mem_singleton.mp h
      exact UInt64.le_of_eq hsequence
  · rcases List.mem_append.mp h with h | h
    · exact hs.refused h
    · cases List.mem_singleton.mp h
  · intro before other request' current after h
    rcases snoc_eq_append_cons h with ⟨rfl, hlast⟩ | ⟨middle, hhistory⟩
    · cases hlast
      exact ⟨hrequest, ⟨_, hs.buffer⟩, htaken, hunique, ⟨hcurrent, rfl⟩, hbelow, hunrefused⟩
    · exact hs.justified before other request' current middle hhistory

end Session.Sound

/-! ## The steps of a session -/

namespace Session

/-- Sending only adds to what was sent. -/
theorem sendFrame_cases (limits : Limits) (delivered : Bool) (type : MessageType) (epoch : UInt64)
    (payload : Bytes) (session : Session) :
    ∃ sent, (session.sendFrame limits delivered type epoch payload).2
      = { session with sent := sent } := by
  rw [sendFrame]
  split
  · exact ⟨_, rfl⟩
  · split
    · exact ⟨_, rfl⟩
    · exact ⟨_, rfl⟩

theorem failSession_cases (limits : Limits) (delivered : Bool) (detail : String)
    (session : Session) :
    ∃ sent, session.failSession limits delivered detail
      = { session with sent := sent, finished := true } := by
  rw [failSession]
  generalize encodeOperationResult _ limits = payload
  obtain ⟨sent, hsent⟩ :=
    sendFrame_cases limits delivered .protocolError session.epoch payload session
  rw [hsent]
  exact ⟨sent, rfl⟩

/-- Answering only adds to what was sent, and may finish the session. -/
theorem respond_cases (limits : Limits) (delivered : Bool) (frame : Frame) (payload : Bytes)
    (session : Session) :
    ∃ sent finished, (session.respond limits delivered frame payload).1
        = { session with sent := sent, finished := finished } ∧
      ((session.respond limits delivered frame payload).2 = [] ∨
        finished = true ∧ (session.respond limits delivered frame payload).2 = [.refused]) := by
  rw [respond]
  rcases (MessageType.ofCode frame.header.type).bind MessageType.response with _ | type
  · obtain ⟨sent, hsent⟩ := failSession_cases limits delivered "the request has no response type"
      session
    exact ⟨sent, true, hsent, .inr ⟨rfl, rfl⟩⟩
  · obtain ⟨sent, hsent⟩ := sendFrame_cases limits delivered type session.epoch payload session
    dsimp only
    rw [hsent]
    exact ⟨sent, _, rfl, .inl rfl⟩

section Keeps

variable (limits : Limits) (r : PartitionRuntime) (delivered : Bool) (session : Session)

/-- What a turn of the loop leaves alone. -/
theorem serve_keeps (handle : SessionHandle) :
    (session.serve limits r handle delivered).1.viewing = session.viewing ∧
      (session.serve limits r handle delivered).1.departed = session.departed := by
  have hfail (session : Session) (detail : String) :
      (session.failSession limits delivered detail).viewing = session.viewing ∧
        (session.failSession limits delivered detail).departed = session.departed := by
    obtain ⟨sent, hsent⟩ := failSession_cases limits delivered detail session
    rw [hsent]
    exact ⟨rfl, rfl⟩
  rw [serve]
  rcases turn limits session.buffer with ⟨frame, rest⟩ | _ | _ | status
  · dsimp only
    split
    · rw [checkFrame]
      split
      · exact hfail { session with buffer := rest } _
      split
      · exact hfail { session with buffer := rest } _
      split
      · exact hfail { session with buffer := rest } _
      dsimp only
      split <;> exact ⟨rfl, rfl⟩
    · rw [greet]
      split
      · exact hfail { session with buffer := rest } _
      rcases decodeHelloRequest frame.payload with _ | hello
      · exact hfail { session with buffer := rest } _
      dsimp only
      split
      · obtain ⟨sent, hsent⟩ := sendFrame_cases limits delivered .helloAck r.state.epoch.value
          (encodeHelloResponse (rejection r) limits) { session with buffer := rest }
        rw [hsent]
        exact ⟨rfl, rfl⟩
      · obtain ⟨sent, hsent⟩ := sendFrame_cases limits delivered .helloAck r.state.epoch.value
          (encodeHelloResponse (acceptance r handle) limits)
          { session with
            buffer := rest
            handle := handle
            publisher := hello.publisher
            boot := hello.boot
            epoch := r.state.epoch.value
            established := true }
        rw [hsent]
        exact ⟨rfl, rfl⟩
  · exact ⟨rfl, rfl⟩
  · exact hfail session _
  · exact hfail session _

/-- A request that was handled no longer waits. -/
theorem handleRequest_keeps (faults : List (Option AppendFault)) (frame : Frame) :
    (session.handleRequest limits r faults delivered frame).session.pending = none ∧
      (session.handleRequest limits r faults delivered frame).session.departed
        = session.departed := by
  rw [handleRequest]
  dsimp only
  rcases frame.request limits with _ | request
  · obtain ⟨sent, hsent⟩ := failSession_cases limits delivered
      "the request type or payload is not supported" { session with pending := none }
    rw [hsent]
    exact ⟨rfl, rfl⟩
  · dsimp only
    rcases request.perform limits faults r with ⟨payload | _ | _, r'⟩
    · obtain ⟨sent, finished, hsession, -⟩ :=
        respond_cases limits delivered frame payload { session with pending := none }
      dsimp only
      rw [hsession]
      exact ⟨rfl, rfl⟩
    · exact ⟨rfl, rfl⟩
    · exact ⟨rfl, rfl⟩

theorem viewAssessment_keeps (frame : Frame) :
    (session.viewAssessment limits r delivered frame).session.pending = session.pending ∧
      (session.viewAssessment limits r delivered frame).session.departed = session.departed := by
  rw [viewAssessment]
  generalize encodeAssessmentView _ limits = payload
  obtain ⟨sent, finished, hsession, -⟩ :=
    respond_cases limits delivered frame payload { session with viewing := none }
  dsimp only
  rw [hsession]
  exact ⟨rfl, rfl⟩

end Keeps

namespace Sound

variable {limits : Limits} {epoch : UInt64} {history : List Happening} {session : Session}
  {r : PartitionRuntime}

theorem failSession (hs : Sound limits epoch history session) (delivered : Bool) (detail : String) :
    Sound limits epoch (history ++ [.refused]) (session.failSession limits delivered detail) := by
  obtain ⟨sent, hsent⟩ := failSession_cases limits delivered detail session
  rw [hsent]
  exact hs.refuse

/-- A turn on a frame before the handshake. -/
theorem greet (hs : Sound limits epoch history session) (hfinished : session.finished = false)
    (hfresh : session.established = false) (hepoch : r.state.epoch.value = epoch)
    (handle : SessionHandle) (delivered : Bool)
    (frame : Frame) :
    Sound limits epoch (history ++ (session.greet limits r handle delivered frame).2)
      (session.greet limits r handle delivered frame).1 := by
  rw [Session.greet]
  split
  · exact hs.failSession delivered _
  · rcases decodeHelloRequest frame.payload with _ | hello
    · exact hs.failSession delivered _
    · dsimp only
      split
      · obtain ⟨sent, hsent⟩ := sendFrame_cases limits delivered .helloAck r.state.epoch.value
          (encodeHelloResponse (rejection r) limits) session
        dsimp only
        rw [hsent]
        exact hs.refuse
      · rw [hepoch]
        obtain ⟨sent, hsent⟩ := sendFrame_cases limits delivered .helloAck epoch
          (encodeHelloResponse (acceptance r handle) limits)
          { session with
            handle := handle
            publisher := hello.publisher
            boot := hello.boot
            epoch := epoch
            established := true }
        dsimp only
        rw [hsent]
        exact (hs.accept hfresh handle hello.publisher hello.boot).settle fun h => by
          rw [hfinished] at h
          cases h

/-- The checks on the frame that was taken last. -/
theorem checkFrame {frame : Frame} (hs : Sound limits epoch (history ++ [.framed frame]) session)
    (hpending : session.pending = none) (hestablished : session.established = true)
    (delivered : Bool) :
    Sound limits epoch (history ++ [.framed frame] ++ (session.checkFrame limits r delivered frame).2)
      (session.checkFrame limits r delivered frame).1 := by
  rw [Session.checkFrame]
  split
  · exact hs.failSession delivered _
  rename_i hhandle
  split
  · exact hs.failSession delivered _
  rename_i hepochs
  split
  · exact hs.failSession delivered _
  rename_i hsequence
  rw [not_not] at hhandle
  rw [UInt64.not_le] at hsequence
  dsimp only
  split
  · rw [List.append_nil]
    exact (hs.advance hpending (UInt64.le_of_lt hsequence)).settle fun _ => rfl
  · rw [List.append_nil]
    exact hs.pass hestablished hhandle (not_not.mp (not_or.mp hepochs).1) hsequence

/-- **A turn of the loop.** -/
theorem serve (hs : Sound limits epoch history session) (hfinished : session.finished = false)
    (hpending : session.pending = none) (hepoch : r.state.epoch.value = epoch)
    (handle : SessionHandle) (delivered : Bool) :
    Sound limits epoch (history ++ (session.serve limits r handle delivered).2)
      (session.serve limits r handle delivered).1 := by
  rw [Session.serve]
  rcases hturn : turn limits session.buffer with ⟨frame, rest⟩ | _ | _ | status
  · have htaken := hs.take hturn
    dsimp only
    rw [← List.singleton_append, ← List.append_assoc]
    split
    · rename_i hestablished
      exact htaken.checkFrame hpending hestablished delivered
    · rename_i hfresh
      exact htaken.greet hfinished (Bool.eq_false_iff.mpr hfresh) hepoch handle delivered frame
  · rw [List.append_nil]
    exact hs
  · exact hs.failSession delivered _
  · exact hs.failSession delivered _

/-- The answer to a request. -/
theorem respond (hs : Sound limits epoch history session) (hfinished : session.finished = false)
    (delivered : Bool) (frame : Frame) (payload : Bytes) :
    Sound limits epoch (history ++ (session.respond limits delivered frame payload).2)
      (session.respond limits delivered frame payload).1 := by
  obtain ⟨sent, finished, hsession, hsame | ⟨rfl, hsame⟩⟩ :=
    respond_cases limits delivered frame payload session
  · rw [hsession, hsame, List.append_nil]
    exact hs.settle fun h => by
      rw [hfinished] at h
      cases h
  · rw [hsession, hsame]
    exact hs.refuse

/-- **Handling a request.** -/
theorem handle (hs : Sound limits epoch history session) (hfinished : session.finished = false)
    (hepoch : r.state.epoch.value = epoch) {frame : Frame} (hpending : session.pending = some frame)
    (faults : List (Option AppendFault)) (delivered : Bool) :
    Sound limits epoch
        (history ++ (session.handleRequest limits r faults delivered frame).happenings)
        (session.handleRequest limits r faults delivered frame).session ∧
      (session.handleRequest limits r faults delivered frame).runtime.state.epoch
        = r.state.epoch := by
  rw [Session.handleRequest]
  dsimp only
  rcases hrequest : frame.request limits with _ | request
  · exact ⟨hs.takeUp.failSession delivered _, rfl⟩
  · have hexecuted := hs.execute hfinished hpending hrequest
    have hsame := request.perform_epoch limits faults r
    rw [hepoch]
    dsimp only
    rcases hdone : request.perform limits faults r with ⟨payload | _ | _, r'⟩
    · rw [hdone] at hsame
      have hanswered := hexecuted.respond hfinished delivered frame payload
      rw [List.append_assoc] at hanswered
      exact ⟨hanswered, hsame⟩
    · rw [hdone] at hsame
      exact ⟨hexecuted.progress, hsame⟩
    · rw [hdone] at hsame
      exact ⟨hexecuted, hsame⟩

/-- Answering a request to assess. -/
theorem viewAssessment (hs : Sound limits epoch history session)
    (hfinished : session.finished = false) (delivered : Bool) (frame : Frame) :
    Sound limits epoch
        (history ++ (session.viewAssessment limits r delivered frame).happenings)
        (session.viewAssessment limits r delivered frame).session ∧
      (session.viewAssessment limits r delivered frame).runtime.state.epoch = r.state.epoch := by
  rw [Session.viewAssessment]
  generalize encodeAssessmentView _ limits = payload
  have hprogress : Sound limits epoch history { session with viewing := none } := hs.progress
  exact ⟨hprogress.respond hfinished delivered frame payload, rfl⟩

/-- **A step of a session.** -/
theorem step (hs : Sound limits epoch history session) (hfinished : session.finished = false)
    (hepoch : r.state.epoch.value = epoch) (stopping : Bool) (event : SessionEvent) :
    Sound limits epoch (history ++ (session.step limits r stopping event).happenings)
        (session.step limits r stopping event).session ∧
      (session.step limits r stopping event).runtime.state.epoch = r.state.epoch := by
  have hstay : Sound limits epoch (history ++ []) session := by rwa [List.append_nil]
  have hend : Sound limits epoch (history ++ []) { session with finished := true } :=
    hstay.settle fun _ => rfl
  unfold Session.step
  rcases hpending : session.pending with _ | frame
  · rw [hpending] at hend
    rcases hviewing : session.viewing with _ | viewed
    · rw [hviewing] at hend
      rcases event with chunk | _ | ⟨handle, delivered⟩ | ⟨faults, delivered⟩ | delivered
      · have hreceived := hs.receive chunk.bytes
        rw [hpending, hviewing] at hreceived
        dsimp only
        split
        · exact ⟨hreceived, rfl⟩
        · exact ⟨hstay, rfl⟩
      · dsimp only
        split
        · exact ⟨hend, rfl⟩
        · exact ⟨hstay, rfl⟩
      · dsimp only
        split
        · exact ⟨hend, rfl⟩
        · exact ⟨hs.serve hfinished hpending hepoch _ _, rfl⟩
      · exact ⟨hstay, rfl⟩
      · exact ⟨hstay, rfl⟩
    · rcases event with chunk | _ | ⟨handle, delivered⟩ | ⟨faults, delivered⟩ | delivered
      · exact ⟨hstay, rfl⟩
      · exact ⟨hstay, rfl⟩
      · exact ⟨hstay, rfl⟩
      · exact ⟨hstay, rfl⟩
      · exact hs.viewAssessment hfinished delivered viewed
  · rcases event with chunk | _ | ⟨handle, delivered⟩ | ⟨faults, delivered⟩ | delivered
    · exact ⟨hstay, rfl⟩
    · exact ⟨hstay, rfl⟩
    · exact ⟨hstay, rfl⟩
    · exact hs.handle hfinished hepoch hpending _ _
    · exact ⟨hstay, rfl⟩

end Sound

end Session

/-! ## Runs of the server -/

namespace Server

theorem run_append (server : Server) (events later : List ServerEvent) :
    (server.run (events ++ later)).1 = ((server.run events).1.run later).1 := by
  induction events generalizing server with
  | nil => rfl
  | cons event events ih => exact ih (server.step event).1

/-- The log of a run. -/
theorem run_log_append (server : Server) (events later : List ServerEvent) :
    (server.run (events ++ later)).2
      = (server.run events).2 ++ ((server.run events).1.run later).2 := by
  induction events generalizing server with
  | nil => rfl
  | cons event events ih =>
    show (server.step event).2 ++ ((server.step event).1.run (events ++ later)).2 = _
    rw [ih, ← List.append_assoc]
    rfl

/-- A condition on a step and the state it is taken in, at every step of a run. -/
def Throughout (C : Server → ServerEvent → Prop) (server : Server) (events : List ServerEvent) :
    Prop :=
  ∀ before event after, events = before ++ event :: after → C (server.run before).1 event

theorem throughout_nil (C : Server → ServerEvent → Prop) (server : Server) :
    Throughout C server [] := by
  intro before event after h
  simp at h

theorem throughout_cons {C : Server → ServerEvent → Prop} {server : Server} {event : ServerEvent}
    {events : List ServerEvent} :
    Throughout C server (event :: events) ↔
      C server event ∧ Throughout C (server.step event).1 events := by
  refine ⟨fun h => ⟨h [] event events rfl, fun before later after heq => ?_⟩, ?_⟩
  · exact h (event :: before) later after (congrArg (event :: ·) heq)
  · rintro ⟨hfirst, hrest⟩ before later after heq
    rcases before with _ | ⟨first, before⟩
    · cases heq
      exact hfirst
    · cases heq
      exact hrest before later after rfl

/-- What holds between each session and its history. -/
structure Each (P : List Happening → Session → Prop) (log : List Occurrence) (server : Server) :
    Prop where
  sessions : ∀ (i : Nat) (session : Session), server.sessions[i]? = some session →
    P (historyOf i log) session
  unborn : ∀ i, server.sessions.length ≤ i → historyOf i log = []

variable {P : List Happening → Session → Prop} {log : List Occurrence} {server : Server}

theorem Each.of_sessions {server' : Server} (h : server.Each P log)
    (hsessions : server'.sessions = server.sessions) : server'.Each P log := by
  refine ⟨?_, ?_⟩
  · rw [hsessions]
    exact h.sessions
  · rw [hsessions]
    exact h.unborn

/-- One session moves on. -/
theorem Each.replace (h : server.Each P log) {i : Nat} {session session' : Session}
    (hsession : server.sessions[i]? = some session) {happenings : List Happening}
    (hP : P (historyOf i log ++ happenings) session') {server' : Server}
    (hsessions : server'.sessions = server.sessions.set i session') :
    server'.Each P (log ++ happenings.map fun h => (i, h)) := by
  have hi := (List.getElem?_eq_some_iff.mp hsession).1
  refine ⟨fun j other hother => ?_, fun j hj => ?_⟩
  · rw [hsessions] at hother
    rw [historyOf_append]
    by_cases hij : i = j
    · subst hij
      rw [historyOf_tagged]
      rw [List.getElem?_set_self hi] at hother
      obtain rfl := Option.some.inj hother
      exact hP
    · rw [historyOf_tagged_ne hij, List.append_nil]
      rw [List.getElem?_set_ne hij] at hother
      exact h.sessions j other hother
  · rw [hsessions, List.length_set] at hj
    rw [historyOf_append, h.unborn j hj, historyOf_tagged_ne (by omega)]
    rfl

/-- A session is new. -/
theorem Each.spawn (h : server.Each P log) (hnew : P [] {}) {server' : Server}
    (hsessions : server'.sessions = server.sessions ++ [({} : Session)]) : server'.Each P log := by
  refine ⟨fun i session hsession => ?_, fun i hi => h.unborn i ?_⟩
  · rw [hsessions] at hsession
    rcases Nat.lt_or_ge i server.sessions.length with hi | hi
    · rw [List.getElem?_append_left hi] at hsession
      exact h.sessions i session hsession
    · rw [List.getElem?_append_right hi, List.getElem?_singleton] at hsession
      rw [h.unborn i hi]
      split at hsession
      · obtain rfl := Option.some.inj hsession
        exact hnew
      · cases hsession
  · rw [hsessions, List.length_append] at hi
    omega

/-- The step of a session that is taken. -/
structure Takes (server : Server) (event : ServerEvent) (i : Nat) (session : Session)
    (e : SessionEvent) : Prop where
  event : event = .session i e
  runs : server.terminated = false
  found : server.sessions[i]? = some session
  unfinished : session.finished = false

/-- **One step**: what the steps of a session keep. -/
theorem Each.step (h : server.Each P log) (hnew : P [] {})
    (hdeparted : ∀ history session, P history session →
      P history { session with departed := true })
    (event : ServerEvent)
    (hstep : ∀ i session e, server.Takes event i session e → P (historyOf i log) session →
      P (historyOf i log
          ++ (session.step server.limits server.runtime server.stopping e).happenings)
        (session.step server.limits server.runtime server.stopping e).session) :
    (server.step event).1.Each P (log ++ (server.step event).2) := by
  have hstay : server.Each P (log ++ []) := by rwa [List.append_nil]
  unfold Server.step
  split
  · exact hstay
  rename_i hruns
  rcases event with _ | _ | _ | _ | ⟨i, event⟩ | i | call | _ <;> dsimp only
  · split
    · exact hstay.of_sessions rfl
    · exact hstay
  · split
    · exact hstay.of_sessions rfl
    · exact hstay
  · split
    · split
      · exact hstay.of_sessions rfl
      · exact hstay.of_sessions rfl
    · exact hstay
  · split
    · exact hstay.spawn hnew rfl
    · exact hstay
  · rcases hsession : server.sessions[i]? with _ | session
    · exact hstay
    · dsimp only
      split
      · exact hstay
      rename_i hfinished
      have htakes : server.Takes (.session i event) i session event :=
        ⟨rfl, Bool.eq_false_iff.mpr hruns, hsession, Bool.eq_false_iff.mpr hfinished⟩
      exact h.replace hsession (hstep i session event htakes (h.sessions i session hsession)) rfl
  · rcases hsession : server.sessions[i]? with _ | session
    · exact hstay
    · dsimp only
      split
      · have hP : P (historyOf i log ++ []) { session with departed := true } := by
          rw [List.append_nil]
          exact hdeparted _ _ (h.sessions i session hsession)
        exact h.replace hsession hP rfl
      · exact hstay
  · exact hstay.of_sessions rfl
  · exact hstay.of_sessions rfl

/-- A server keeps its limits. -/
theorem step_limits (event : ServerEvent) : (server.step event).1.limits = server.limits := by
  unfold Server.step
  split
  · rfl
  split
  · split <;> rfl
  · split <;> rfl
  · split
    · split <;> rfl
    · rfl
  · split <;> rfl
  · split
    · rfl
    · split <;> rfl
  · split
    · rfl
    · split <;> rfl
  · rfl
  · rfl

/-- **A run**: what the steps keep under a condition that holds at each of them. -/
theorem Each.run {limits : Limits} (h : server.Each P log) (hlimits : server.limits = limits)
    (hnew : P [] {})
    (hdeparted : ∀ history session, P history session →
      P history { session with departed := true })
    {C : Server → ServerEvent → Prop} {events : List ServerEvent} (hC : Throughout C server events)
    (hstep : ∀ (server : Server) event history i session e, server.limits = limits →
      C server event → server.Takes event i session e → P history session →
      P (history ++ (session.step limits server.runtime server.stopping e).happenings)
        (session.step limits server.runtime server.stopping e).session) :
    (server.run events).1.Each P (log ++ (server.run events).2) := by
  induction events generalizing server log with
  | nil =>
    rw [Server.run, List.append_nil]
    exact h
  | cons event events ih =>
    obtain ⟨hfirst, hrest⟩ := throughout_cons.mp hC
    have hnext := h.step hnew hdeparted event fun i session e htakes hP => by
      rw [hlimits]
      exact hstep server event _ i session e hlimits hfirst htakes hP
    have hlater := ih hnext ((server.step_limits event).trans hlimits) hrest
    rw [List.append_assoc] at hlater
    exact hlater

/-- A step of a server does to the runtime what one of its sessions or its process does. -/
theorem step_runtime (event : ServerEvent) :
    (server.step event).1.runtime = server.runtime ∨
      (∃ i session e, server.Takes event i session e ∧ (server.step event).1.runtime
        = (session.step server.limits server.runtime server.stopping e).runtime) ∨
      ∃ call, event = .called call ∧ (server.step event).1.runtime = (server.runtime.call call).2 := by
  unfold Server.step
  split
  · exact .inl rfl
  rename_i hruns
  split
  · split <;> exact .inl rfl
  · split <;> exact .inl rfl
  · split
    · split <;> exact .inl rfl
    · exact .inl rfl
  · split <;> exact .inl rfl
  · split
    · exact .inl rfl
    · split <;> exact .inl rfl
  · rename_i i e
    split
    · exact .inl rfl
    · rename_i session hsession
      split
      · exact .inl rfl
      · rename_i hfinished
        exact .inr (.inl ⟨i, session, e,
          ⟨rfl, Bool.eq_false_iff.mpr hruns, hsession, Bool.eq_false_iff.mpr hfinished⟩, rfl⟩)
  · rename_i call
    exact .inr (.inr ⟨call, rfl, rfl⟩)
  · exact .inl rfl

/-- What holds between the server and everything that happened. -/
structure Sound (limits : Limits) (epoch : UInt64) (log : List Occurrence) (server : Server) :
    Prop where
  bound : server.limits = limits
  current : server.runtime.state.epoch.value = epoch
  sessions : ∀ (i : Nat) (session : Session), server.sessions[i]? = some session →
    session.Sound limits epoch (historyOf i log)
  unborn : ∀ i, server.sessions.length ≤ i → historyOf i log = []

variable {limits : Limits} {epoch : UInt64}

/-- **One step of the process.** -/
theorem Sound.step (h : server.Sound limits epoch log) (event : ServerEvent) :
    Sound limits epoch (log ++ (server.step event).2) (server.step event).1 := by
  obtain rfl := h.bound
  have heach : server.Each (Session.Sound server.limits epoch) log := ⟨h.sessions, h.unborn⟩
  have hlater := heach.step .initial (fun _ _ hs => hs.progress) event
    fun i session e htakes hs => (hs.step htakes.unfinished h.current server.stopping e).1
  refine ⟨server.step_limits event, ?_, hlater.sessions, hlater.unborn⟩
  rw [← h.current]
  rcases server.step_runtime event with hruntime | ⟨i, session, e, htakes, hruntime⟩ |
    ⟨call, rfl, hruntime⟩
  · rw [hruntime]
  · rw [hruntime]
    exact congrArg Counter.value ((h.sessions i session htakes.found).step htakes.unfinished
      h.current server.stopping e).2
  · rw [hruntime]
    exact congrArg Counter.value (server.runtime.call_epoch call)

/-- **A run**: by induction on the steps. -/
theorem Sound.run (h : server.Sound limits epoch log) (events : List ServerEvent) :
    Sound limits epoch (log ++ (server.run events).2) (server.run events).1 := by
  induction events generalizing server log with
  | nil =>
    rw [Server.run, List.append_nil]
    exact h
  | cons event events ih =>
    have hlater := ih (h.step event)
    rw [List.append_assoc] at hlater
    exact hlater

/-- A server on a runtime, before any connection. -/
def started (runtime : PartitionRuntime) (limits : Limits) : Server where
  runtime := runtime
  limits := limits

theorem started_each (P : List Happening → Session → Prop) (runtime : PartitionRuntime)
    (limits : Limits) : (started runtime limits).Each P [] :=
  ⟨fun _ _ h => by simp [started] at h, fun _ _ => rfl⟩

theorem started_sound (runtime : PartitionRuntime) (limits : Limits) :
    (started runtime limits).Sound limits runtime.state.epoch.value [] :=
  ⟨rfl, rfl, fun _ _ h => by simp [started] at h, fun _ _ => rfl⟩

/-- No handle was drawn for two sessions. -/
def DistinctHandles (log : List Occurrence) : Prop :=
  ∀ i j handle current current', (i, .accepted handle current) ∈ log →
    (j, .accepted handle current') ∈ log → i = j

/-- **Session binding.**  In every run of a server, whatever its sessions receive and in whatever
order its threads run, every operation that is executed for a session comes from a frame that was
taken from the bytes of that session after its hello was accepted.  The frame names the handle of
that session, and of no other if the handles are distinct, and an epoch that is the one recorded at
the hello and that of the runtime; its sequence is above those executed for the session before; and
nothing was refused before. -/
theorem sessions_bound (runtime : PartitionRuntime) (limits : Limits) (events : List ServerEvent)
    {before after : List Occurrence} {i : Nat} {frame : Frame} {request : Request}
    {current : UInt64} (h : ((started runtime limits).run events).2
      = before ++ (i, .executed frame request current) :: after) :
    Justified limits runtime.state.epoch.value (historyOf i before) frame request current ∧
      (DistinctHandles before → ∀ j established,
        (j, .accepted frame.header.session established) ∈ before → j = i) := by
  have hsound := (started_sound runtime limits).run events
  rw [List.nil_append, h] at hsound
  have hhistory : historyOf i (before ++ (i, .executed frame request current) :: after)
      = historyOf i before ++ .executed frame request current :: historyOf i after := by
    rw [historyOf_append, historyOf, historyOf, List.filter_cons_of_pos (by simp)]
    rfl
  have hborn : i < ((started runtime limits).run events).1.sessions.length := by
    by_contra hi
    have hnil := hsound.unborn i (Nat.not_lt.mp hi)
    rw [hhistory] at hnil
    simp at hnil
  have hsession := hsound.sessions i _ (List.getElem?_eq_getElem hborn)
  have hjustified := hsession.justified _ _ _ _ _ hhistory
  refine ⟨hjustified, fun hdistinct j established hj => ?_⟩
  obtain ⟨earlier, between, later, haccepted⟩ := hjustified.accepted
  have hown : .accepted frame.header.session frame.header.epoch ∈ historyOf i before := by
    rw [haccepted]
    simp
  obtain ⟨⟨k, -⟩, hk, rfl⟩ := List.mem_map.mp hown
  obtain ⟨hmem, hki⟩ := List.mem_filter.mp hk
  obtain rfl : k = i := by simpa using hki
  exact hdistinct _ _ _ _ _ hj hmem

end Server

/-- A hello for any epoch. -/
def helloFrame : Frame :=
  ⟨{ version := 1, type := MessageType.hello.code },
    encodeHelloRequest ⟨named _ "p", default, .zero, .nil⟩⟩

/-- A request to assess, in the first epoch and under the handle of zeros. -/
def assessRequest : Frame :=
  ⟨{ version := 1, type := MessageType.assess.code, sequence := 1, epoch := 1 }, []⟩

theorem helloFrame_encoded : encodeFrame helloFrame {} ≠ [] := by decide +kernel

theorem assessRequest_encoded : encodeFrame assessRequest {} ≠ [] := by decide +kernel

/-- A session is established, and asks for an assessment. -/
def assessedOnce : List ServerEvent :=
  [.looped, .connected, .counted, .spawned,
    .session 0 (.received ⟨encodeFrame helloFrame {}, helloFrame_encoded⟩),
    .session 0 (.served default true),
    .session 0 (.received ⟨encodeFrame assessRequest {}, assessRequest_encoded⟩),
    .session 0 (.served default true), .session 0 (.handled [] true)]

/-- What happened before the assessment. -/
def beforeAssessment : List Occurrence :=
  [(0, .received (encodeFrame helloFrame {})), (0, .framed helloFrame.sent),
    (0, .accepted default 1), (0, .received (encodeFrame assessRequest {})),
    (0, .framed assessRequest.sent)]

theorem assessment_bound :
    Justified {} 1 (historyOf 0 beforeAssessment) assessRequest.sent (.operation .assess) 1 :=
  have hrun : ((Server.started smallRuntime {}).run assessedOnce).2
      = beforeAssessment ++ (0, .executed assessRequest.sent (.operation .assess) 1) :: [] := by
    decide +kernel
  (Server.sessions_bound smallRuntime {} assessedOnce hrun).1

end FabricPartition
