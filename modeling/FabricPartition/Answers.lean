import FabricPartition.Service

/-!
# Requests and their answers

What the thread of a session does with a request it has accepted takes one step, and a second one if
the request is to assess: the operation and the queries of its answer are separate calls.  The rest of
the server goes on between them (`Elsewhere`).

Every request is answered by exactly one frame **if and only if the answer fits into a frame and
nothing throws** (`requests_answered_iff`).  The answer to a request to assess describes the
assessment it made **if no other assessment is completed between the two steps**
(`assessment_described`).
-/

set_option autoImplicit false

namespace FabricPartition

/-! ## The rest of the server -/

namespace Server

/-- An event of another thread than that of a session. -/
def Elsewhere (i : Nat) (event : ServerEvent) : Prop := ∀ e, event ≠ .session i e

theorem elsewhere_singleton {i j : Nat} {e : SessionEvent} (h : j ≠ i) :
    ∀ event ∈ [ServerEvent.session j e], Elsewhere i event := by
  intro event hevent e' he
  rw [List.mem_singleton.mp hevent] at he
  cases he
  exact h rfl

/-- What the other threads leave of a session: everything, but that it may be counted out. -/
def Holds (server : Server) (i : Nat) (session : Session) : Prop :=
  ∃ departed, server.sessions[i]? = some { session with departed := departed }

variable {server : Server} {i : Nat} {session : Session}

theorem Holds.of_found (h : server.sessions[i]? = some session) : server.Holds i session :=
  ⟨session.departed, h⟩

theorem Holds.set (h : server.Holds i session) {j : Nat} (hij : j ≠ i) {other : Session}
    {server' : Server} (hsessions : server'.sessions = server.sessions.set j other) :
    server'.Holds i session := by
  obtain ⟨departed, h⟩ := h
  refine ⟨departed, ?_⟩
  rw [hsessions, List.getElem?_set_ne hij]
  exact h

/-- **A step of another thread.** -/
theorem Holds.step (h : server.Holds i session) {event : ServerEvent} (helse : Elsewhere i event) :
    (server.step event).1.Holds i session := by
  unfold Server.step
  split
  · exact h
  rcases event with _ | _ | _ | _ | ⟨j, event⟩ | j | call | _ <;> dsimp only
  · split
    · exact h
    · exact h
  · split
    · exact h
    · exact h
  · split
    · split
      · exact h
      · exact h
    · exact h
  · split
    · obtain ⟨departed, h⟩ := h
      exact ⟨departed, (List.getElem?_append_left (List.getElem?_eq_some_iff.mp h).1).trans h⟩
    · exact h
  · have hij : j ≠ i := by
      rintro rfl
      exact helse event rfl
    rcases server.sessions[j]? with _ | other
    · exact h
    · dsimp only
      split
      · exact h
      · exact h.set hij rfl
  · by_cases hij : j = i
    · subst hij
      obtain ⟨departed, hfound⟩ := h
      rw [hfound]
      dsimp only
      split
      · exact ⟨true, List.getElem?_set_self (List.getElem?_eq_some_iff.mp hfound).1⟩
      · exact ⟨departed, hfound⟩
    · rcases server.sessions[j]? with _ | other
      · exact h
      · dsimp only
        split
        · exact h.set hij rfl
        · exact h
  · exact h
  · exact h

/-- **The other threads**: by induction on their steps. -/
theorem Holds.run (h : server.Holds i session) {events : List ServerEvent}
    (helse : ∀ event ∈ events, Elsewhere i event) : (server.run events).1.Holds i session := by
  induction events generalizing server with
  | nil => exact h
  | cons event events ih =>
    exact ih (h.step (helse event List.mem_cons_self)) fun e he =>
      helse e (List.mem_cons_of_mem event he)

theorem run_limits (server : Server) (events : List ServerEvent) :
    (server.run events).1.limits = server.limits := by
  induction events generalizing server with
  | nil => rfl
  | cons event events ih => exact (ih _).trans (server.step_limits event)

/-- A process that has terminated goes on no more. -/
theorem run_terminated {server : Server} (h : server.terminated = true)
    (events : List ServerEvent) : (server.run events).1 = server := by
  induction events with
  | nil => rfl
  | cons event events ih =>
    have hstep : (server.step event).1 = server := by
      unfold Server.step
      rw [if_pos h]
    show ((server.step event).1.run events).1 = server
    rw [hstep]
    exact ih

/-- A step of the thread of the session, in a process that goes on. -/
theorem Holds.step_session (h : server.Holds i session) (hruns : server.terminated = false)
    (hfinished : session.finished = false) (e : SessionEvent) :
    ∃ departed, (server.step (.session i e)).1.Holds i
        (({ session with departed := departed } : Session).step server.limits server.runtime
          server.stopping e).session ∧
      (server.step (.session i e)).1.runtime
        = (({ session with departed := departed } : Session).step server.limits server.runtime
          server.stopping e).runtime ∧
      (server.step (.session i e)).1.terminated
        = (({ session with departed := departed } : Session).step server.limits server.runtime
          server.stopping e).terminated := by
  obtain ⟨departed, hfound⟩ := h
  refine ⟨departed, ?_⟩
  unfold Server.step
  rw [if_neg (by simp [hruns])]
  dsimp only
  rw [hfound]
  dsimp only
  rw [if_neg (by simp [hfinished])]
  exact ⟨.of_found (List.getElem?_set_self (List.getElem?_eq_some_iff.mp hfound).1), rfl, rfl⟩

/-- The thread of a session that has finished takes no step. -/
theorem Holds.step_finished (h : server.Holds i session) (hfinished : session.finished = true)
    (e : SessionEvent) : (server.step (.session i e)).1.Holds i session := by
  obtain ⟨departed, hfound⟩ := h
  refine ⟨departed, ?_⟩
  unfold Server.step
  split
  · exact hfound
  · dsimp only
    rw [hfound]
    dsimp only
    rw [if_pos (by simp [hfinished])]
    exact hfound

end Server

/-! ## Answers -/

/-- The payload leaves room for the header and the trailer of its frame. -/
def FitsFrame (limits : Limits) (payload : Bytes) : Prop :=
  payload.length + frameOverheadBytes ≤ limits.maxFrameBytes

/-- A frame that answers another: it bears the matching response type, or reports an error. -/
def AnswersTo (frame reply : Frame) : Prop :=
  reply.header.type = MessageType.protocolError.code ∨
    ∃ type, (MessageType.ofCode frame.header.type).bind MessageType.response = some type ∧
      reply.header.type = type.code

theorem messageTypeInDomain_code (type : MessageType) : messageTypeInDomain type.code = true := by
  cases type <;> rfl

/-- The frames the server builds are refused for their size only. -/
theorem encodeFrame_eq_nil_iff {frame : Frame} {limits : Limits} (type : MessageType)
    (htype : frame.header.type = type.code) (hflags : frame.header.flags = 1)
    (hreserved : frame.header.reserved = 0) :
    encodeFrame frame limits = [] ↔ ¬ FitsFrame limits frame.payload := by
  rw [← not_iff_not, not_not]
  refine encodeFrame_ne_nil_iff.trans ⟨fun h => h.size, fun h => ⟨h, ?_, ?_, hreserved⟩⟩
  · rw [htype]
    exact messageTypeInDomain_code type
  · rw [hflags]
    decide

/-- A request that is supported has a response type. -/
theorem Frame.response_of_request {frame : Frame} {limits : Limits} {request : Request}
    (h : frame.request limits = some request) :
    ∃ type, (MessageType.ofCode frame.header.type).bind MessageType.response = some type := by
  rw [Frame.request, Option.bind_eq_some_iff] at h
  obtain ⟨type, htype, hrequest⟩ := h
  rw [htype, Option.bind_some]
  rcases type with _ | _ | _ | _ | _ | _ | _ | _ | _ | _ | _ | _ | _ | _ | _ | _ | _ | _ | _ | _ | _ |
    _ | _ | _ | _ | _ | _ | _ <;> first | exact ⟨_, rfl⟩ | cases hrequest

namespace Session

variable {limits : Limits} {payload : Bytes} {session : Session} {frame : Frame}

/-- A payload that fits is sent, under the type and the epoch it is given. -/
theorem sendFrame_fits (h : FitsFrame limits payload) (type : MessageType) (epoch : UInt64)
    (session : Session) :
    ∃ reply, session.sendFrame limits true type epoch payload
        = (true, { session with sent := session.sent ++ [reply] }) ∧
      reply.header.type = type.code ∧ reply.payload = payload := by
  rw [sendFrame, if_neg fun hnil => (encodeFrame_eq_nil_iff type rfl rfl rfl).mp hnil h]
  exact ⟨_, rfl, rfl, rfl⟩

/-- A payload that does not fit is not sent. -/
theorem sendFrame_oversized (h : ¬ FitsFrame limits payload) (delivered : Bool) (type : MessageType)
    (epoch : UInt64) (session : Session) :
    session.sendFrame limits delivered type epoch payload = (false, session) := by
  rw [sendFrame, if_pos ((encodeFrame_eq_nil_iff type rfl rfl rfl).mpr h)]

/-- One frame was sent, in answer to another. -/
def AnsweredOnce (frame : Frame) (sent sent' : List Frame) : Prop :=
  ∃ reply, sent' = sent ++ [reply] ∧ AnswersTo frame reply

theorem not_answeredOnce (frame : Frame) (sent : List Frame) : ¬ AnsweredOnce frame sent sent := by
  rintro ⟨reply, h, -⟩
  simpa using congrArg List.length h

/-- What an error is reported with. -/
def errorPayload (limits : Limits) (detail : String) : Bytes :=
  encodeOperationResult
    { verdict := .invalid
      reasons := [{ code := .invalidRequest, subject := (ascii detail).take 64 }] } limits

/-- An error is reported exactly when the report fits. -/
theorem failSession_answers (limits : Limits) (frame : Frame) (session : Session)
    (detail : String) :
    AnsweredOnce frame session.sent (session.failSession limits true detail).sent ↔
      FitsFrame limits (errorPayload limits detail) := by
  rw [failSession]
  by_cases hfits : FitsFrame limits (errorPayload limits detail)
  · obtain ⟨reply, hsent, htype, -⟩ := sendFrame_fits hfits .protocolError session.epoch session
    rw [show encodeOperationResult _ limits = errorPayload limits detail from rfl, hsent]
    exact ⟨fun _ => hfits, fun _ => ⟨reply, rfl, .inl htype⟩⟩
  · rw [show encodeOperationResult _ limits = errorPayload limits detail from rfl,
      sendFrame_oversized hfits]
    exact ⟨fun h => absurd h (not_answeredOnce _ _), fun h => absurd h hfits⟩

/-- A request that is supported is answered exactly when the answer fits. -/
theorem respond_answers (limits : Limits) (payload : Bytes) (session : Session)
    (hresponse : ∃ type, (MessageType.ofCode frame.header.type).bind MessageType.response = some type) :
    AnsweredOnce frame session.sent (session.respond limits true frame payload).1.sent ↔
      FitsFrame limits payload := by
  obtain ⟨type, htype⟩ := hresponse
  rw [respond, htype]
  dsimp only
  by_cases hfits : FitsFrame limits payload
  · obtain ⟨reply, hsent, hreply, -⟩ := sendFrame_fits hfits type session.epoch session
    rw [hsent]
    exact ⟨fun _ => hfits, fun _ => ⟨reply, rfl, .inr ⟨type, htype, hreply⟩⟩⟩
  · rw [sendFrame_oversized hfits]
    exact ⟨fun h => absurd h (not_answeredOnce _ _), fun h => absurd h hfits⟩

/-- **The second step** answers exactly when the view fits. -/
theorem viewAssessment_answers (limits : Limits) (r : PartitionRuntime) (session : Session)
    (hresponse : ∃ type, (MessageType.ofCode frame.header.type).bind MessageType.response = some type) :
    AnsweredOnce frame session.sent (session.viewAssessment limits r true frame).session.sent ↔
      FitsFrame limits (encodeAssessmentView (makeAssessmentView r.assessment r) limits) := by
  rw [viewAssessment]
  generalize encodeAssessmentView _ limits = payload
  exact respond_answers limits payload { session with viewing := none } hresponse

theorem step_handled (limits : Limits) (r : PartitionRuntime) (stopping : Bool)
    (session : Session) (hpending : session.pending = some frame) (faults : List (Option AppendFault))
    (delivered : Bool) :
    session.step limits r stopping (.handled faults delivered)
      = session.handleRequest limits r faults delivered frame := by
  unfold Session.step
  rw [hpending]

theorem step_viewed (limits : Limits) (r : PartitionRuntime) (stopping : Bool)
    (session : Session) (hpending : session.pending = none) (hviewing : session.viewing = some frame)
    (delivered : Bool) :
    session.step limits r stopping (.viewed delivered)
      = session.viewAssessment limits r delivered frame := by
  unfold Session.step
  rw [hpending, hviewing]

/-- The answer of the first step, or what is left for the second. -/
def Reports (limits : Limits) (r : PartitionRuntime) (faults : List (Option AppendFault))
    (frame : Frame) (later : Prop) : Prop :=
  match frame.request limits with
  | none => FitsFrame limits (errorPayload limits "the request type or payload is not supported")
  | some request =>
    match (request.perform limits faults r).1 with
    | .answered payload => FitsFrame limits payload
    | .assessed => later
    | .threw => False

/-- **The first step**: what it leaves, for each way the request can go. -/
theorem handleRequest_cases (limits : Limits) (r : PartitionRuntime)
    (faults : List (Option AppendFault)) (frame : Frame) (session : Session) (later : Prop) :
    let outcome := session.handleRequest limits r faults true frame
    outcome.session.pending = none ∧
      ((outcome.terminated = true ∧ outcome.session.sent = session.sent ∧
          ¬ Reports limits r faults frame later) ∨
        (outcome.terminated = false ∧ outcome.session.viewing = session.viewing ∧
          (AnsweredOnce frame session.sent outcome.session.sent ↔
            Reports limits r faults frame later)) ∨
        (outcome.terminated = false ∧ outcome.session.viewing = some frame ∧
          outcome.session.finished = session.finished ∧ outcome.session.sent = session.sent ∧
          (∃ request, frame.request limits = some request) ∧
          (Reports limits r faults frame later ↔ later))) := by
  rw [handleRequest, Reports]
  dsimp only
  rcases hrequest : frame.request limits with _ | request
  · obtain ⟨sent, hsent⟩ := failSession_cases limits true
      "the request type or payload is not supported" { session with pending := none }
    have hanswers := failSession_answers limits frame { session with pending := none }
      "the request type or payload is not supported"
    rw [hsent] at hanswers ⊢
    exact ⟨rfl, .inr (.inl ⟨rfl, rfl, hanswers⟩)⟩
  · dsimp only
    rcases request.perform limits faults r with ⟨payload | _ | _, r'⟩
    · obtain ⟨sent, finished, hsession, -⟩ :=
        respond_cases limits true frame payload { session with pending := none }
      have hanswers := respond_answers limits payload { session with pending := none }
        (Frame.response_of_request hrequest)
      dsimp only
      rw [hsession] at hanswers ⊢
      exact ⟨rfl, .inr (.inl ⟨rfl, rfl, hanswers⟩)⟩
    · exact ⟨rfl, .inr (.inr ⟨rfl, rfl, rfl, rfl, ⟨request, rfl⟩, Iff.rfl⟩)⟩
    · exact ⟨rfl, .inl ⟨rfl, rfl, id⟩⟩

end Session

/-! ## Turns -/

namespace Server

/-- A session has accepted a frame, and is about to handle it. -/
structure Waits (server : Server) (i : Nat) (session : Session) (frame : Frame) : Prop where
  found : server.sessions[i]? = some session
  unfinished : session.finished = false
  pending : session.pending = some frame

/-- A thread that has nothing to view takes no step to view it. -/
theorem Holds.step_idle {server : Server} {i : Nat} {session : Session}
    (h : server.Holds i session) (hpending : session.pending = none)
    (hviewing : session.viewing = none) (delivered : Bool) :
    (server.step (.session i (.viewed delivered))).1.Holds i session := by
  obtain ⟨departed, hfound⟩ := h
  refine ⟨departed, ?_⟩
  unfold Server.step
  split
  · exact hfound
  · dsimp only
    rw [hfound]
    dsimp only
    split
    · exact hfound
    · have hsame : (({ session with departed := departed } : Session).step server.limits
          server.runtime server.stopping (.viewed delivered)).session
            = { session with departed := departed } := by
        unfold Session.step
        rw [hpending, hviewing]
      rw [hsame]
      exact List.getElem?_set_self (List.getElem?_eq_some_iff.mp hfound).1

/-- What was sent since a frame was accepted is its answer. -/
def Answered (server : Server) (i : Nat) (frame : Frame) (sent : List Frame) : Prop :=
  ∃ session, server.sessions[i]? = some session ∧ Session.AnsweredOnce frame sent session.sent

theorem Holds.answered {server : Server} {i : Nat} {session : Session}
    (h : server.Holds i session) (frame : Frame) (sent : List Frame) :
    server.Answered i frame sent ↔ Session.AnsweredOnce frame sent session.sent := by
  obtain ⟨departed, hfound⟩ := h
  refine ⟨?_, fun hanswered => ⟨_, hfound, hanswered⟩⟩
  rintro ⟨other, hother, hanswered⟩
  obtain rfl := Option.some.inj (hfound.symm.trans hother)
  exact hanswered

/-- The answer to a request to assess leaves the second step, if the process gets there. -/
def ViewFits (server : Server) : Prop :=
  server.terminated = false ∧ FitsFrame server.limits
    (encodeAssessmentView (makeAssessmentView server.runtime.assessment server.runtime)
      server.limits)

/-- **The second step**, on a session that is about to view. -/
theorem Holds.viewed_iff {server : Server} {i : Nat} {session : Session}
    (h : server.Holds i session) (hunfinished : session.finished = false)
    (hpending : session.pending = none) {frame : Frame} (hviewing : session.viewing = some frame)
    {request : Request} {limits : Limits} (hrequest : frame.request limits = some request) :
    (server.step (.session i (.viewed true))).1.Answered i frame session.sent ↔
      server.ViewFits := by
  rcases hterminated : server.terminated with _ | _
  · obtain ⟨departed, hholds, -, -⟩ := h.step_session hterminated hunfinished (.viewed true)
    rw [hholds.answered, ViewFits, hterminated,
      Session.step_viewed server.limits server.runtime server.stopping
        { session with departed := departed } hpending hviewing true]
    have hanswers := Session.viewAssessment_answers server.limits server.runtime
      { session with departed := departed } (Frame.response_of_request hrequest)
    exact hanswers.trans (and_iff_right rfl).symm
  · have hstay : (server.step (.session i (.viewed true))).1 = server := by
      unfold Server.step
      rw [if_pos hterminated]
    rw [hstay, h.answered, ViewFits, hterminated]
    exact ⟨fun hanswered => absurd hanswered (Session.not_answeredOnce _ _), nofun⟩

/-- **One turn** of a session on a frame it has accepted, while the other threads go on. -/
theorem Waits.turn {server : Server} {i : Nat} {session : Session} {frame : Frame}
    (h : server.Waits i session frame) (hviewing : session.viewing = none)
    (faults : List (Option AppendFault)) {later : List ServerEvent}
    (hlater : ∀ event ∈ later, Elsewhere i event) :
    let handled := (server.step (.session i (.handled faults true))).1
    let reached := (handled.run later).1
    (reached.step (.session i (.viewed true))).1.Answered i frame session.sent ↔
      server.terminated = false ∧
        Session.Reports server.limits server.runtime faults frame reached.ViewFits := by
  intro handled reached
  have hfound : server.Holds i session := .of_found h.found
  rcases hterminated : server.terminated with _ | _
  · obtain ⟨departed, hholds, -, hends⟩ :=
      hfound.step_session hterminated h.unfinished (.handled faults true)
    have hstep := Session.step_handled server.limits server.runtime server.stopping
      { session with departed := departed } h.pending faults true
    rw [hstep] at hholds hends
    have hreached : reached.Holds i _ := hholds.run hlater
    obtain ⟨hpending, ⟨hthrew, hsent, hnot⟩ | ⟨hends', hviewed, hiff⟩ |
        ⟨hends', hviewed, hfinished, hsent, ⟨request, hrequest⟩, hiff⟩⟩ :=
      Session.handleRequest_cases server.limits server.runtime faults frame
        ({ session with departed := departed } : Session) reached.ViewFits
    · have hstopped : handled.terminated = true := hends.trans hthrew
      have hsame : reached = handled := run_terminated hstopped later
      have hstay : (reached.step (.session i (.viewed true))).1 = handled := by
        rw [hsame]
        unfold Server.step
        rw [if_pos hstopped]
      rw [hstay, hholds.answered, hsent]
      exact ⟨fun hanswered => absurd hanswered (Session.not_answeredOnce _ _),
        fun hreports => absurd hreports.2 hnot⟩
    · have hidle := hreached.step_idle hpending (hviewed.trans hviewing) true
      rw [hidle.answered]
      exact hiff.trans (and_iff_right rfl).symm
    · have hsecond := hreached.viewed_iff (hfinished.trans h.unfinished) hpending hviewed hrequest
      rw [hsent] at hsecond
      exact (hsecond.trans hiff.symm).trans (and_iff_right rfl).symm
  · have hsame : handled = server := by
      show (server.step _).1 = server
      unfold Server.step
      rw [if_pos hterminated]
    have hreached : reached = server := by
      show (handled.run later).1 = server
      rw [hsame]
      exact run_terminated hterminated later
    have hstay : (reached.step (.session i (.viewed true))).1 = server := by
      rw [hreached]
      unfold Server.step
      rw [if_pos hterminated]
    rw [hstay, hfound.answered]
    exact ⟨fun hanswered => absurd hanswered (Session.not_answeredOnce _ _), fun hr => by cases hr.1⟩

/-- A session has one request at hand at most. -/
def OneAtHand (_ : List Happening) (session : Session) : Prop :=
  session.pending = none ∨ session.viewing = none

theorem OneAtHand.step {history happenings : List Happening} {session : Session}
    (h : OneAtHand history session) (limits : Limits) (r : PartitionRuntime) (stopping : Bool)
    (e : SessionEvent) : OneAtHand happenings (session.step limits r stopping e).session := by
  unfold Session.step
  split
  · split
    · exact h
    · exact h
  · split
    · exact h
    · exact h
  · rename_i hviewing
    split
    · exact h
    · exact .inr ((session.serve_keeps limits r _ _).1.trans hviewing)
  · exact .inl (session.handleRequest_keeps limits r _ _ _).1
  · rename_i hpending _
    exact .inl ((session.viewAssessment_keeps limits r _ _).1.trans hpending)
  · exact h

/-- **In every run**, a session has one request at hand at most. -/
theorem run_oneAtHand (runtime : PartitionRuntime) (limits : Limits) (events : List ServerEvent) :
    ((started runtime limits).run events).1.Each OneAtHand
      ((started runtime limits).run events).2 := by
  have hall : Throughout (fun _ _ => True) (started runtime limits) events :=
    fun _ _ _ _ => trivial
  exact (started_each OneAtHand runtime limits).run rfl (.inl rfl) (fun _ _ h => h) hall
    fun server _ _ _ _ e _ _ _ h => h.step limits server.runtime server.stopping e

/-- A request for the status, in the first epoch and under the handle of zeros. -/
def statusRequest : Frame :=
  ⟨{ version := 1, type := MessageType.queryStatus.code, sequence := 1, epoch := 1 }, []⟩

/-- Bounds under which a hello is answered and the status does not fit into a frame. -/
def narrowLimits : Limits := { maxFrameBytes := 200 }

/-- A session is established, and asks for the status. -/
def statusAsked : List ServerEvent :=
  [.looped, .connected, .counted, .spawned,
    .session 0 (.received ⟨encodeFrame helloFrame narrowLimits, by decide +kernel⟩),
    .session 0 (.served default true),
    .session 0 (.received ⟨encodeFrame statusRequest narrowLimits, by decide +kernel⟩),
    .session 0 (.served default true)]

end Server

/-! ## What an answer describes -/

/-- What of a runtime the view of an assessment is made from. -/
structure PartitionRuntime.SameView (r r' : PartitionRuntime) : Prop where
  assessment : r'.assessment = r.assessment
  epoch : r'.state.epoch = r.state.epoch
  boot : r'.state.boot = r.state.boot

theorem PartitionRuntime.SameView.makeAssessmentView {r r' : PartitionRuntime} (h : r.SameView r') :
    makeAssessmentView r'.assessment r' = makeAssessmentView r.assessment r := by
  unfold FabricPartition.makeAssessmentView
  rw [h.assessment, h.epoch, h.boot]

/-- **A step of a session** calls the runtime once, if it is to handle a request for an operation. -/
theorem Session.step_calls (limits : Limits) (r : PartitionRuntime) (stopping : Bool)
    (session : Session) (e : SessionEvent) :
    (session.step limits r stopping e).runtime = r ∨
      ∃ faults delivered frame operation, e = .handled faults delivered ∧
        session.pending = some frame ∧ frame.request limits = some (.operation operation) ∧
        (session.step limits r stopping e).runtime = (r.call ⟨operation, faults⟩).2 := by
  unfold Session.step
  split
  · split <;> exact .inl rfl
  · split <;> exact .inl rfl
  · split <;> exact .inl rfl
  · rename_i frame faults delivered hpending
    rw [handleRequest]
    dsimp only
    rcases hrequest : frame.request limits with _ | request
    · exact .inl rfl
    · dsimp only
      have hruntime : ∀ (reply : Reply) (r' : PartitionRuntime),
          request.perform limits faults r = (reply, r') →
            r' = r ∨ ∃ operation, request = .operation operation ∧
              r' = (r.call ⟨operation, faults⟩).2 := by
        intro reply r' hperform
        rcases request with operation | _ | _ | _ | _
        · cases hperform
          exact .inr ⟨operation, rfl, rfl⟩
        all_goals
          cases hperform
          exact .inl rfl
      rcases hperform : request.perform limits faults r with ⟨payload | _ | _, r'⟩ <;>
        rcases hruntime _ _ hperform with hsame | ⟨operation, rfl, hcall⟩
      all_goals first
        | exact .inl hsame
        | exact .inr ⟨faults, delivered, frame, operation, rfl, hpending, hrequest, hcall⟩
  · exact .inl rfl
  · exact .inl rfl

namespace Server

/-- The call of the runtime a step makes: one of the process, or that of a request. -/
inductive Makes (server : Server) : ServerEvent → Call → Prop
  | called (c : Call) : Makes server (.called c) c
  | handled {i : Nat} {session : Session} {frame : Frame} {faults : List (Option AppendFault)}
      {delivered : Bool} {operation : Operation}
      (htakes : server.Takes (.session i (.handled faults delivered)) i session
        (.handled faults delivered))
      (hpending : session.pending = some frame)
      (hrequest : frame.request server.limits = some (.operation operation)) :
      Makes server (.session i (.handled faults delivered)) ⟨operation, faults⟩

/-- **A step of the server** calls the runtime once at most. -/
theorem step_calls (server : Server) (event : ServerEvent) :
    (server.step event).1.runtime = server.runtime ∨
      ∃ c, server.Makes event c ∧ (server.step event).1.runtime = (server.runtime.call c).2 := by
  rcases server.step_runtime event with hsame | ⟨i, session, e, htakes, hruntime⟩ |
    ⟨c, rfl, hruntime⟩
  · exact .inl hsame
  · rcases session.step_calls server.limits server.runtime server.stopping e with hsame |
      ⟨faults, delivered, frame, operation, rfl, hpending, hrequest, hcall⟩
    · exact .inl (hruntime.trans hsame)
    · obtain rfl := htakes.event
      exact .inr ⟨_, .handled htakes hpending hrequest, hruntime.trans hcall⟩
  · exact .inr ⟨c, .called c, hruntime⟩

/-- A step completes an assessment. -/
def Completes (server : Server) (event : ServerEvent) : Prop :=
  ∃ c, server.Makes event c ∧ server.runtime.Completes c

/-- **A step that completes no assessment** leaves what the view of one is made from. -/
theorem step_sameView {server : Server} {event : ServerEvent} (h : ¬ server.Completes event) :
    server.runtime.SameView (server.step event).1.runtime := by
  rcases server.step_calls event with hsame | ⟨c, hmakes, hcall⟩
  · rw [hsame]
    exact ⟨rfl, rfl, rfl⟩
  · have hnot : ¬ server.runtime.Completes c := fun hcompletes => h ⟨c, hmakes, hcompletes⟩
    rw [hcall]
    exact ⟨PartitionRuntime.call_assessment hnot, server.runtime.call_epoch c,
      server.runtime.call_boot c⟩

/-- **Steps that complete no assessment**: by induction on them. -/
theorem run_sameView {server : Server} {events : List ServerEvent}
    (h : Throughout (fun server event => ¬ server.Completes event) server events) :
    server.runtime.SameView (server.run events).1.runtime := by
  induction events generalizing server with
  | nil => exact ⟨rfl, rfl, rfl⟩
  | cons event events ih =>
    obtain ⟨hfirst, hrest⟩ := throughout_cons.mp h
    have hstep := step_sameView hfirst
    have hlater := ih hrest
    exact ⟨hlater.assessment.trans hstep.assessment, hlater.epoch.trans hstep.epoch,
      hlater.boot.trans hstep.boot⟩

/-- A payload goes out: the process goes on, the frame has room for it, and the socket delivers. -/
def GoesOut (server : Server) (delivered : Bool) (payload : Bytes) : Prop :=
  server.terminated = false ∧ FitsFrame server.limits payload ∧ delivered = true

/-- The last step answered a request to assess with a payload, if that goes out. -/
def Describes (server : Server) (i : Nat) (sent : List Frame) (delivered : Bool)
    (payload : Bytes) : Prop :=
  ∃ session, (server.step (.session i (.viewed delivered))).1.sessions[i]? = some session ∧
    (server.GoesOut delivered payload → ∃ reply, session.sent = sent ++ [reply] ∧
      reply.header.type = MessageType.assessAck.code ∧ reply.payload = payload) ∧
    (¬ server.GoesOut delivered payload → session.sent = sent)

end Server

/-- The assessment a response reports. -/
def Response.reported : Response → Option PartitionAssessment
  | .assessment outcome => some outcome
  | _ => none

theorem Response.eq_of_reported {response : Response} {outcome : PartitionAssessment}
    (h : response.reported = some outcome) : response = .assessment outcome := by
  rcases response with _ | own | _ | _ | _ | _ | _ | _ <;> first
    | exact congrArg Response.assessment (Option.some.inj h)
    | cases h

/-- Only a frame that bears the type is a request to assess. -/
theorem Frame.response_of_assess {frame : Frame} {limits : Limits}
    (h : frame.request limits = some (.operation .assess)) :
    (MessageType.ofCode frame.header.type).bind MessageType.response = some .assessAck := by
  rw [Frame.request, Option.bind_eq_some_iff] at h
  obtain ⟨type, htype, hrequest⟩ := h
  rw [htype, Option.bind_some]
  by_cases hassess : type = .assess
  · rw [hassess]
    rfl
  · exfalso
    unfold decodeRequest at hrequest
    split at hrequest
    all_goals first
      | exact hassess rfl
      | cases hrequest
      | obtain ⟨decoded, -, hdecoded⟩ := Option.map_eq_some_iff.mp hrequest
        cases decoded
        simp at hdecoded
        try split at hdecoded <;> cases hdecoded

/-- The answer to a request that bears a response type. -/
theorem Session.respond_sends (limits : Limits) (delivered : Bool) (payload : Bytes)
    (session : Session) {frame : Frame} {type : MessageType}
    (htype : (MessageType.ofCode frame.header.type).bind MessageType.response = some type) :
    (FitsFrame limits payload ∧ delivered = true → ∃ reply,
      (session.respond limits delivered frame payload).1.sent = session.sent ++ [reply] ∧
        reply.header.type = type.code ∧ reply.payload = payload) ∧
      (¬ (FitsFrame limits payload ∧ delivered = true) →
        (session.respond limits delivered frame payload).1.sent = session.sent) := by
  rw [respond, htype]
  dsimp only
  by_cases hfits : FitsFrame limits payload
  · rcases delivered with _ | _
    · refine ⟨fun h => absurd h.2 (by decide), fun _ => ?_⟩
      rw [sendFrame]
      split <;> rfl
    · obtain ⟨reply, hsent, hreply, hpayload⟩ := sendFrame_fits hfits type session.epoch session
      rw [hsent]
      exact ⟨fun _ => ⟨reply, rfl, hreply, hpayload⟩, fun h => absurd ⟨hfits, rfl⟩ h⟩
  · rw [sendFrame_oversized hfits]
    exact ⟨fun h => absurd h.1 hfits, fun _ => rfl⟩

namespace Server

/-- Nothing goes out once the process has terminated. -/
theorem Holds.describes_terminated {server : Server} {i : Nat} {session : Session}
    (h : server.Holds i session) (hterminated : server.terminated = true) (delivered : Bool)
    (payload : Bytes) : server.Describes i session.sent delivered payload := by
  obtain ⟨departed, hfound⟩ := h
  have hstay : (server.step (.session i (.viewed delivered))).1 = server := by
    unfold Server.step
    rw [if_pos hterminated]
  rw [Describes, GoesOut, hstay, hterminated]
  exact ⟨_, hfound, fun hgoes => absurd hgoes.1 (by decide), fun _ => rfl⟩

/-- **The second step**, on a session that is about to view: it describes the last assessment. -/
theorem Holds.describes {server : Server} {i : Nat} {session : Session}
    (h : server.Holds i session) (hunfinished : session.finished = false)
    (hpending : session.pending = none) {frame : Frame} (hviewing : session.viewing = some frame)
    {limits : Limits} (hrequest : frame.request limits = some (.operation .assess))
    (delivered : Bool) :
    server.Describes i session.sent delivered
      (encodeAssessmentView (makeAssessmentView server.runtime.assessment server.runtime)
        server.limits) := by
  rcases hterminated : server.terminated with _ | _
  · obtain ⟨departed, ⟨counted, hholds⟩, -, -⟩ :=
      h.step_session hterminated hunfinished (.viewed delivered)
    rw [Session.step_viewed server.limits server.runtime server.stopping
      { session with departed := departed } hpending hviewing delivered,
      Session.viewAssessment] at hholds
    generalize encodeAssessmentView _ server.limits = payload at hholds ⊢
    obtain ⟨hsends, hkeeps⟩ := Session.respond_sends server.limits delivered payload
      { session with departed := departed, viewing := none } (Frame.response_of_assess hrequest)
    exact ⟨_, hholds, fun hgoes => hsends hgoes.2,
      fun hstays => hkeeps fun hgoes => hstays ⟨hterminated, hgoes⟩⟩
  · exact h.describes_terminated hterminated delivered _

/-- **The first step** of a request to assess, in a process that goes on: what it returned is the
last assessment. -/
theorem Waits.assesses {server : Server} {i : Nat} {session : Session} {frame : Frame}
    (h : server.Waits i session frame) (hruns : server.terminated = false)
    (hrequest : frame.request server.limits = some (.operation .assess))
    {faults : List (Option AppendFault)} {outcome : PartitionAssessment}
    (hown : (server.runtime.call ⟨.assess, faults⟩).1 = .assessment outcome) (ready : Bool) :
    let handled := (server.step (.session i (.handled faults ready))).1
    handled.Holds i { session with pending := none, viewing := some frame } ∧
      handled.runtime.assessment = outcome ∧
      handled.runtime.state.epoch = server.runtime.state.epoch ∧
      handled.runtime.state.boot = server.runtime.state.boot := by
  intro handled
  obtain ⟨departed, hholds, hruntime, -⟩ :=
    (Holds.of_found h.found).step_session hruns h.unfinished (.handled faults ready)
  have hperform : (Request.operation .assess).perform server.limits faults server.runtime
      = (.assessed, (server.runtime.call ⟨.assess, faults⟩).2) := by
    rw [Request.perform, hown]
    rfl
  have hhandled : ({ session with departed := departed } : Session).handleRequest server.limits
      server.runtime faults ready frame
        = { session := { session with departed := departed, pending := none, viewing := some frame }
            runtime := (server.runtime.call ⟨.assess, faults⟩).2
            happenings := [.executed frame (.operation .assess) server.runtime.state.epoch.value] } := by
    rw [Session.handleRequest, hrequest]
    dsimp only
    rw [hperform]
  rw [Session.step_handled server.limits server.runtime server.stopping
    { session with departed := departed } h.pending faults ready, hhandled] at hholds hruntime
  obtain ⟨counted, hfound⟩ := hholds
  refine ⟨⟨counted, hfound⟩, ?_, ?_, ?_⟩
  · exact (congrArg (·.assessment) hruntime).trans (PartitionRuntime.call_assess hown)
  · exact (congrArg (·.state.epoch) hruntime).trans (server.runtime.call_epoch _)
  · exact (congrArg (·.state.boot) hruntime).trans (server.runtime.call_boot _)

/-- **An answer describes its own assessment.**  In every run of a server, whatever its sessions
received before and whatever its other threads do meanwhile, as long as none of them completes an
assessment before the second step of a request to assess: what that step sends is the view of the
assessment the first step made, in the epoch and under the boot identity of the incarnation. -/
theorem assessment_described (runtime : PartitionRuntime) (limits : Limits)
    (events : List ServerEvent) {i : Nat} {session : Session} {frame : Frame}
    (h : ((started runtime limits).run events).1.Waits i session frame)
    (hrequest : frame.request limits = some (.operation .assess))
    {faults : List (Option AppendFault)} {outcome : PartitionAssessment}
    (hown : (((started runtime limits).run events).1.runtime.call ⟨.assess, faults⟩).1
      = .assessment outcome) (ready delivered : Bool) {later : List ServerEvent}
    (hlater : ∀ event ∈ later, Elsewhere i event)
    (hnone : Throughout (fun server event => ¬ server.Completes event)
      ((started runtime limits).run (events ++ [.session i (.handled faults ready)])).1 later) :
    ((started runtime limits).run
        (events ++ [.session i (.handled faults ready)] ++ later)).1.Describes i session.sent
      delivered (encodeAssessmentView
        (makeAssessmentView outcome ((started runtime limits).run events).1.runtime) limits) := by
  have hstep : ((started runtime limits).run (events ++ [.session i (.handled faults ready)])).1
      = (((started runtime limits).run events).1.step (.session i (.handled faults ready))).1 := by
    rw [run_append]
    rfl
  rw [run_append, hstep]
  rw [hstep] at hnone
  have hlimits : ((started runtime limits).run events).1.limits = limits := run_limits _ _
  generalize ((started runtime limits).run events).1 = server at h hown hnone hlimits ⊢
  subst hlimits
  rcases hterminated : server.terminated with _ | _
  · obtain ⟨hholds, hassessment, hepoch, hboot⟩ := h.assesses hterminated hrequest hown ready
    have hsame := run_sameView hnone
    have hreached := hholds.run hlater
    have hbound : (((server.step (.session i (.handled faults ready))).1).run later).1.limits
        = server.limits := (run_limits _ _).trans (server.step_limits _)
    have hview : makeAssessmentView (server.step (.session i (.handled faults ready))).1.runtime.assessment
        (server.step (.session i (.handled faults ready))).1.runtime
          = makeAssessmentView outcome server.runtime := by
      unfold makeAssessmentView
      rw [hassessment, hepoch, hboot]
    have hdescribes := hreached.describes h.unfinished rfl rfl hrequest delivered
    rwa [hbound, hsame.makeAssessmentView, hview] at hdescribes
  · have hstay : (server.step (.session i (.handled faults ready))).1 = server := by
      unfold Server.step
      rw [if_pos hterminated]
    rw [hstay, run_terminated hterminated later]
    exact (Holds.of_found h.found).describes_terminated hterminated delivered _

/-- Two sessions are established, and both ask for an assessment. -/
def assessedTwice : List ServerEvent :=
  [.looped, .connected, .counted, .spawned, .looped, .connected, .counted, .spawned,
    .session 0 (.received ⟨encodeFrame helloFrame {}, helloFrame_encoded⟩),
    .session 0 (.served default true),
    .session 1 (.received ⟨encodeFrame helloFrame {}, helloFrame_encoded⟩),
    .session 1 (.served default true),
    .session 0 (.received ⟨encodeFrame assessRequest {}, assessRequest_encoded⟩),
    .session 0 (.served default true),
    .session 1 (.received ⟨encodeFrame assessRequest {}, assessRequest_encoded⟩),
    .session 1 (.served default true)]

/-- The first of them is about to have its request handled. -/
theorem assessedTwice_waits :
    (∃ session, ((started smallRuntime {}).run assessedTwice).1.Waits 0 session
      assessRequest.sent) ∧ assessRequest.sent.request {} = some (.operation .assess) := by
  have hasked : (((started smallRuntime {}).run assessedTwice).1.sessions[0]?).map
      (fun session => (session.finished, session.pending)) = some (false, some assessRequest.sent) ∧
      assessRequest.sent.request {} = some (.operation .assess) := by
    decide +kernel
  obtain ⟨session, hfound, hsession⟩ := Option.map_eq_some_iff.mp hasked.1
  rw [Prod.mk.injEq] at hsession
  exact ⟨⟨session, hfound, hsession.1, hsession.2⟩, hasked.2⟩

/-- The first session is answered with the assessment of the second. -/
theorem assessment_mistaken :
    ¬ ∀ (runtime : PartitionRuntime) (limits : Limits) (events : List ServerEvent) (i : Nat)
      (session : Session) (frame : Frame) (outcome : PartitionAssessment)
      (later : List ServerEvent),
      ((started runtime limits).run events).1.Waits i session frame →
      frame.request limits = some (.operation .assess) →
      (((started runtime limits).run events).1.runtime.call ⟨.assess, []⟩).1
        = .assessment outcome →
      (∀ event ∈ later, Elsewhere i event) →
      ((started runtime limits).run
          (events ++ [.session i (.handled [] true)] ++ later)).1.Describes i session.sent true
        (encodeAssessmentView
          (makeAssessmentView outcome ((started runtime limits).run events).1.runtime) limits) := by
  intro h
  have hruns : ((started smallRuntime {}).run (assessedTwice ++ [.session 0 (.handled [] true)]
      ++ [.session 1 (.handled [] true)])).1.terminated = false := by
    decide +kernel
  have hother : ((((started smallRuntime {}).run assessedTwice).1.runtime.call
      ⟨.assess, []⟩).1.reported.map fun outcome =>
        let payload := encodeAssessmentView
          (makeAssessmentView outcome ((started smallRuntime {}).run assessedTwice).1.runtime) {}
        (decide (payload.length + frameOverheadBytes ≤ ({} : Limits).maxFrameBytes),
          (((started smallRuntime {}).run (assessedTwice ++ [.session 0 (.handled [] true)]
            ++ [.session 1 (.handled [] true)] ++ [.session 0 (.viewed true)])).1.sessions[0]?).any
              fun session => session.sent.getLast?.any fun reply => reply.payload = payload))
        = some (true, false) := by
    decide +kernel
  obtain ⟨⟨session, hwaits⟩, hrequest⟩ := assessedTwice_waits
  obtain ⟨outcome, hown, hother⟩ := Option.map_eq_some_iff.mp hother
  rw [Prod.mk.injEq, decide_eq_true_eq] at hother
  obtain ⟨session', hfound', hsends, -⟩ := h smallRuntime {} assessedTwice 0 session
    assessRequest.sent outcome [.session 1 (.handled [] true)] hwaits hrequest
    (Response.eq_of_reported hown) (elsewhere_singleton (by decide))
  obtain ⟨reply, hsent, -, hpayload⟩ := hsends ⟨hruns, by rw [run_limits]; exact hother.1, rfl⟩
  have hnot := hother.2
  rw [run_append _ _ [.session 0 (.viewed true)]] at hnot
  generalize ((started smallRuntime {}).run (assessedTwice ++ [.session 0 (.handled [] true)]
    ++ [.session 1 (.handled [] true)])).1 = reached at hfound' hnot
  rw [show (reached.run [.session 0 (.viewed true)]).1
    = (reached.step (.session 0 (.viewed true))).1 from rfl, hfound', Option.any_some, hsent,
    List.getLast?_append_of_ne_nil _ (by simp), List.getLast?_singleton, Option.any_some,
    hpayload, decide_eq_false_iff_not] at hnot
  exact hnot rfl

/-- A request to assess is answered with its own assessment, while the other session receives. -/
theorem assessment_described_once :
    ∃ (session : Session) (outcome : PartitionAssessment),
      ((started smallRuntime {}).run assessedTwice).1.sessions[0]? = some session ∧
      ((started smallRuntime {}).run (assessedTwice ++ [.session 0 (.handled [] true)]
        ++ [.session 1 .hungUp])).1.Describes 0 session.sent true (encodeAssessmentView
          (makeAssessmentView outcome ((started smallRuntime {}).run assessedTwice).1.runtime) {}) := by
  have hown : (((started smallRuntime {}).run assessedTwice).1.runtime.call
      ⟨.assess, []⟩).1.reported.isSome = true := by
    decide +kernel
  obtain ⟨⟨session, hwaits⟩, hrequest⟩ := assessedTwice_waits
  obtain ⟨outcome, hown⟩ := Option.isSome_iff_exists.mp hown
  refine ⟨session, outcome, hwaits.found, assessment_described smallRuntime {} assessedTwice hwaits
    hrequest (Response.eq_of_reported hown) true true (elsewhere_singleton (by decide)) ?_⟩
  refine throughout_cons.mpr ⟨?_, throughout_nil _ _⟩
  rintro ⟨c, hmakes, -⟩
  cases hmakes

end Server

end FabricPartition
