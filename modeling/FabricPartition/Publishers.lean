import FabricPartition.Service

/-!
# Publishers and their sessions

A hello names a publisher and its boot, and the session keeps both; no request is checked against
them.  What the session keeps is what it presented (`Introduced`), at every later time.  Hence **the
evidence that is ingested for the sessions of a server names the publishers they presented if and only
if each request to publish already does when it is handled** (`publishers_bound_iff`).
-/

set_option autoImplicit false

namespace FabricPartition

/-! ## What a step of a session amounts to -/

namespace Session

/-- The identity a session keeps of its hello. -/
structure SameIdentity (session session' : Session) : Prop where
  publisher : session'.publisher = session.publisher
  boot : session'.boot = session.boot
  established : session'.established = session.established

/-- Neither was a hello accepted nor a request executed. -/
def Uneventful (happenings : List Happening) : Prop :=
  (∀ handle current, .accepted handle current ∉ happenings) ∧
    ∀ frame request current, .executed frame request current ∉ happenings

/-- A session goes on: a request waits only on one that is established; a hello is accepted; or the
request that waited is executed. -/
inductive Progress (limits : Limits) (session : Session) (event : SessionEvent) :
    List Happening → Session → Prop
  | idle {happenings : List Happening} {session' : Session}
      (hsame : session.SameIdentity session') (huneventful : Uneventful happenings)
      (hpending : session'.pending = session.pending ∨ session'.pending = none ∨
        session'.established = true) : Progress limits session event happenings session'
  | greeted {frame : Frame} {handle : SessionHandle} {current : UInt64} {hello : HelloRequest}
      {session' : Session} (hfresh : session.established = false)
      (hhello : decodeHelloRequest frame.payload = some hello)
      (hpublisher : session'.publisher = hello.publisher) (hboot : session'.boot = hello.boot)
      (hestablished : session'.established = true) :
      Progress limits session event [.framed frame, .accepted handle current] session'
  | executed {faults : List (Option AppendFault)} {delivered : Bool}
      (hevent : event = .handled faults delivered) {frame : Frame} {request : Request}
      {current : UInt64} {later : List Happening} {session' : Session}
      (hpending : session.pending = some frame) (hrequest : frame.request limits = some request)
      (hsame : session.SameIdentity session') (hdone : session'.pending = none)
      (huneventful : Uneventful later) :
      Progress limits session event (.executed frame request current :: later) session'

theorem uneventful_nil : Uneventful [] := ⟨by simp, by simp⟩

theorem uneventful_refused : Uneventful [.refused] := ⟨by simp, by simp⟩

variable (limits : Limits) (r : PartitionRuntime) (delivered : Bool) (session : Session)

theorem failSession_same (detail : String) :
    session.SameIdentity (session.failSession limits delivered detail) ∧
      (session.failSession limits delivered detail).pending = session.pending := by
  obtain ⟨sent, hsent⟩ := failSession_cases limits delivered detail session
  rw [hsent]
  exact ⟨⟨rfl, rfl, rfl⟩, rfl⟩

theorem respond_same (frame : Frame) (payload : Bytes) :
    session.SameIdentity (session.respond limits delivered frame payload).1 ∧
      (session.respond limits delivered frame payload).1.pending = session.pending ∧
      Uneventful (session.respond limits delivered frame payload).2 := by
  obtain ⟨sent, finished, hsession, hsame | ⟨-, hsame⟩⟩ :=
    respond_cases limits delivered frame payload session
  · rw [hsession, hsame]
    exact ⟨⟨rfl, rfl, rfl⟩, rfl, uneventful_nil⟩
  · rw [hsession, hsame]
    exact ⟨⟨rfl, rfl, rfl⟩, rfl, uneventful_refused⟩

theorem serve_progress {event : SessionEvent} (handle : SessionHandle) :
    session.Progress limits event (session.serve limits r handle delivered).2
      (session.serve limits r handle delivered).1 := by
  rw [serve]
  rcases turn limits session.buffer with ⟨frame, rest⟩ | _ | _ | status
  · have hrefused (detail : String) : session.Progress limits event [.framed frame, .refused]
        (({ session with buffer := rest } : Session).failSession limits delivered detail) := by
      obtain ⟨⟨hpublisher, hboot, hestablished⟩, hpending⟩ :=
        failSession_same limits delivered { session with buffer := rest } detail
      exact .idle ⟨hpublisher, hboot, hestablished⟩ ⟨by simp, by simp⟩ (.inl hpending)
    dsimp only
    split
    · rename_i hestablished
      rw [checkFrame]
      split
      · exact hrefused _
      split
      · exact hrefused _
      split
      · exact hrefused _
      dsimp only
      split
      · exact .idle ⟨rfl, rfl, rfl⟩ ⟨by simp, by simp⟩ (.inl rfl)
      · exact .idle ⟨rfl, rfl, rfl⟩ ⟨by simp, by simp⟩ (.inr (.inr hestablished))
    · rename_i hfresh
      rw [greet]
      split
      · exact hrefused _
      rcases hhello : decodeHelloRequest frame.payload with _ | hello
      · exact hrefused _
      dsimp only
      split
      · obtain ⟨sent, hsent⟩ := sendFrame_cases limits delivered .helloAck r.state.epoch.value
          (encodeHelloResponse (rejection r) limits) { session with buffer := rest }
        rw [hsent]
        exact .idle ⟨rfl, rfl, rfl⟩ ⟨by simp, by simp⟩ (.inl rfl)
      · obtain ⟨sent, hsent⟩ := sendFrame_cases limits delivered .helloAck r.state.epoch.value
          (encodeHelloResponse (acceptance r handle) limits)
          { session with
            buffer := rest
            handle := handle
            publisher := hello.publisher
            boot := hello.boot
            epoch := r.state.epoch.value
            established := true }
        rw [hsent]
        exact .greeted (Bool.eq_false_iff.mpr hfresh) hhello rfl rfl rfl
  · exact .idle ⟨rfl, rfl, rfl⟩ uneventful_nil (.inl rfl)
  · obtain ⟨hsame, hpending⟩ := failSession_same limits delivered session
      "the receive buffer exceeded the frame bound"
    exact .idle hsame uneventful_refused (.inl hpending)
  · obtain ⟨hsame, hpending⟩ := failSession_same limits delivered session
      ("frame rejected: " ++ status.name)
    exact .idle hsame uneventful_refused (.inl hpending)

theorem handleRequest_progress {faults : List (Option AppendFault)} {frame : Frame}
    (hpending : session.pending = some frame) :
    session.Progress limits (.handled faults delivered)
      (session.handleRequest limits r faults delivered frame).happenings
      (session.handleRequest limits r faults delivered frame).session := by
  rw [handleRequest]
  dsimp only
  rcases hrequest : frame.request limits with _ | request
  · obtain ⟨⟨hpublisher, hboot, hestablished⟩, hdone⟩ :=
      failSession_same limits delivered { session with pending := none }
        "the request type or payload is not supported"
    exact .idle ⟨hpublisher, hboot, hestablished⟩ uneventful_refused (.inr (.inl hdone))
  · dsimp only
    rcases request.perform limits faults r with ⟨payload | _ | _, r'⟩
    · obtain ⟨⟨hpublisher, hboot, hestablished⟩, hdone, huneventful⟩ :=
        respond_same limits delivered { session with pending := none } frame payload
      exact .executed rfl hpending hrequest ⟨hpublisher, hboot, hestablished⟩ hdone huneventful
    · exact .executed rfl hpending hrequest ⟨rfl, rfl, rfl⟩ rfl uneventful_nil
    · exact .executed rfl hpending hrequest ⟨rfl, rfl, rfl⟩ rfl uneventful_nil

theorem viewAssessment_progress {event : SessionEvent} (frame : Frame) :
    session.Progress limits event (session.viewAssessment limits r delivered frame).happenings
      (session.viewAssessment limits r delivered frame).session := by
  rw [viewAssessment]
  generalize encodeAssessmentView _ limits = payload
  obtain ⟨⟨hpublisher, hboot, hestablished⟩, hpending, huneventful⟩ :=
    respond_same limits delivered { session with viewing := none } frame payload
  exact .idle ⟨hpublisher, hboot, hestablished⟩ huneventful (.inl hpending)

/-- **Every step of a session is a progress of it.** -/
theorem step_progress (stopping : Bool) (event : SessionEvent) :
    session.Progress limits event (session.step limits r stopping event).happenings
      (session.step limits r stopping event).session := by
  have hstay : session.Progress limits event [] session := .idle ⟨rfl, rfl, rfl⟩ uneventful_nil (.inl rfl)
  have hend : session.Progress limits event [] { session with finished := true } :=
    .idle ⟨rfl, rfl, rfl⟩ uneventful_nil (.inl rfl)
  unfold Session.step
  split
  · split
    · exact .idle ⟨rfl, rfl, rfl⟩ ⟨by simp, by simp⟩ (.inl rfl)
    · exact hstay
  · split
    · exact hend
    · exact hstay
  · split
    · exact hend
    · exact serve_progress limits r _ session _
  · rename_i hpending
    exact handleRequest_progress limits r _ session hpending
  · exact viewAssessment_progress limits r _ session _
  · exact hstay

end Session

/-! ## Introductions -/

/-- A hello was accepted in a history: it came with the frame that was taken last. -/
def Presented (history : List Happening) (hello : HelloRequest) : Prop :=
  ∃ earlier later frame handle current,
    history = earlier ++ .framed frame :: .accepted handle current :: later ∧
      decodeHelloRequest frame.payload = some hello

theorem Presented.append {history : List Happening} {hello : HelloRequest}
    (h : Presented history hello) (more : List Happening) : Presented (history ++ more) hello := by
  obtain ⟨earlier, later, frame, handle, current, rfl, hhello⟩ := h
  exact ⟨earlier, later ++ more, frame, handle, current, by simp, hhello⟩

theorem Presented.mem {history : List Happening} {hello : HelloRequest}
    (h : Presented history hello) : ∃ handle current, .accepted handle current ∈ history := by
  obtain ⟨earlier, later, frame, handle, current, rfl, -⟩ := h
  exact ⟨handle, current, by simp⟩

/-- What is appended accepts no hello. -/
theorem Presented.of_append {history more : List Happening} {hello : HelloRequest}
    (hmore : ∀ handle current, .accepted handle current ∉ more)
    (h : Presented (history ++ more) hello) : Presented history hello := by
  obtain ⟨earlier, later, frame, handle, current, heq, hhello⟩ := h
  rcases List.append_eq_append_iff.mp heq with ⟨rest, rfl, hrest⟩ | ⟨rest, rfl, hrest⟩
  · exact absurd (by rw [hrest]; simp) (hmore handle current)
  · rcases rest with _ | ⟨first, _ | ⟨second, rest⟩⟩
    · exact absurd (by rw [← List.nil_append more, ← hrest]; simp) (hmore handle current)
    · obtain ⟨-, rfl⟩ := List.cons.inj hrest
      exact absurd (by simp) (hmore handle current)
    · obtain ⟨rfl, hsecond⟩ := List.cons.inj hrest
      obtain ⟨rfl, -⟩ := List.cons.inj hsecond
      exact ⟨earlier, rest, _, handle, current, rfl, hhello⟩

/-- A session keeps what it presented. -/
structure Introduced (history : List Happening) (session : Session) : Prop where
  presented : session.established = true →
    ∃ hello, Presented history hello ∧
      session.publisher = hello.publisher ∧ session.boot = hello.boot
  only : ∀ hello, Presented history hello → session.established = true ∧
    session.publisher = hello.publisher ∧ session.boot = hello.boot
  accepted : ∀ handle current, .accepted handle current ∈ history → session.established = true
  pending : ∀ frame, session.pending = some frame → session.established = true

namespace Introduced

variable {limits : Limits} {history happenings : List Happening} {session session' : Session}
  {event : SessionEvent}

theorem initial : Introduced [] {} where
  presented := nofun
  only hello h := by
    obtain ⟨_, _, h⟩ := h.mem
    simp at h
  accepted := by simp
  pending := nofun

/-- A session that keeps its identity. -/
theorem keep (h : Introduced history session) (hsame : session.SameIdentity session')
    (hmore : ∀ handle current, .accepted handle current ∉ happenings)
    (hpending : session'.pending = session.pending ∨ session'.pending = none ∨
      session'.established = true) : Introduced (history ++ happenings) session' := by
  obtain ⟨hpublisher, hboot, hestablished⟩ := hsame
  refine ⟨?_, ?_, ?_, ?_⟩
  · rw [hestablished, hpublisher, hboot]
    intro he
    obtain ⟨hello, hhello, hnames⟩ := h.presented he
    exact ⟨hello, hhello.append _, hnames⟩
  · rw [hestablished, hpublisher, hboot]
    exact fun hello hhello => h.only hello (hhello.of_append hmore)
  · rw [hestablished]
    intro handle current hmem
    rcases List.mem_append.mp hmem with hmem | hmem
    · exact h.accepted handle current hmem
    · exact absurd hmem (hmore handle current)
  · intro frame hframe
    rcases hpending with hsame | hnone | he
    · rw [hestablished]
      exact h.pending frame (hsame.symm.trans hframe)
    · rw [hnone] at hframe
      cases hframe
    · exact he

/-- **A step of a session.** -/
theorem progress (h : Introduced history session)
    (hprogress : session.Progress limits event happenings session') :
    Introduced (history ++ happenings) session' := by
  rcases hprogress with ⟨hsame, huneventful, hpending⟩ |
    ⟨hfresh, hhello, hpublisher, hboot, hestablished⟩ |
    ⟨-, -, -, hsame, hdone, huneventful⟩
  · exact h.keep hsame huneventful.1 hpending
  · rename_i frame handle current hello
    refine ⟨fun _ => ⟨hello, ?_, hpublisher, hboot⟩, fun other hother => ?_,
      fun _ _ _ => hestablished, fun _ _ => hestablished⟩
    · exact ⟨history, [], frame, handle, current, rfl, hhello⟩
    · obtain ⟨earlier, later, frame', handle', current', heq, hother⟩ := hother
      have hsplit : history ++ [.framed frame] ++ [.accepted handle current]
          = earlier ++ [.framed frame'] ++ .accepted handle' current' :: later := by
        simpa using heq
      -- The history before holds no acceptance, so the hello is the one of this step.
      rcases snoc_eq_append_cons hsplit with ⟨hframes, -⟩ | ⟨rest, hframes⟩
      · cases (List.append_inj' hframes rfl).2
        obtain rfl := Option.some.inj (hhello.symm.trans hother)
        exact ⟨hestablished, hpublisher, hboot⟩
      · have hmem : .accepted handle' current' ∈ history ++ [.framed frame] := by
          rw [hframes]
          simp
        rw [h.accepted handle' current' (by simpa using hmem)] at hfresh
        cases hfresh
  · refine h.keep hsame (fun handle current hmem => ?_) (.inr (.inl hdone))
    rcases List.mem_cons.mp hmem with hmem | hmem
    · cases hmem
    · exact huneventful.1 handle current hmem

end Introduced

/-! ## What is published -/

/-- The evidence ingested for a session names the publisher it presented. -/
def PublishesOwn (history : List Happening) : Prop :=
  ∀ frame evidence current, .executed frame (.operation (.ingestEvidence evidence)) current ∈ history →
    ∃ hello, Presented history hello ∧
      evidence.publisher = hello.publisher ∧ evidence.publisherBoot = hello.boot

theorem PublishesOwn.append {history more : List Happening} (h : PublishesOwn history)
    (hmore : ∀ frame evidence current,
      .executed frame (.operation (.ingestEvidence evidence)) current ∈ more →
        ∃ hello, Presented history hello ∧
          evidence.publisher = hello.publisher ∧ evidence.publisherBoot = hello.boot) :
    PublishesOwn (history ++ more) := by
  intro frame evidence current hmem
  have hnamed : ∃ hello, Presented history hello ∧
      evidence.publisher = hello.publisher ∧ evidence.publisherBoot = hello.boot := by
    rcases List.mem_append.mp hmem with hmem | hmem
    · exact h frame evidence current hmem
    · exact hmore frame evidence current hmem
  obtain ⟨hello, hhello, hnames⟩ := hnamed
  exact ⟨hello, hhello.append more, hnames⟩

/-- **A step of a session** whose request to publish, if it handles one, names the publisher and the
boot the session keeps. -/
theorem PublishesOwn.progress {limits : Limits} {history happenings : List Happening}
    {session session' : Session} {event : SessionEvent} (h : PublishesOwn history)
    (hintroduced : Introduced history session)
    (hprogress : session.Progress limits event happenings session')
    (hnamed : ∀ faults delivered frame evidence, event = .handled faults delivered →
      session.pending = some frame →
      frame.request limits = some (.operation (.ingestEvidence evidence)) →
        evidence.publisher = session.publisher ∧ evidence.publisherBoot = session.boot) :
    PublishesOwn (history ++ happenings) := by
  refine h.append fun frame evidence current hmem => ?_
  rcases hprogress with ⟨-, huneventful, -⟩ | _ | ⟨rfl, hpending, hrequest, -, -, huneventful⟩
  · exact absurd hmem (huneventful.2 _ _ _)
  · simp at hmem
  · rcases List.mem_cons.mp hmem with hmem | hmem
    · cases hmem
      obtain ⟨hpublisher, hboot⟩ := hnamed _ _ _ evidence rfl hpending hrequest
      obtain ⟨hello, hhello, hp, hb⟩ := hintroduced.presented (hintroduced.pending _ hpending)
      exact ⟨hello, hhello, hpublisher.trans hp, hboot.trans hb⟩
    · exact absurd hmem (huneventful.2 _ _ _)

namespace Server

/-- A request to publish, when it is handled, names the publisher and the boot of its session. -/
def Names (server : Server) (event : ServerEvent) : Prop :=
  ∀ i session faults delivered frame evidence,
    server.Takes event i session (.handled faults delivered) → session.pending = some frame →
      frame.request server.limits = some (.operation (.ingestEvidence evidence)) →
        evidence.publisher = session.publisher ∧ evidence.publisherBoot = session.boot

variable (runtime : PartitionRuntime) (limits : Limits) (events : List ServerEvent)

/-- **Every session keeps what it presented**, in every run. -/
theorem run_introduced :
    ((started runtime limits).run events).1.Each Introduced
      ((started runtime limits).run events).2 := by
  have hall : Throughout (fun _ _ => True) (started runtime limits) events :=
    fun _ _ _ _ => trivial
  exact (started_each Introduced runtime limits).run rfl .initial
    (fun _ _ h => ⟨h.presented, h.only, h.accepted, h.pending⟩) hall
    fun server event history i session e _ _ _ h => h.progress (Session.step_progress _ _ session _ e)

/-- What the steps of a run keep while every request to publish names its session. -/
theorem run_publishesOwn (hnames : Throughout Names (started runtime limits) events) :
    ((started runtime limits).run events).1.Each
      (fun history session => Introduced history session ∧ PublishesOwn history)
      ((started runtime limits).run events).2 := by
  refine (started_each _ runtime limits).run rfl ⟨.initial, fun _ _ _ h => by simp at h⟩
    (fun _ _ h => ⟨⟨h.1.presented, h.1.only, h.1.accepted, h.1.pending⟩, h.2⟩) hnames ?_
  rintro server event history i session e rfl hnamed htakes ⟨hintroduced, hown⟩
  have hprogress := Session.step_progress server.limits server.runtime session server.stopping e
  refine ⟨hintroduced.progress hprogress, hown.progress hintroduced hprogress ?_⟩
  rintro faults delivered frame evidence rfl hpending hrequest
  exact hnamed i session faults delivered frame evidence htakes hpending hrequest

/-- A request that is handled is in the history from then on. -/
theorem executed_of_takes {server : Server} {event : ServerEvent} {i : Nat} {session : Session}
    {faults : List (Option AppendFault)} {delivered : Bool} {frame : Frame} {request : Request}
    (htakes : server.Takes event i session (.handled faults delivered))
    (hpending : session.pending = some frame) (hrequest : frame.request server.limits = some request) :
    (i, .executed frame request server.runtime.state.epoch.value) ∈ (server.step event).2 := by
  obtain ⟨rfl, hruns, hfound, hunfinished⟩ := htakes
  have hhandled : ∃ later,
      (session.step server.limits server.runtime server.stopping (.handled faults delivered)).happenings
        = .executed frame request server.runtime.state.epoch.value :: later := by
    unfold Session.step
    rw [hpending]
    dsimp only
    rw [Session.handleRequest, hrequest]
    dsimp only
    rcases request.perform server.limits faults server.runtime with ⟨payload | _ | _, r'⟩
    · exact ⟨_, rfl⟩
    · exact ⟨_, rfl⟩
    · exact ⟨_, rfl⟩
  obtain ⟨later, hlater⟩ := hhandled
  unfold Server.step
  rw [if_neg (by simp [hruns])]
  dsimp only
  rw [hfound]
  dsimp only
  rw [if_neg (by simp [hunfinished]), hlater]
  exact List.mem_cons_self

/-- **Publishers are bound to their sessions.**  In every run of a server, whatever its sessions
receive and in whatever order its threads run, the evidence ingested for each session names the
publisher and the boot of the hello that was accepted on it if and only if each request to publish
that is handled does; and no two hellos accepted on a session name different ones. -/
theorem publishers_bound_iff :
    ((∀ i, PublishesOwn (historyOf i ((started runtime limits).run events).2)) ↔
        Throughout Names (started runtime limits) events) ∧
      ∀ i hello hello', Presented (historyOf i ((started runtime limits).run events).2) hello →
        Presented (historyOf i ((started runtime limits).run events).2) hello' →
          hello.publisher = hello'.publisher ∧ hello.boot = hello'.boot := by
  have hunique (es : List ServerEvent) (i : Nat) (hello hello' : HelloRequest)
      (h : Presented (historyOf i ((started runtime limits).run es).2) hello)
      (h' : Presented (historyOf i ((started runtime limits).run es).2) hello') :
      hello.publisher = hello'.publisher ∧ hello.boot = hello'.boot := by
    have hrun := run_introduced runtime limits es
    rcases hsession : ((started runtime limits).run es).1.sessions[i]? with _ | session
    · rw [hrun.unborn i (List.getElem?_eq_none_iff.mp hsession)] at h
      obtain ⟨_, _, hmem⟩ := h.mem
      simp at hmem
    · have hintroduced := hrun.sessions i session hsession
      obtain ⟨-, hp, hb⟩ := hintroduced.only hello h
      obtain ⟨-, hp', hb'⟩ := hintroduced.only hello' h'
      exact ⟨hp.symm.trans hp', hb.symm.trans hb'⟩
  refine ⟨⟨fun hown => ?_, fun hnames i => ?_⟩, hunique events⟩
  · rintro before event after rfl i session faults delivered frame evidence htakes hpending hrequest
    have hintroduced := (run_introduced runtime limits before).sessions i session htakes.found
    obtain ⟨hello, hhello, hp, hb⟩ := hintroduced.presented (hintroduced.pending frame hpending)
    have hlog := run_log_append (started runtime limits) before (event :: after)
    have hexecuted := executed_of_takes htakes hpending hrequest
    have hmem : .executed frame (.operation (.ingestEvidence evidence))
        ((started runtime limits).run before).1.runtime.state.epoch.value
        ∈ historyOf i ((started runtime limits).run (before ++ event :: after)).2 := by
      rw [hlog, historyOf_append]
      refine List.mem_append_right _ (List.mem_map.mpr ⟨(i, _), List.mem_filter.mpr ⟨?_, ?_⟩, rfl⟩)
      · exact List.mem_append_left _ hexecuted
      · simp
    obtain ⟨hello', hhello', hp', hb'⟩ := hown i frame evidence _ hmem
    have hpresented : Presented
        (historyOf i ((started runtime limits).run (before ++ event :: after)).2) hello := by
      rw [hlog, historyOf_append]
      exact hhello.append _
    obtain ⟨hpp, hbb⟩ := hunique _ i hello hello' hpresented hhello'
    exact ⟨hp'.trans (hpp.symm.trans hp.symm), hb'.trans (hbb.symm.trans hb.symm)⟩
  · have hrun := run_publishesOwn runtime limits events hnames
    rcases hsession : ((started runtime limits).run events).1.sessions[i]? with _ | session
    · rw [hrun.unborn i (List.getElem?_eq_none_iff.mp hsession)]
      intro _ _ _ h
      simp at h
    · exact (hrun.sessions i session hsession).2

end Server

/-- A bundle of another publisher than that of `helloFrame`. -/
def foreignEvidence : ReachabilityEvidence where
  id := named _ "e"
  sequence := ⟨1⟩
  publisher := named _ "q"
  publisherBoot := default
  topologyGeneration := ⟨1⟩
  generation := ⟨1⟩
  provenance := .nil

/-- A request to publish it, in the first epoch and under the handle of zeros. -/
def publishRequest : Frame :=
  ⟨{ version := 1, type := MessageType.publishEvidence.code, sequence := 1, epoch := 1 },
    encodeEvidence foreignEvidence {}⟩

/-- A session is established as one publisher, and publishes as another. -/
def publishedAsAnother : List ServerEvent :=
  [.looped, .connected, .counted, .spawned,
    .session 0 (.received ⟨encodeFrame helloFrame {}, helloFrame_encoded⟩),
    .session 0 (.served default true),
    .session 0 (.received ⟨encodeFrame publishRequest {}, by decide +kernel⟩),
    .session 0 (.served default true), .session 0 (.handled [] true)]

/-- The bundle is ingested all the same. -/
theorem publisher_unchecked :
    ¬ ∀ (runtime : PartitionRuntime) (limits : Limits) (events : List ServerEvent) (i : Nat),
      PublishesOwn (historyOf i ((Server.started runtime limits).run events).2) := by
  intro h
  have hexecuted :
      .executed publishRequest.sent (.operation (.ingestEvidence foreignEvidence)) 1
        ∈ historyOf 0 ((Server.started smallRuntime {}).run publishedAsAnother).2 := by
    decide +kernel
  have hsession : (((Server.started smallRuntime {}).run publishedAsAnother).1.sessions[0]?).map
      Session.publisher = some (named _ "p") := by
    decide +kernel
  obtain ⟨session, hfound, hpublisher⟩ := Option.map_eq_some_iff.mp hsession
  obtain ⟨hello, hhello, hforeign, -⟩ := h smallRuntime {} publishedAsAnother 0 _ _ _ hexecuted
  obtain ⟨-, hown, -⟩ :=
    ((Server.run_introduced smallRuntime {} publishedAsAnother).sessions 0 session hfound).only
      hello hhello
  have hsame : (named .publisher "q" : PublisherId) = named .publisher "p" :=
    hforeign.trans (hown.symm.trans hpublisher)
  exact absurd hsame (by decide +kernel)

end FabricPartition
