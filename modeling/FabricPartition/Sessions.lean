import FabricPartition.Service

/-!
# Counting sessions

`active_sessions` is read by `accept_loop`, compared with the bound and written back one higher; each
session thread decrements it when it ends.  A decrement that falls between the read and the write of
one turn is overwritten.  `Counted` says what the counter is worth in every state a run can reach:
the number of running sessions, and the decrements that were lost so far.  Hence **the counter is exact
if and only if no session ended between a read and the write that followed it**
(`active_sessions_exact_iff`).
-/

set_option autoImplicit false

namespace FabricPartition

/-- No step of `serve` touches what the thread does after it. -/
theorem Session.step_departed (limits : Limits) (r : PartitionRuntime) (session : Session)
    (stopping : Bool) (event : SessionEvent) :
    (session.step limits r stopping event).session.departed = session.departed := by
  unfold Session.step
  split
  · split <;> rfl
  · split <;> rfl
  · split
    · rfl
    · exact (session.serve_keeps limits r _ _).2
  · exact (session.handleRequest_keeps limits r _ _ _).2
  · exact (session.viewAssessment_keeps limits r _ _).2
  · rfl

/-! ## The counter -/

namespace Server

/-- The session threads that were started and have not decremented the counter. -/
def running (server : Server) : Nat := server.sessions.countP fun session => !session.departed

/-- The decrements a step overwrites: those since the counter was read. -/
def overwritten (server : Server) (event : ServerEvent) : Nat :=
  match server.acceptor, event with
  | .loaded active, .counted =>
    if server.terminated || decide (active ≥ server.limits.maxSessions) then 0
    else active - server.activeSessions
  | _, _ => 0

/-- The decrements a run overwrites. -/
def overwrittenBy : Server → List ServerEvent → Nat
  | _, [] => 0
  | server, event :: events => server.overwritten event + overwrittenBy (server.step event).1 events

/-- The counter, after some decrements were lost. -/
structure Counted (lost : Nat) (server : Server) : Prop where
  exact : server.activeSessions =
    server.running + lost + if server.acceptor = .stored then 1 else 0
  loaded : ∀ active, server.acceptor = .loaded active → server.activeSessions ≤ active
  bounded : server.activeSessions ≤ server.limits.maxSessions

variable {lost : Nat} {server : Server}

theorem running_set {sessions : List Session} {i : Nat} {session session' : Session}
    (hsession : sessions[i]? = some session) (hsame : session'.departed = session.departed) :
    (sessions.set i session').countP (fun session => !session.departed)
      = sessions.countP fun session => !session.departed := by
  obtain ⟨hi, rfl⟩ := List.getElem?_eq_some_iff.mp hsession
  rw [List.countP_set hi, hsame]
  have hle : (if (!sessions[i].departed) = true then 1 else 0)
      ≤ sessions.countP fun session => !session.departed := by
    split
    · exact List.countP_pos_iff.mpr ⟨_, List.getElem_mem hi, by assumption⟩
    · exact Nat.zero_le _
  omega

/-- A session that leaves. -/
theorem running_departed {sessions : List Session} {i : Nat} {session : Session}
    (hsession : sessions[i]? = some session) (hcounted : session.departed = false) :
    (sessions.set i { session with departed := true }).countP (fun session => !session.departed) + 1
      = sessions.countP fun session => !session.departed := by
  obtain ⟨hi, rfl⟩ := List.getElem?_eq_some_iff.mp hsession
  have hpos : 0 < sessions.countP fun session => !session.departed :=
    List.countP_pos_iff.mpr ⟨_, List.getElem_mem hi, by simp [hcounted]⟩
  rw [List.countP_set hi]
  simp only [hcounted, Bool.not_false, Bool.not_true, if_true, Bool.false_eq_true, if_false]
  omega

/-- Only the write of the counter overwrites anything. -/
theorem overwritten_of_ne (server : Server) {event : ServerEvent} (h : event ≠ .counted) :
    server.overwritten event = 0 := by
  unfold overwritten
  split
  · exact absurd rfl h
  · rfl

/-- A step that moves neither the counter nor its threads. -/
theorem Counted.frame {server' : Server} (h : server.Counted lost)
    (hactive : server'.activeSessions = server.activeSessions)
    (hrunning : server'.running = server.running) (hacceptor : server'.acceptor = server.acceptor)
    (hlimits : server'.limits = server.limits) : server'.Counted lost := by
  refine ⟨?_, ?_, ?_⟩
  · rw [hactive, hrunning, hacceptor]
    exact h.exact
  · rw [hactive, hacceptor]
    exact h.loaded
  · rw [hactive, hlimits]
    exact h.bounded

/-- The acceptor writes the counter. -/
theorem Counted.count (h : server.Counted lost) {active : Nat}
    (hloaded : server.acceptor = .loaded active) (hroom : active < server.limits.maxSessions) :
    Counted (lost + (active - server.activeSessions))
      { server with activeSessions := active + 1, acceptor := .stored } := by
  have hexact := h.exact
  rw [if_neg (by rw [hloaded]; nofun)] at hexact
  have hle := h.loaded active hloaded
  refine ⟨?_, nofun, hroom⟩
  rw [if_pos rfl]
  show active + 1 = server.running + _ + 1
  omega

/-- The acceptor starts the thread it has counted. -/
theorem Counted.spawn (h : server.Counted lost) (hstored : server.acceptor = .stored) :
    Counted lost { server with sessions := server.sessions ++ [{}], acceptor := .waiting } := by
  have hexact := h.exact
  rw [if_pos hstored] at hexact
  refine ⟨?_, nofun, h.bounded⟩
  have hrunning : ({ server with sessions := server.sessions ++ [{}], acceptor := .waiting } :
      Server).running = server.running + 1 := by
    rw [running, List.countP_append]
    rfl
  rw [hrunning, if_neg nofun]
  show server.activeSessions = _
  omega

/-- A session leaves. -/
theorem Counted.depart (h : server.Counted lost) {i : Nat} {session : Session}
    (hsession : server.sessions[i]? = some session) (hcounted : session.departed = false) :
    Counted lost { server with
      sessions := server.sessions.set i { session with departed := true }
      activeSessions := server.activeSessions - 1 } := by
  have hexact := h.exact
  have hrunning : ({ server with
      sessions := server.sessions.set i { session with departed := true }
      activeSessions := server.activeSessions - 1 } : Server).running + 1 = server.running :=
    running_departed hsession hcounted
  refine ⟨?_, fun active hactive => ?_, (Nat.sub_le _ _).trans h.bounded⟩
  · show server.activeSessions - 1 = _ + lost + if server.acceptor = .stored then 1 else 0
    omega
  · exact (Nat.sub_le _ _).trans (h.loaded active hactive)

/-- **One step**: what it overwrites is lost. -/
theorem Counted.step (h : server.Counted lost) (event : ServerEvent) :
    (server.step event).1.Counted (lost + server.overwritten event) := by
  by_cases hterminated : server.terminated = true
  · have hzero : server.overwritten event = 0 := by
      unfold overwritten
      split
      · rw [hterminated, Bool.true_or, if_pos rfl]
      · rfl
    rw [hzero]
    unfold Server.step
    rw [if_pos hterminated]
    exact h
  unfold Server.step
  rw [if_neg hterminated]
  by_cases hevent : event = .counted
  · subst hevent
    dsimp only
    unfold overwritten
    rcases hacceptor : server.acceptor with _ | _ | active | _
    · exact h
    · exact h
    · dsimp only
      by_cases hfull : active ≥ server.limits.maxSessions
      · have hexact := h.exact
        rw [if_neg (by rw [hacceptor]; nofun)] at hexact
        rw [if_pos hfull, if_pos (by simp [hfull])]
        exact ⟨by rw [if_neg nofun]; exact hexact, nofun, h.bounded⟩
      · rw [if_neg hfull, if_neg (by simpa [hterminated] using hfull)]
        exact h.count hacceptor (Nat.not_le.mp hfull)
    · exact h
  · rw [overwritten_of_ne server hevent, Nat.add_zero]
    rcases event with _ | _ | _ | _ | ⟨i, event⟩ | i | call | _ <;> dsimp only
    · split
      · rename_i hwaiting
        have hexact := h.exact
        rw [if_neg (by rw [hwaiting.1]; decide)] at hexact
        exact ⟨by rw [if_neg nofun]; exact hexact, nofun, h.bounded⟩
      · exact h
    · split
      · rename_i hpolling
        have hexact := h.exact
        rw [if_neg (by rw [hpolling]; decide)] at hexact
        refine ⟨by rw [if_neg nofun]; exact hexact, ?_, h.bounded⟩
        rintro active ⟨⟩
        exact Nat.le_refl _
      · exact h
    · exact absurd rfl hevent
    · split
      · rename_i hstored
        exact h.spawn hstored
      · exact h
    · rcases hsession : server.sessions[i]? with _ | session
      · exact h
      · dsimp only
        split
        · exact h
        · exact h.frame rfl (running_set hsession
            (Session.step_departed server.limits server.runtime session server.stopping event)) rfl rfl
    · rcases hsession : server.sessions[i]? with _ | session
      · exact h
      · dsimp only
        split
        · rename_i hleaves
          exact h.depart hsession (by simpa using (Bool.and_eq_true_iff.mp hleaves).2)
        · exact h
    · exact h.frame rfl rfl rfl rfl
    · exact h.frame rfl rfl rfl rfl

/-- **A run**: by induction on the steps. -/
theorem Counted.run (h : server.Counted lost) (events : List ServerEvent) :
    (server.run events).1.Counted (lost + server.overwrittenBy events) := by
  induction events generalizing server lost with
  | nil => exact h
  | cons event events ih =>
    have hlater := ih (h.step event)
    rw [Nat.add_assoc] at hlater
    exact hlater

theorem started_counted (runtime : PartitionRuntime) (limits : Limits) :
    (started runtime limits).Counted 0 := ⟨rfl, nofun, Nat.zero_le _⟩

/-! ## When the counter is exact -/

/-- If the next step writes the counter, nothing has decremented it since it was read. -/
def Undisturbed (server : Server) (event : ServerEvent) : Prop :=
  ∀ active, server.acceptor = .loaded active → event = .counted → server.terminated = false →
    active < server.limits.maxSessions → server.activeSessions = active

/-- Every step of a run is undisturbed. -/
abbrev RunsUndisturbed : Server → List ServerEvent → Prop := Throughout Undisturbed

theorem Counted.undisturbed_iff (h : server.Counted lost) (event : ServerEvent) :
    server.Undisturbed event ↔ server.overwritten event = 0 := by
  refine ⟨fun hu => ?_, fun hzero active hloaded hevent hterminated hroom => ?_⟩
  · unfold overwritten
    split
    · rename_i active hloaded
      split
      · rfl
      · rename_i hruns
        rw [Bool.or_eq_true, not_or, decide_eq_true_eq] at hruns
        have hsame := hu active hloaded rfl (Bool.eq_false_iff.mpr hruns.1) (Nat.not_le.mp hruns.2)
        omega
    · rfl
  · subst hevent
    unfold overwritten at hzero
    rw [hloaded] at hzero
    dsimp only at hzero
    rw [if_neg (by simp [hterminated, hroom])] at hzero
    have hle := h.loaded active hloaded
    omega

theorem Counted.runsUndisturbed_iff (h : server.Counted lost) (events : List ServerEvent) :
    server.RunsUndisturbed events ↔ server.overwrittenBy events = 0 := by
  induction events generalizing server lost with
  | nil => exact ⟨fun _ => rfl, fun _ => throughout_nil _ _⟩
  | cons event events ih =>
    rw [overwrittenBy, Nat.add_eq_zero_iff, ← h.undisturbed_iff event, ← ih (h.step event)]
    exact throughout_cons

/-- **Session accounting.**  In every run, whenever the acceptor is between two turns, or about to read
the counter, `active_sessions` is the number of running sessions if and only if no session left
between a read and the write that followed it; and then what the acceptor compares with the bound is
that number. -/
theorem active_sessions_exact_iff (runtime : PartitionRuntime) (limits : Limits)
    (events : List ServerEvent) :
    let server := ((started runtime limits).run events).1
    server.acceptor = .waiting ∨ server.acceptor = .polling →
      (server.activeSessions = server.running ↔
          (started runtime limits).RunsUndisturbed events) ∧
        ((started runtime limits).RunsUndisturbed events → server.acceptor = .polling →
          server.terminated = false →
          (server.step .connected).1.acceptor = .loaded server.running) := by
  intro server hbetween
  have hcounted := (started_counted runtime limits).run events
  rw [Nat.zero_add] at hcounted
  have hexact : server.activeSessions
      = server.running + (started runtime limits).overwrittenBy events := by
    have hvalue := hcounted.exact
    rwa [if_neg (by rcases hbetween with h | h <;> rw [h] <;> decide)] at hvalue
  have hiff := (started_counted runtime limits).runsUndisturbed_iff events
  refine ⟨?_, fun hu hpolling hruns => ?_⟩
  · rw [hiff]
    omega
  · rw [hiff.mp hu, Nat.add_zero] at hexact
    unfold Server.step
    rw [if_neg (by simp [hruns])]
    dsimp only
    rw [if_pos hpolling, hexact]

/-- A session leaves while the next one is being counted. -/
def departsMeanwhile : List ServerEvent :=
  [.looped, .connected, .counted, .spawned, .looped, .connected, .session 0 .hungUp, .departed 0,
    .counted, .spawned]

/-- One session runs, and two are counted. -/
theorem active_sessions_drifts :
    ¬ ∀ (runtime : PartitionRuntime) (limits : Limits) (events : List ServerEvent),
      ((started runtime limits).run events).1.acceptor = .waiting →
        ((started runtime limits).run events).1.activeSessions
          = ((started runtime limits).run events).1.running := by
  intro h
  have hrun : ((started smallRuntime {}).run departsMeanwhile).1.acceptor = .waiting ∧
      ((started smallRuntime {}).run departsMeanwhile).1.activeSessions = 2 ∧
      ((started smallRuntime {}).run departsMeanwhile).1.running = 1 := by
    decide +kernel
  have hsame := h smallRuntime {} departsMeanwhile hrun.1
  omega

/-- Two sessions, one after the other. -/
theorem active_sessions_exact_twice :
    ((started smallRuntime {}).run [.looped, .connected, .counted, .spawned]).1.activeSessions
      = ((started smallRuntime {}).run [.looped, .connected, .counted, .spawned]).1.running :=
  ((active_sessions_exact_iff smallRuntime {} [.looped, .connected, .counted, .spawned])
    (.inl (by decide +kernel))).1.mpr
      (((started_counted smallRuntime {}).runsUndisturbed_iff _).mpr (by decide +kernel))

end Server

end FabricPartition
