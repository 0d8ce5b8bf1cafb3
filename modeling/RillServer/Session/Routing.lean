import RillServer.Session.Exclusivity
import RillServer.Lib.Machine

/-!
# Messages reach the player's own agent

`handler.message` redirects what a registered connection receives to `c.agent`. The agent carries
the message out in a coroutine of its own, outside the queue of its commands: `dispatch` of
`wsagent.lua` may be suspended in a call to a room while the agent is kicked, given back and handed
out again. So the messages under way are part of the state here, from the redirect to the end of
`dispatch`.

An open table names its agent until the last segment of `close_agent`, after the pool took the agent
back. If `CMD.get` takes no agent that an open table still names, and none that still carries out a
message, then every message is redirected to an agent that serves its sender and that nobody else
has, and that stays so until it is carried out (`messages_reach_own_agent`). If it takes an agent
that a table still names, the next message of the old socket goes to the agent of another player
(`message_reaches_other_player`).
-/

namespace RillServer.Cluster

open Coroutine

/-- `handler.message` for a connection with a session: the uid of the session and the agent the
message is redirected to. -/
def redirect (s : Shared) (sock : Addr × Fd) : Option (Uid × Addr) :=
  match s.gates.connection sock with
  | none => none
  | some c =>
      match s.gates.conn c with
      | none => none
      | some session => session.agent.map fun x => (session.uid, x)

/-- The cluster, and the client messages under way: whose it is, and which agent has it. -/
structure Traffic where
  world : World
  messages : List (Uid × Addr)

/-- What an event of the cluster redirects. -/
def redirected (s : Shared) : Event Ora Env → Option (Uid × Addr)
  | .arrive _ (.message g fd _) => redirect s (g, fd)
  | _ => none

namespace Traffic

inductive Event where
  | session (e : Coroutine.Event Ora Env)
  /-- an agent carries out its message up to the next call, or to the end -/
  | dispatch (message : Nat) (ends : Bool)

/-- What `dispatch` does in an agent concerns no session. -/
def step (t : Traffic) : Event → Option Traffic
  | .session e =>
      (code.step t.world e).map fun w =>
        ⟨w, t.messages ++ (redirected t.world.shared e).toList⟩
  | .dispatch message ends =>
      if message < t.messages.length then
        some ⟨t.world, if ends then t.messages.eraseIdx message else t.messages⟩
      else none

/-- Nobody has connected. -/
def start (maxnum recyremove : Nat) : Traffic := ⟨init maxnum recyremove, []⟩

/-- A message of the player is under way in the agent. -/
def UnderWay (t : Traffic) (uid : Uid) (x : Addr) : Prop := (uid, x) ∈ t.messages

/-- What the steps of the cluster keep to: agents are recycled once, and handed out only when their
table has forgotten them and their messages have been carried out. -/
def HandsOver (t : Traffic) : Event → Prop
  | .session e => RecyclesOnce t.world e ∧ TakesForgotten t.world e ∧ TakesIdle t.UnderWay t.world e
  | .dispatch _ _ => True

end Traffic

/-- In everything that a cluster with these pool settings comes to by steps that satisfy `guard`, the
agent that a message is redirected to, and the agent that has a message, was last started for the
uid of the message, and no live session of another player has it. -/
def MessageIsolation (guard : Traffic → Traffic.Event → Prop) (maxnum recyremove : Nat) : Prop :=
  ∀ t, Machine.Reach Traffic.step guard (.start maxnum recyremove) t →
    (∀ sock uid x, redirect t.world.shared sock = some (uid, x) →
      Serves t.world.shared.agents x uid ∧ ∀ h, Holds t.world h x → h = .connection sock) ∧
    ∀ uid x, t.UnderWay uid x → Serves t.world.shared.agents x uid ∧
      ∀ h, Holds t.world h x → ∃ sock, h = .connection sock ∧
        redirect t.world.shared sock = some (uid, x)

theorem redirect_cases {s : Shared} {sock : Addr × Fd} {uid : Uid} {x : Addr}
    (sent : redirect s sock = some (uid, x)) :
    ∃ c session, s.gates.connection sock = some c ∧ s.gates.conn c = some session ∧
      session.agent = some x ∧ session.uid = uid := by
  unfold redirect at sent
  split at sent
  · cases sent
  · rename_i c opened
    split at sent
    · cases sent
    · rename_i session stored
      obtain ⟨y, named, same⟩ := Option.map_eq_some_iff.mp sent
      cases same
      exact ⟨c, session, opened, stored, named, rfl⟩

/-- An agent was last started for one uid. -/
theorem Serves.eq {agents : Agents} {x : Addr} {uid uid' : Uid} (serves : Serves agents x uid)
    (serves' : Serves agents x uid') : uid = uid' := by
  obtain ⟨conf, started, rfl⟩ := serves
  obtain ⟨conf', started', rfl⟩ := serves'
  rw [started] at started'
  cases started'
  rfl

/-- A message that is redirected is one more that is under way. -/
theorem OwnInv.session {messages : List (Uid × Addr)} {w w' : World} {owner : Owners}
    {e : Event Ora Env} (inv : OwnInv True (fun uid x => (uid, x) ∈ messages) w owner)
    (linked : ∀ id a, w.acts id = some a → typing.Ok a) (once : RecyclesOnce w e)
    (takes : TakesForgotten w e) (idles : TakesIdle (fun uid x => (uid, x) ∈ messages) w e)
    (stepped : code.step w e = some w') : ∃ owner', OwnInv True
      (fun uid x => (uid, x) ∈ messages ++ (redirected w.shared e).toList) w' owner' := by
  cases sent : redirected w.shared e with
  | none =>
      obtain ⟨owner', inv'⟩ := inv.step linked once (fun _ => takes) idles stepped
      refine ⟨owner', inv'.mono ?_⟩
      intro uid x member
      rwa [Option.toList_none, List.append_nil] at member
  | some m =>
      cases e with
      | run id o => cases sent
      | arrive id what =>
          cases what with
          | message g fd msg =>
              have sent : redirect w.shared (g, fd) = some (m.1, m.2) := sent
              obtain ⟨c, session, opened, stored, named, same⟩ := redirect_cases sent
              have forwarded :
                  OwnInv True (fun uid x => (uid, x) ∈ messages ++ [m]) w owner := by
                refine inv.forward trivial opened stored named ?_
                intro uid y member
                rcases List.mem_append.mp member with before | new
                · exact .inl before
                · have equal := List.mem_singleton.mp new
                  rw [same, ← equal]
                  exact .inr ⟨rfl, rfl⟩
              exact forwarded.step linked once (fun _ => takes) True.intro stepped
          | connect | disconnect | kick => cases sent

namespace Traffic

variable {t t' : Traffic} {maxnum recyremove : Nat} {guard : Traffic → Event → Prop}

/-- The sessions of the cluster are as without the messages. -/
theorem world_of_reach (reached : Machine.Reach step guard (start maxnum recyremove) t) :
    code.Reach (fun _ _ => True) (init maxnum recyremove) t.world := by
  induction reached with
  | refl => exact .refl
  | @tail t t' e _ _ stepped ih =>
      cases e with
      | session e =>
          obtain ⟨w, moved, rfl⟩ := Option.map_eq_some_iff.mp stepped
          exact .tail ih trivial moved
      | dispatch message ends =>
          simp only [step] at stepped
          split at stepped
          · cases stepped
            exact ih
          · cases stepped

/-- In every run that hands agents over as it should, every agent has one owner, and messages are
under way only in agents that no login has been given. -/
theorem ownInv_of_reach (reached : Machine.Reach step HandsOver (start maxnum recyremove) t) :
    ∃ owner, OwnInv True t.UnderWay t.world owner := by
  induction reached with
  | refl =>
      exact ⟨_, (OwnInv.init True maxnum recyremove).mono fun _ _ underWay => nomatch underWay⟩
  | @tail t t' e before good stepped ih =>
      obtain ⟨owner, inv⟩ := ih
      cases e with
      | session e =>
          obtain ⟨w, moved, rfl⟩ := Option.map_eq_some_iff.mp stepped
          exact inv.session (linked_of_reach (world_of_reach before)) good.1 good.2.1 good.2.2 moved
      | dispatch message ends =>
          simp only [step] at stepped
          split at stepped
          · cases stepped
            refine ⟨owner, inv.mono ?_⟩
            intro uid x underWay
            cases ends with
            | false => exact underWay
            | true => exact List.mem_of_mem_eraseIdx underWay
          · cases stepped

end Traffic

/-- **Message routing isolation.** As long as every agent is recycled once, and handed out only
after its table forgot it and its messages were carried out, a message reaches an agent that serves
its sender and nobody else, and is carried out there. -/
theorem messages_reach_own_agent (maxnum recyremove : Nat) :
    MessageIsolation Traffic.HandsOver maxnum recyremove := by
  intro t reached
  obtain ⟨owner, inv⟩ := Traffic.ownInv_of_reach reached
  have tables := gateInv_of_reach (Traffic.world_of_reach reached)
  constructor
  · intro sock uid x sent
    obtain ⟨c, session, opened, stored, named, rfl⟩ := redirect_cases sent
    obtain ⟨place, serves⟩ := inv.routes True.intro sock c session x opened stored named
    refine ⟨serves, fun h holds => ?_⟩
    rcases holds.owner inv with ⟨id, -, hold⟩ | ⟨sock', c', rfl, opened', bound⟩
    · rw [hold] at place
      exact place.elim
    · rw [bound] at place
      have same : c' = c := place
      rw [same] at opened'
      rw [tables.inj opened' opened]
  · intro uid x underWay
    obtain ⟨serves, -, notHeld⟩ := inv.messages uid x underWay
    refine ⟨serves, fun h holds => ?_⟩
    rcases holds.owner inv with ⟨id, -, hold⟩ | ⟨sock, c, rfl, -, -⟩
    · exact (notHeld id hold).elim
    · cases holds with
      | @live sock session x registered named =>
          obtain ⟨c, opened, stored, -⟩ := registered
          obtain ⟨-, served⟩ := inv.routes True.intro sock c session x opened stored named
          refine ⟨sock, rfl, ?_⟩
          simp [redirect, opened, stored, named, serves.eq served]

/-- Uid 1 on socket 1 disconnects; the pool takes its agent back and hands it to uid 2, who logs in
on socket 2 before `close_agent` of socket 1 is resumed. -/
def takenTooSoon : List (Event Ora Env) :=
  [Event.arrive 0 (Env.connect 7 1), Event.arrive 0 (Env.connect 7 2),
    Event.arrive 0 (Env.message 7 1 ⟨1, "player", "secret", "login", 1⟩), Event.run 0 Ora.ok,
    Event.run 0 (Ora.uid 1)] ++
  List.replicate 15 (Event.run 0 Ora.ok) ++
  [Event.arrive 1 (Env.disconnect 7 1)] ++ List.replicate 6 (Event.run 1 Ora.ok) ++
  [Event.arrive 2 (Env.message 7 2 ⟨1, "other", "secret", "login", 1⟩), Event.run 2 Ora.ok,
    Event.run 2 (Ora.uid 2)] ++
  List.replicate 6 (Event.run 2 Ora.ok)

/-- A message of uid 1 is under way when its socket closes. The agent is given back, and uid 2 logs
in on socket 2 when the table of uid 1 is closed. -/
def takenWhileBusy : List (Event Ora Env) :=
  [Event.arrive 0 (Env.connect 7 1), Event.arrive 0 (Env.connect 7 2),
    Event.arrive 0 (Env.message 7 1 ⟨1, "player", "secret", "login", 1⟩), Event.run 0 Ora.ok,
    Event.run 0 (Ora.uid 1)] ++
  List.replicate 15 (Event.run 0 Ora.ok) ++
  [Event.arrive 1 (Env.message 7 1 ⟨1, "player", "secret", "enter_room", 1⟩),
    Event.arrive 1 (Env.disconnect 7 1)] ++ List.replicate 7 (Event.run 1 Ora.ok) ++
  [Event.arrive 2 (Env.message 7 2 ⟨1, "other", "secret", "login", 1⟩), Event.run 2 Ora.ok,
    Event.run 2 (Ora.uid 2)] ++
  List.replicate 6 (Event.run 2 Ora.ok)

/-- It is carried out in an agent that has been started for uid 2. -/
example : (Machine.runs Traffic.step (fun _ _ => true) (.start 1 0)
    (takenWhileBusy.map .session)).map (fun t =>
      (t.messages, t.world.shared.gates.connection (7, 1), t.world.shared.agents 0)) =
        some ([(1, 0)], none, some ⟨2, 7, 2, "other", "secret"⟩) := rfl

/-- Without the guard, a message of one player goes to an agent started for another. -/
theorem message_reaches_other_player : ¬ MessageIsolation (fun _ _ => True) 1 0 := by
  intro isolated
  have ran : (Machine.runs Traffic.step (fun _ _ => true) (.start 1 0)
      (takenTooSoon.map .session)).map (fun t =>
        (redirect t.world.shared (7, 1), t.world.shared.agents 0)) =
          some (some (1, 0), some ⟨2, 7, 2, "other", "secret"⟩) := rfl
  obtain ⟨t, run, facts⟩ := Option.map_eq_some_iff.mp ran
  simp only [Prod.mk.injEq] at facts
  obtain ⟨sent, started⟩ := facts
  have reached : Machine.Reach Traffic.step (fun _ _ => True) (.start 1 0) t :=
    .of_runs (fun _ => trivial) .refl run
  obtain ⟨⟨conf, started', same⟩, -⟩ := (isolated t reached).1 (7, 1) 1 0 sent
  rw [started] at started'
  cases started'
  cases same

end RillServer.Cluster
