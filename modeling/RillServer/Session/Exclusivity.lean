import RillServer.Session.Ownership

/-!
# Agents are not shared

A live session has its agent to itself: a login attempt that was handed one, or a connection that
is registered and not inside `close_agent`. Both own the agent in the sense of `OwnInv`, and an
agent has one owner (`agent_exclusivity`).

When a disconnect and a kick of one socket overlap, both read `c.agent` before either clears it,
and the pool has the agent twice (`recycled_twice`).
-/

namespace RillServer.Cluster

open Coroutine

/-- A live session: a login attempt, by its activity, or a connection. -/
inductive Holder where
  | attempt (id : Nat)
  | connection (sock : Addr × Fd)
  deriving DecidableEq

/-- A live session has this agent. -/
inductive Holds (w : World) : Holder → Addr → Prop
  /-- the answer of `CMD.get` is on its way -/
  | fetched {id : Nat} {x : Addr} {st : List Pc} :
    w.acts id = some (.returning (.addr x) st) → Holds w (.attempt id) x
  | starting {id : Nat} {act : Act} {a : Login.Attempt} {uid : Uid} {x : Addr} :
    w.acts id = some act → .login (.agentStart a uid x) ∈ act.stack → Holds w (.attempt id) x
  | admitting {id : Nat} {act : Act} {a : Login.Attempt} {uid : Uid} {x : Addr} :
    w.acts id = some act → .login (.centerRegister a uid x) ∈ act.stack → Holds w (.attempt id) x
  | registering {id : Nat} {g : Addr} {data : RegisterData} {st : List Pc} :
    w.acts id = some (.calling (.gate g (.register data)) st) →
    Holds w (.attempt id) data.agent
  | live {sock : Addr × Fd} {session : Session} {x : Addr} : Registered w sock session →
    session.agent = some x → Holds w (.connection sock) x

/-- An agent is in the pool at most once, not while a live session has it, and no two live
sessions have it. -/
def AgentExclusive (w : World) : Prop :=
  w.shared.agentpool.pool.Nodup ∧ (∀ h x, Holds w h x → x ∉ w.shared.agentpool.pool) ∧
    ∀ h h' x, Holds w h x → Holds w h' x → h = h'

/-- Agent exclusivity in every world that a cluster with these pool settings reaches by steps that
satisfy `guard`. -/
def AgentExclusivity (guard : World → Event Ora Env → Prop) (maxnum recyremove : Nat) : Prop :=
  ∀ w, code.Reach guard (init maxnum recyremove) w → AgentExclusive w

theorem ActOwn.pcs {s : Shared} {owner : Owners} {id : Nat} {a : Act} (ok : ActOwn s owner id a) :
    ∀ pc ∈ a.stack, PcOwn s owner id pc := by
  cases a <;> exact ok.2

/-- A live session owns its agent. -/
theorem Holds.owner {strict : Prop} {flying : Uid → Addr → Prop} {w : World} {owner : Owners}
    (inv : OwnInv strict flying w owner) {h : Holder} {x : Addr} (holds : Holds w h x) :
    (∃ id, h = .attempt id ∧ owner x = .held id) ∨
      ∃ sock c, h = .connection sock ∧ w.shared.gates.connection sock = some c ∧
        owner x = .conn c := by
  cases holds with
  | fetched found => exact .inl ⟨_, rfl, (inv.acts _ _ found).1.1 _ rfl⟩
  | starting found member => exact .inl ⟨_, rfl, (inv.acts _ _ found).pcs _ member⟩
  | admitting found member => exact .inl ⟨_, rfl, ((inv.acts _ _ found).pcs _ member).1⟩
  | registering found => exact .inl ⟨_, rfl, (inv.acts _ _ found).1.1⟩
  | live registered named =>
      obtain ⟨c, opened, stored, quiet⟩ := registered
      rcases inv.conns c _ x stored named with bound | ⟨g, fd, susp⟩
      · exact .inr ⟨_, c, rfl, opened, bound⟩
      · exact (quiet ⟨_, g, fd, susp, rfl⟩).elim

/-- **Agent exclusivity.** As long as no two `close_agent`s take the agent of one table to the
pool, an agent is idle at most once or has one live session. -/
theorem agent_exclusivity (maxnum recyremove : Nat) :
    AgentExclusivity RecyclesOnce maxnum recyremove := by
  intro w reached
  obtain ⟨owner, inv⟩ := ownInv_of_reach False
    (reached.mono fun once => ⟨once, False.elim⟩)
  have tables := gateInv_of_reach reached
  refine ⟨inv.nodup, ?_, ?_⟩
  · intro h x holds member
    have idle := inv.pooled x member
    rcases holds.owner inv with ⟨id, -, hold⟩ | ⟨sock, c, -, -, bound⟩
    · rw [idle] at hold
      cases hold
    · rw [idle] at bound
      cases bound
  · intro h h' x holds holds'
    rcases holds.owner inv with ⟨id, rfl, own⟩ | ⟨sock, c, rfl, opened, own⟩
    · rcases holds'.owner inv with ⟨id', rfl, own'⟩ | ⟨sock', c', rfl, opened', own'⟩
      · rw [own] at own'
        rw [Owner.held.inj own']
      · rw [own] at own'
        cases own'
    · rcases holds'.owner inv with ⟨id', rfl, own'⟩ | ⟨sock', c', rfl, opened', own'⟩
      · rw [own] at own'
        cases own'
      · rw [own] at own'
        cases own'
        rw [tables.inj opened opened']

/-- Uid 1 logs in on socket 1; a disconnect and a kick of the socket both finish their logout
before one of them clears the table, and both recycle agent 0. -/
def overlappingCloses : List (Event Ora Env) :=
  [Event.arrive 0 (Env.connect 7 1),
    Event.arrive 0 (Env.message 7 1 ⟨1, "player", "secret", "login", 1⟩),
    Event.run 0 Ora.ok, Event.run 0 (Ora.uid 1)] ++ List.replicate 15 (Event.run 0 Ora.ok) ++
  [Event.arrive 1 (Env.disconnect 7 1), Event.run 1 Ora.ok, Event.run 1 Ora.ok,
    Event.run 1 Ora.ok, Event.run 1 Ora.ok, Event.arrive 2 (Env.kick 7 1), Event.run 2 Ora.ok,
    Event.run 2 Ora.ok, Event.run 1 Ora.ok, Event.run 1 Ora.ok, Event.run 2 Ora.ok,
    Event.run 2 Ora.ok]

/-- Without the guard, the pool can have an agent twice. -/
theorem recycled_twice : ¬ AgentExclusivity (fun _ _ => True) 1 0 := by
  intro exclusive
  have ran : (code.runs (init 1 0) overlappingCloses).map (fun w => w.shared.agentpool.pool) =
      some [0, 0] := rfl
  obtain ⟨w, run, twice⟩ := Option.map_eq_some_iff.mp ran
  have nodup := (exclusive w (Code.Reach.refl.of_runs run)).1
  rw [twice] at nodup
  exact absurd nodup (by decide)

end RillServer.Cluster
