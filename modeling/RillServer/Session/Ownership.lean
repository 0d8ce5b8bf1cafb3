import RillServer.Session.Closing

/-!
# Who has an agent

The pool does not look whether an agent it is given is already idle, so it depends on its callers
to give each agent back once. This module gives every agent one owner: the pool, a login attempt
(`held`), a connection table (`conn`) or a `close_agent` that has sent it back (`closing`), and
shows that each segment passes on only what its activity owns. A table keeps naming its agent
while `close_agent` waits for the pool, so `conns` allows for a recycle in progress.

Two orders break this. Two `close_agent`s of one table can both read the agent before one of them
clears the field (`RecyclesOnce` excludes it), and the pool can hand the agent out again while the
table still names it (`TakesForgotten` excludes it; only the routing of messages depends on it,
which is why `OwnInv.routes` is conditional).

An agent that is given back may still carry out a client message. `OwnInv.messages` says of the
messages under way that their agents serve their senders and are in no login attempt's hands;
`CMD.get` is to leave such an agent alone (`TakesIdle`).
-/

namespace RillServer.Cluster

open Coroutine

inductive Owner where
  | unborn
  | pool
  | held (id : Nat)
  | closing (id : Nat)
  | conn (c : Ref)
  | gone
  deriving DecidableEq

abbrev Owners := Addr → Owner

/-- The agent was last started for this uid. -/
def Serves (agents : Agents) (x : Addr) (uid : Uid) : Prop :=
  ∃ conf, agents x = some conf ∧ conf.uid = uid

section Claims

variable (s : Shared) (owner : Owners) (id : Nat)

/-- What a request in flight knows about its agent. -/
def ReqOwn : Req → Prop
  | .pool (.recycle (some x)) => owner x = .held id ∨ owner x = .closing id
  | .agent x (.start _) => owner x = .held id
  | .gate _ (.register data) =>
      owner data.agent = .held id ∧ Serves s.agents data.agent data.uid
  | _ => True

/-- What a suspended coroutine knows about its agent. -/
def PcOwn : Pc → Prop
  | .login (.agentStart _ _ x) => owner x = .held id
  | .login (.centerRegister _ uid x) => owner x = .held id ∧ Serves s.agents x uid
  | .gate (.clearLogout _ data) => owner data.agent = .held id
  | .gate (.closeRecycle _ _ _ (some x)) => owner x ≠ .unborn
  | .agent (.startLoad x conf) => owner x = .held id ∧ s.agents x = some conf
  | _ => True

/-- An address that is returned belongs to the activity, and an agent that answers `start` serves
the uid it was started for. -/
def RetOwn (v : Val) (st : List Pc) : Prop :=
  (∀ x, v = .addr x → owner x = .held id) ∧
    ∀ a uid x rest, st = .login (.agentStart a uid x) :: rest → v.truthy = true →
      Serves s.agents x uid

def ActOwn : Act → Prop
  | .calling r st => ReqOwn s owner id r ∧ ∀ pc ∈ st, PcOwn s owner id pc
  | .returning v st => RetOwn s owner id v st ∧ ∀ pc ∈ st, PcOwn s owner id pc

end Claims

/-- A step that activity `i` does not notice: what it owns stays its own and is not started
again. -/
structure Keeps (i : Nat) (s : Shared) (owner : Owners) (s' : Shared) (owner' : Owners) :
    Prop where
  held : ∀ x, owner x = .held i → owner' x = .held i
  agents : ∀ x, owner x = .held i → s'.agents x = s.agents x
  closing : ∀ x, owner x = .closing i → owner' x = .closing i
  born : ∀ x, owner x ≠ .unborn → owner' x ≠ .unborn

section Keeps

variable {i : Nat} {s s' : Shared} {owner owner' : Owners}

/-- Passing on one agent does not concern an agent with another owner. -/
theorem update_of_owner_ne {x y : Addr} {p q : Owner} (before : owner y = q)
    (ne : owner x ≠ q) : Function.update owner x p y = q := by
  rw [Function.update_of_ne ?_]
  · exact before
  · intro here
    rw [here] at before
    exact ne before

theorem Keeps.serves (keeps : Keeps i s owner s' owner') {x : Addr} {uid : Uid}
    (known : owner x = .held i ∧ Serves s.agents x uid) :
    owner' x = .held i ∧ Serves s'.agents x uid := by
  obtain ⟨hold, conf, started, same⟩ := known
  exact ⟨keeps.held x hold, conf, (keeps.agents x hold).trans started, same⟩

theorem PcOwn.keep (keeps : Keeps i s owner s' owner') {pc : Pc} (ok : PcOwn s owner i pc) :
    PcOwn s' owner' i pc := by
  cases pc with
  | login pc => cases pc <;> first | exact keeps.held _ ok | exact keeps.serves ok | exact ok
  | center pc => exact ok
  | gate pc =>
      cases pc with
      | closeRecycle g fd c x =>
          cases x with
          | none => exact ok
          | some x => exact keeps.born x ok
      | clearLogout g data => exact keeps.held _ ok
      | closeLogout | clearRecycle => exact ok
  | pool pc => exact ok
  | agent pc =>
      obtain ⟨hold, started⟩ := ok
      exact ⟨keeps.held _ hold, (keeps.agents _ hold).trans started⟩

theorem ReqOwn.keep (keeps : Keeps i s owner s' owner') {r : Req} (ok : ReqOwn s owner i r) :
    ReqOwn s' owner' i r := by
  cases r with
  | pool r =>
      cases r with
      | get => exact ok
      | recycle x =>
          cases x with
          | none => exact ok
          | some x =>
              rcases ok with hold | sent
              · exact .inl (keeps.held x hold)
              · exact .inr (keeps.closing x sent)
  | agent x r => cases r <;> first | exact keeps.held x ok | exact ok
  | gate g r => cases r <;> first | exact keeps.serves ok | exact ok
  | login | center | outside => exact ok

theorem ActOwn.keep (keeps : Keeps i s owner s' owner') {a : Act} (ok : ActOwn s owner i a) :
    ActOwn s' owner' i a := by
  cases a with
  | calling r st => exact ⟨ok.1.keep keeps, fun pc member => (ok.2 pc member).keep keeps⟩
  | returning v st =>
      obtain ⟨⟨fetched, started⟩, pcs⟩ := ok
      refine ⟨⟨fun x same => keeps.held x (fetched x same), ?_⟩,
        fun pc member => (pcs pc member).keep keeps⟩
      intro a uid x rest top truth
      have hold : PcOwn s owner i (.login (.agentStart a uid x)) :=
        pcs _ (by rw [top]; exact List.mem_cons_self)
      exact (keeps.serves ⟨hold, started a uid x rest top truth⟩).2

theorem Keeps.refl (agents : s'.agents = s.agents) : Keeps i s owner s' owner where
  held _ hold := hold
  agents _ _ := by rw [agents]
  closing _ sent := sent
  born _ ne := ne

/-- Passing on an agent that activity `i` has nothing to do with. -/
theorem Keeps.of_pass {x : Addr} {p : Owner} (notHeld : owner x ≠ .held i)
    (notSent : owner x ≠ .closing i) (born : p ≠ .unborn) (agents : s'.agents = s.agents) :
    Keeps i s owner s' (Function.update owner x p) where
  held _ hold := update_of_owner_ne hold notHeld
  agents _ _ := by rw [agents]
  closing _ sent := update_of_owner_ne sent notSent
  born y ne := by
    by_cases here : y = x
    · subst here
      rw [Function.update_self]
      exact born
    · rw [Function.update_of_ne here]
      exact ne

/-- Starting an agent that activity `i` does not hold. -/
theorem Keeps.of_start {x : Addr} {conf : Option AgentConf} (notHeld : owner x ≠ .held i)
    (agents : s'.agents = Function.update s.agents x conf) : Keeps i s owner s' owner where
  held _ hold := hold
  agents y hold := by
    rw [agents, Function.update_of_ne ?_]
    intro here
    rw [here] at hold
    exact notHeld hold
  closing _ sent := sent
  born _ ne := ne

end Keeps

/-! ## What an answer and the stack below it know -/

section Answers

variable {s : Shared} {owner : Owners} {id : Nat} {v : Val} {st : List Pc}

/-- An answer that is no address, to anyone but a caller of `start`. -/
theorem RetOwn.of_plain {r : Req} (chain : typing.Chain r st) (plain : ∀ x, v ≠ .addr x)
    (notStart : ∀ x conf, r ≠ .agent x (.start conf)) : RetOwn s owner id v st := by
  refine ⟨fun x same => (plain x same).elim, ?_⟩
  rintro a uid x rest rfl _
  exact (notStart _ _ chain.1).elim

theorem RetOwn.of_start {y : Addr} {conf : AgentConf}
    (chain : typing.Chain (.agent y (.start conf)) st) (plain : ∀ x, v ≠ .addr x)
    (started : v.truthy = true → Serves s.agents y conf.uid) : RetOwn s owner id v st := by
  refine ⟨fun x same => (plain x same).elim, ?_⟩
  rintro a uid x rest rfl truth
  cases chain.1
  exact started truth

theorem PcOwn.of_closeAgent {g : Addr} {fd : Fd} (chain : typing.Chain (.gate g (.closeAgent fd)) st) :
    ∀ pc ∈ st, PcOwn s owner id pc := by
  cases st with
  | nil => simp
  | cons pc st =>
      obtain ⟨uid, data, rfl⟩ := awaits_closeAgent chain.1
      refine List.forall_mem_cons.mpr ⟨True.intro, ?_⟩
      cases st with
      | nil => simp
      | cons pc st =>
          obtain ⟨a, rfl, -⟩ := awaits_centerLogin chain.2.1
          rw [chain_login chain.2.2]
          exact List.forall_mem_singleton.mpr True.intro

theorem PcOwn.of_register {g : Addr} {data : RegisterData}
    (chain : typing.Chain (.gate g (.register data)) st) : ∀ pc ∈ st, PcOwn s owner id pc := by
  cases st with
  | nil => simp
  | cons pc st =>
      obtain ⟨a, uid, x, rfl, -⟩ := awaits_gateRegister chain.1
      rw [chain_login chain.2]
      exact List.forall_mem_singleton.mpr True.intro

/-- Whoever gives an agent back has no further claim on it. -/
theorem PcOwn.of_recycle {x : Addr} (chain : typing.Chain (.pool (.recycle (some x))) st)
    (born : owner x ≠ .unborn) : ∀ pc ∈ st, PcOwn s owner id pc := by
  cases st with
  | nil => simp
  | cons pc st =>
      obtain ⟨waits, rest⟩ := chain
      rcases awaits_recycle waits with ⟨a, uid, rfl⟩ | ⟨g, fd, c, rfl⟩ | ⟨g, data, rfl⟩
      · rw [chain_login rest]
        exact List.forall_mem_singleton.mpr True.intro
      · exact List.forall_mem_cons.mpr ⟨born, .of_closeAgent rest⟩
      · exact List.forall_mem_cons.mpr ⟨True.intro, .of_register rest⟩

end Answers

/-! ## The invariant -/

/-- A `close_agent` of this table is waiting for the pool to take this agent. -/
def Recycling (w : World) (c : Ref) (x : Addr) : Prop :=
  ∃ g fd, w.Suspended (.gate (.closeRecycle g fd c (some x)))

/-- The table and the agent of a `close_agent` that waits for the pool to take an agent. -/
def Pc.recycles : Pc → Option (Ref × Addr)
  | .gate (.closeRecycle _ _ c (some x)) => some (c, x)
  | _ => none

/-- Where the agent that an open table names can be: nobody else has it. -/
def Placed (c : Ref) : Owner → Prop
  | .held _ => False
  | .conn c' => c' = c
  | _ => True

/-- The invariant, with the owners of the agents as ghost state. `flying` are the client messages
under way, with the agent that carries each of them out. -/
structure OwnInv (strict : Prop) (flying : Uid → Addr → Prop) (w : World) (owner : Owners) :
    Prop where
  fresh : ∀ x, w.shared.nextAddr ≤ x → owner x = .unborn
  nodup : w.shared.agentpool.pool.Nodup
  pooled : ∀ x ∈ w.shared.agentpool.pool, owner x = .pool
  acts : ∀ i a, w.acts i = some a → ActOwn w.shared owner i a
  conns : ∀ c session x, w.shared.gates.conn c = some session → session.agent = some x →
    owner x = .conn c ∨ Recycling w c x
  routes : strict → ∀ sock c session x, w.shared.gates.connection sock = some c →
    w.shared.gates.conn c = some session → session.agent = some x →
    Placed c (owner x) ∧ Serves w.shared.agents x session.uid
  messages : ∀ uid x, flying uid x →
    Serves w.shared.agents x uid ∧ owner x ≠ .unborn ∧ ∀ i, owner x ≠ .held i

/-- No `close_agent` takes an agent to the pool while another one of the same table waits for the
pool to take it. -/
def RecyclesOnce (w : World) : Event Ora Env → Prop
  | .run id _ => ∀ v g fd c st x,
      w.acts id = some (.returning v (.gate (.closeLogout g fd c) :: st)) →
      (w.shared.gates.conn c).bind Session.agent = some x → ¬ Recycling w c x
  | .arrive _ _ => True

/-- `CMD.get` takes no agent that the table of an open connection still names. -/
def TakesForgotten (w : World) : Event Ora Env → Prop
  | .run id _ => ∀ st x, w.acts id = some (.calling (.pool .get) st) →
      w.shared.agentpool.pool.getLast? = some x →
      ∀ sock c session, w.shared.gates.connection sock = some c →
        w.shared.gates.conn c = some session → session.agent ≠ some x
  | .arrive _ _ => True

/-- `CMD.get` takes no agent that still carries out a message. -/
def TakesIdle (flying : Uid → Addr → Prop) (w : World) : Event Ora Env → Prop
  | .run id _ => ∀ st x, w.acts id = some (.calling (.pool .get) st) →
      w.shared.agentpool.pool.getLast? = some x → ∀ uid, ¬ flying uid x
  | .arrive _ _ => True

section Segment

variable {strict : Prop} {flying : Uid → Addr → Prop} {w : World} {owner owner' : Owners} {id : Nat} {o : Ora} {s' : Shared}
  {a a' : Act}

/-- A recycle in progress goes on, unless this segment resumed it. -/
theorem Recycling.after_advance (found : w.acts id = some a)
    (adv : code.advance o w.shared a = some (s', a')) {c : Ref} {x : Addr}
    (waits : Recycling w c x) :
    (∃ v g fd st, a = .returning v (.gate (.closeRecycle g fd c (some x)) :: st)) ∨
      Recycling ⟨s', Function.update w.acts id (some a')⟩ c x := by
  obtain ⟨g, fd, susp⟩ := waits
  rcases susp.after_advance found adv with ⟨v, st, resumed⟩ | still
  · exact .inl ⟨v, g, fd, st, resumed⟩
  · exact .inr ⟨g, fd, still⟩

/-- The first segment of a request resumes no recycling. -/
theorem Recycling.after_call {r : Req} {st : List Pc} {c : Ref} {x : Addr}
    (waits : Recycling w c x) (found : w.acts id = some (.calling r st))
    (adv : code.advance o w.shared (.calling r st) = some (s', a')) :
    Recycling ⟨s', Function.update w.acts id (some a')⟩ c x := by
  rcases waits.after_advance found adv with ⟨v, g, fd, st', resumed⟩ | still
  · cases resumed
  · exact still

/-- An agent that a table names has been launched. -/
theorem OwnInv.born_of_named (inv : OwnInv strict flying w owner) {c : Ref} {session : Session} {x : Addr}
    (stored : w.shared.gates.conn c = some session) (named : session.agent = some x) :
    owner x ≠ .unborn := by
  intro unborn
  rcases inv.conns c session x stored named with bound | ⟨g, fd, i, a, found, member⟩
  · rw [unborn] at bound
    cases bound
  · have ok := inv.acts i a found
    have pc : PcOwn w.shared owner i (.gate (.closeRecycle g fd c (some x))) := by
      cases a <;> exact ok.2 _ member
    exact pc unborn

/-- The part of the shared state that `OwnInv` is about. -/
def agentState (s : Shared) : Gates × AgentPool × Agents × Addr :=
  (s.gates, s.agentpool, s.agents, s.nextAddr)

/-- A segment that changes neither the gates, the pool, the agents nor an owner. -/
theorem OwnInv.of_same (inv : OwnInv strict flying w owner) (found : w.acts id = some a)
    (adv : code.advance o w.shared a = some (s', a')) (same : agentState s' = agentState w.shared)
    (resumes : a.resumed.bind Pc.recycles = none) (mine : ActOwn w.shared owner id a') :
    OwnInv strict flying ⟨s', Function.update w.acts id (some a')⟩ owner := by
  simp only [agentState, Prod.mk.injEq] at same
  obtain ⟨gates, agentpool, agents, nextAddr⟩ := same
  have keeps : ∀ i, Keeps i w.shared owner s' owner := fun _ => .refl agents
  exact {
    fresh := fun x later => inv.fresh x (by rw [← nextAddr]; exact later)
    nodup := by rw [show (⟨s', _⟩ : World).shared.agentpool = _ from agentpool]; exact inv.nodup
    pooled := by rw [show (⟨s', _⟩ : World).shared.agentpool = _ from agentpool]; exact inv.pooled
    acts := Code.acts_of_run inv.acts (fun i _ _ ok => ok.keep (keeps i)) (mine.keep (keeps id))
    conns := by
      intro c session x stored named
      rw [show (⟨s', _⟩ : World).shared.gates = _ from gates] at stored
      rcases inv.conns c session x stored named with bound | waits
      · exact .inl bound
      · rcases waits.after_advance found adv with ⟨v, g, fd, st, resumed⟩ | still
        · rw [resumed] at resumes
          cases resumes
        · exact .inr still
    routes := by
      rw [show (⟨s', _⟩ : World).shared.gates = _ from gates,
        show (⟨s', _⟩ : World).shared.agents = _ from agents]
      exact inv.routes
    messages := by
      rw [show (⟨s', _⟩ : World).shared.agents = _ from agents]
      exact inv.messages }

/-- The first segment of a request that passes on an agent which no table owns. -/
theorem OwnInv.of_pass (inv : OwnInv strict flying w owner) {r : Req} {st : List Pc}
    (found : w.acts id = some (.calling r st))
    (adv : code.advance o w.shared (.calling r st) = some (s', a'))
    (gates : s'.gates = w.shared.gates) (agents : s'.agents = w.shared.agents) {x : Addr}
    {p : Owner} (notConn : ∀ c, owner x ≠ .conn c)
    (others : ∀ i, i ≠ id → owner x ≠ .held i ∧ owner x ≠ .closing i) (born : p ≠ .unborn)
    (fresh : ∀ y, s'.nextAddr ≤ y → Function.update owner x p y = .unborn)
    (nodup : s'.agentpool.pool.Nodup)
    (pooled : ∀ y ∈ s'.agentpool.pool, Function.update owner x p y = .pool)
    (placed : strict → ∀ sock c session, w.shared.gates.connection sock = some c →
      w.shared.gates.conn c = some session → session.agent = some x → Placed c p)
    (idle : ∀ uid, flying uid x → ∀ i, p ≠ .held i)
    (mine : ActOwn s' (Function.update owner x p) id a') :
    OwnInv strict flying ⟨s', Function.update w.acts id (some a')⟩ (Function.update owner x p) where
  fresh := fresh
  nodup := nodup
  pooled := pooled
  acts := Code.acts_of_run inv.acts
    (fun i _ other ok => ok.keep (.of_pass (others i other).1 (others i other).2 born agents)) mine
  conns := by
    intro c session y stored named
    rw [show (⟨s', _⟩ : World).shared.gates = _ from gates] at stored
    rcases inv.conns c session y stored named with bound | waits
    · exact .inl (update_of_owner_ne bound (notConn c))
    · exact .inr (waits.after_call found adv)
  routes := by
    intro holds sock c session y opened stored named
    rw [show (⟨s', _⟩ : World).shared.gates = _ from gates] at opened stored
    rw [show (⟨s', _⟩ : World).shared.agents = _ from agents]
    obtain ⟨place, serves⟩ := inv.routes holds sock c session y opened stored named
    refine ⟨?_, serves⟩
    by_cases here : y = x
    · subst here
      rw [Function.update_self]
      exact placed holds sock c session opened stored named
    · rw [Function.update_of_ne here]
      exact place
  messages := by
    intro uid y underWay
    rw [show (⟨s', _⟩ : World).shared.agents = _ from agents]
    obtain ⟨serves, launched, notHeld⟩ := inv.messages uid y underWay
    refine ⟨serves, ?_⟩
    by_cases here : y = x
    · subst here
      rw [Function.update_self]
      exact ⟨born, idle uid underWay⟩
    · rw [Function.update_of_ne here]
      exact ⟨launched, notHeld⟩

/-- An agent on its way back to the pool belongs to the activity that sends it. -/
theorem owner_of_recycle {x : Addr} (req : ReqOwn w.shared owner id (.pool (.recycle (some x)))) :
    (∀ c, owner x ≠ .conn c) ∧ (∀ i, i ≠ id → owner x ≠ .held i ∧ owner x ≠ .closing i) ∧
      owner x ≠ .pool ∧ owner x ≠ .unborn := by
  rcases req with hold | sent
  · rw [hold]
    exact ⟨by simp, fun i other => by simp [other.symm], by simp, by simp⟩
  · rw [sent]
    exact ⟨by simp, fun i other => by simp [other.symm], by simp, by simp⟩

/-- A command of the pool. -/
theorem OwnInv.pool (inv : OwnInv strict flying w owner) {r : PoolReq} {agentpool : AgentPool}
    {out : AgentPool.Out} {st : List Pc} (found : w.acts id = some (.calling (.pool r) st))
    (takes : strict → TakesForgotten w (.run id o)) (idles : TakesIdle flying w (.run id o))
    (chain : typing.Chain (.pool r) st)
    (served : AgentPool.Served w.shared.agentpool r agentpool out)
    (adv : code.advance o w.shared (.calling (.pool r) st) =
      some ({ w.shared with agentpool }, (out.mapPc .pool).settle st)) :
    ∃ owner', OwnInv strict flying ⟨{ w.shared with agentpool },
      Function.update w.acts id (some ((out.mapPc .pool).settle st))⟩ owner' := by
  obtain ⟨req, pcs⟩ := inv.acts _ _ found
  cases served with
  | @taken x rest split =>
      have idle : owner x = .pool := inv.pooled x (by rw [split]; simp)
      have nodup := inv.nodup
      rw [split] at nodup
      obtain ⟨nodup, -, apart⟩ := List.nodup_append.mp nodup
      refine ⟨_, inv.of_pass (x := x) (p := .held id) found adv rfl rfl (by simp [idle])
        (by simp [idle]) (by simp) ?_ nodup ?_ ?_ ?_ ⟨⟨?_, ?_⟩, ?_⟩⟩
      · exact fun y later => update_of_owner_ne (inv.fresh y later) (by simp [idle])
      · intro y member
        rw [Function.update_of_ne (apart y member x (by simp))]
        exact inv.pooled y (by rw [split]; exact List.mem_append_left _ member)
      · intro holds sock c session opened stored named
        exact (takes holds st x found (by simp [split]) sock c session opened stored named).elim
      · exact fun uid underWay => (idles st x found (by simp [split]) uid underWay).elim
      · intro y same
        cases same
        exact Function.update_self ..
      · rintro a uid y below rfl _
        cases chain.1
      · exact fun pc member =>
          (pcs pc member).keep (.of_pass (by simp [idle]) (by simp [idle]) (by simp) rfl)
  | launching =>
      exact ⟨owner, inv.of_same found adv rfl rfl
        ⟨True.intro, List.forall_mem_cons.mpr ⟨True.intro, pcs⟩⟩⟩
  | missing =>
      exact ⟨owner, inv.of_same found adv rfl rfl
        ⟨.of_plain chain (by simp) (by simp), pcs⟩⟩
  | @removed x =>
      obtain ⟨notConn, others, notPool, born⟩ := owner_of_recycle req
      exact ⟨_, inv.of_pass (x := x) (p := .gone) found adv rfl rfl notConn others (by simp)
        (fun y later => update_of_owner_ne (inv.fresh y later) born) inv.nodup
        (fun y member => update_of_owner_ne (inv.pooled y member) notPool)
        (fun _ _ _ _ _ _ _ => True.intro) (by simp)
        ⟨.of_plain chain (by simp) (by simp), .of_recycle chain (by simp)⟩⟩
  | @returned x =>
      obtain ⟨notConn, others, notPool, born⟩ := owner_of_recycle req
      have absent : x ∉ w.shared.agentpool.pool := fun member => notPool (inv.pooled x member)
      refine ⟨_, inv.of_pass (x := x) (p := .pool) found adv rfl rfl notConn others (by simp)
        (fun y later => update_of_owner_ne (inv.fresh y later) born)
        (List.nodup_cons.mpr ⟨absent, inv.nodup⟩) ?_ (fun _ _ _ _ _ _ _ => True.intro) (by simp)
        ⟨.of_plain chain (by simp) (by simp), .of_recycle chain (by simp)⟩⟩
      intro y member
      rcases List.mem_cons.mp member with rfl | old
      · exact Function.update_self ..
      · exact update_of_owner_ne (inv.pooled y old) notPool

/-- A command of an agent. -/
theorem OwnInv.agent (inv : OwnInv strict flying w owner) {x : Addr} {r : AgentReq} {agents : Agents}
    {out : Agent.Out} {st : List Pc} (found : w.acts id = some (.calling (.agent x r) st))
    (chain : typing.Chain (.agent x r) st) (served : Agent.Served w.shared.agents x r agents out)
    (adv : code.advance o w.shared (.calling (.agent x r) st) =
      some ({ w.shared with agents }, (out.mapPc .agent).settle st)) :
    OwnInv strict flying ⟨{ w.shared with agents },
      Function.update w.acts id (some ((out.mapPc .agent).settle st))⟩ owner := by
  obtain ⟨req, pcs⟩ := inv.acts _ _ found
  cases served with
  | failed =>
      refine inv.of_same found adv rfl rfl ⟨?_, pcs⟩
      cases r with
      | start conf => exact .of_start chain (by simp) (by simp [Val.truthy])
      | kick uid => exact .of_plain chain (by simp) (by simp)
  | kicked =>
      exact inv.of_same found adv rfl rfl
        ⟨.of_plain chain (by simp) (by simp), pcs⟩
  | @started conf =>
      have hold : owner x = .held id := req
      have below : ∀ pc ∈ st, PcOwn { w.shared with
          agents := Function.update w.shared.agents x (some conf) } owner id pc := by
        cases st with
        | nil => simp
        | cons pc st =>
            obtain ⟨a, uid, rfl, -⟩ := awaits_start chain.1
            rw [chain_login chain.2]
            exact List.forall_mem_singleton.mpr hold
      exact {
        fresh := inv.fresh
        nodup := inv.nodup
        pooled := inv.pooled
        acts := Code.acts_of_run inv.acts
          (fun i _ other ok => ok.keep (.of_start (by simp [hold, other.symm]) rfl))
          ⟨True.intro, List.forall_mem_cons.mpr ⟨⟨hold, Function.update_self ..⟩, below⟩⟩
        conns := by
          intro c session y stored named
          rcases inv.conns c session y stored named with bound | waits
          · exact .inl bound
          · exact .inr (waits.after_call found adv)
        routes := by
          intro holds sock c session y opened stored named
          obtain ⟨place, conf', started, same⟩ :=
            inv.routes holds sock c session y opened stored named
          have other : y ≠ x := by
            rintro rfl
            rw [hold] at place
            exact place
          exact ⟨place, conf', (Function.update_of_ne other _ _).trans started, same⟩
        messages := by
          intro uid y underWay
          obtain ⟨⟨conf', started, same⟩, launched, notHeld⟩ := inv.messages uid y underWay
          have other : y ≠ x := by
            rintro rfl
            exact notHeld id hold
          exact ⟨⟨conf', (Function.update_of_ne other _ _).trans started, same⟩, launched,
            notHeld⟩ }

/-- An answer from outside: a value, or the address of a new service. -/
theorem OwnInv.outside (inv : OwnInv strict flying w owner) {r : OutsideReq} {v : Val} {st : List Pc}
    (found : w.acts id = some (.calling (.outside r) st)) (chain : typing.Chain (.outside r) st)
    (answered : Answered w.shared r s' v)
    (adv : code.advance o w.shared (.calling (.outside r) st) = some (s', .returning v st)) :
    ∃ owner', OwnInv strict flying ⟨s', Function.update w.acts id (some (.returning v st))⟩ owner' := by
  obtain ⟨-, pcs⟩ := inv.acts _ _ found
  cases answered with
  | value plain =>
      exact ⟨owner, inv.of_same found adv rfl rfl
        ⟨.of_plain chain plain (by simp), pcs⟩⟩
  | launched =>
      have unborn : owner w.shared.nextAddr = .unborn := inv.fresh _ (Nat.le_refl _)
      refine ⟨_, inv.of_pass (x := w.shared.nextAddr) (p := .held id) found adv rfl rfl
        (by simp [unborn]) (by simp [unborn]) (by simp) ?_ inv.nodup ?_ ?_ ?_ ⟨⟨?_, ?_⟩, ?_⟩⟩
      · intro y later
        have later : w.shared.nextAddr + 1 ≤ y := later
        rw [Function.update_of_ne (Nat.ne_of_gt later)]
        exact inv.fresh y (Nat.le_of_succ_le later)
      · exact fun y member => update_of_owner_ne (inv.pooled y member) (by simp [unborn])
      · intro _ sock c session _ stored named
        exact (inv.born_of_named stored named unborn).elim
      · exact fun uid underWay => ((inv.messages uid _ underWay).2.1 unborn).elim
      · intro y same
        cases same
        exact Function.update_self ..
      · rintro a uid y below rfl _
        cases chain.1
      · exact fun pc member =>
          (pcs pc member).keep (.of_pass (by simp [unborn]) (by simp [unborn]) (by simp) rfl)

/-- The rest of `forward.login` passes its agent from call to call. -/
theorem OwnInv.loginBack (inv : OwnInv strict flying w owner) {pc : Login.Pc} {v : Val} {out : Login.Out}
    {st : List Pc} (found : w.acts id = some (.returning v (.login pc :: st)))
    (ok : typing.Ok (.returning v (.login pc :: st))) (resumed : Login.Resumed pc v out)
    (adv : code.advance o w.shared (.returning v (.login pc :: st)) =
      some (w.shared, (out.mapPc .login).settle st)) :
    OwnInv strict flying ⟨w.shared,
      Function.update w.acts id (some ((out.mapPc .login).settle st))⟩ owner := by
  obtain ⟨q, -, -, chain⟩ := ok
  have empty : st = [] := by
    cases pc <;> exact chain_login chain
  subst empty
  obtain ⟨⟨fetched, started⟩, pcs⟩ := inv.acts _ _ found
  have known := pcs _ List.mem_cons_self
  apply inv.of_same found adv rfl rfl
  cases resumed with
  | failed | noAgent | ended => exact ⟨⟨by simp, by simp⟩, by simp⟩
  | authed | admitted | bound | unbound | recycled =>
      exact ⟨True.intro, List.forall_mem_singleton.mpr True.intro⟩
  | got =>
      have hold := fetched _ rfl
      exact ⟨hold, List.forall_mem_singleton.mpr hold⟩
  | started truth =>
      have serves := started _ _ _ _ rfl truth
      exact ⟨True.intro, List.forall_mem_singleton.mpr ⟨known, serves⟩⟩
  | notStarted _ => exact ⟨True.intro, List.forall_mem_singleton.mpr True.intro⟩
  | registered _ => exact ⟨known, List.forall_mem_singleton.mpr True.intro⟩
  | unregistered _ => exact ⟨.inl known.1, List.forall_mem_singleton.mpr True.intro⟩

/-- `register` hands the login's agent to the table. -/
theorem OwnInv.gateBinds (inv : OwnInv strict flying w owner) {g : Addr} {data : RegisterData} {c : Ref}
    {gates : Gates} {st : List Pc}
    (found : w.acts id = some (.calling (.gate g (.register data)) st))
    (chain : typing.Chain (.gate g (.register data)) st)
    (bound : gates = { w.shared.gates with
      conn := Function.update w.shared.gates.conn c (some ⟨data.uid, data.key, some data.agent⟩) })
    (adv : code.advance o w.shared (.calling (.gate g (.register data)) st) =
      some ({ w.shared with gates }, .returning (.bool true) st)) :
    OwnInv strict flying ⟨{ w.shared with gates },
      Function.update w.acts id (some (.returning (.bool true) st))⟩
      (Function.update owner data.agent (.conn c)) := by
  subst bound
  obtain ⟨⟨hold, serves⟩, -⟩ := inv.acts _ _ found
  refine {
    fresh := fun y later => update_of_owner_ne (inv.fresh y later) (by simp [hold])
    nodup := inv.nodup
    pooled := fun y member => update_of_owner_ne (inv.pooled y member) (by simp [hold])
    acts := Code.acts_of_run inv.acts
      (fun i _ other ok => ok.keep
        (.of_pass (by simp [hold, other.symm]) (by simp [hold]) (by simp) rfl))
      ⟨.of_plain chain (by simp) (by simp), PcOwn.of_register chain⟩
    conns := ?_
    routes := ?_
    messages := ?_ }
  · intro c' session y stored named
    rcases update_eq_some stored with ⟨rfl, new⟩ | ⟨-, earlier⟩
    · cases new
      cases named
      exact .inl (Function.update_self ..)
    · rcases inv.conns c' session y earlier named with kept | waits
      · exact .inl (update_of_owner_ne kept (by simp [hold]))
      · exact .inr (waits.after_call found adv)
  · intro holds sock c' session y opened stored named
    rcases update_eq_some stored with ⟨rfl, new⟩ | ⟨-, earlier⟩
    · cases new
      cases named
      rw [Function.update_self]
      exact ⟨rfl, serves⟩
    · obtain ⟨place, serves'⟩ := inv.routes holds sock c' session y opened earlier named
      have other : y ≠ data.agent := by
        rintro rfl
        rw [hold] at place
        exact place
      rw [Function.update_of_ne other]
      exact ⟨place, serves'⟩
  · intro uid y underWay
    obtain ⟨served, launched, notHeld⟩ := inv.messages uid y underWay
    have other : y ≠ data.agent := by
      rintro rfl
      exact notHeld id hold
    rw [Function.update_of_ne other]
    exact ⟨served, launched, notHeld⟩

/-- A socket without a session is forgotten. -/
theorem OwnInv.gateForgets (inv : OwnInv strict flying w owner) {g : Addr} {fd : Fd} {st : List Pc}
    (found : w.acts id = some (.calling (.gate g (.closeAgent fd)) st))
    (chain : typing.Chain (.gate g (.closeAgent fd)) st)
    (adv : code.advance o w.shared (.calling (.gate g (.closeAgent fd)) st) =
      some ({ w.shared with gates := Gate.forget w.shared.gates g fd },
        .returning (.bool true) st)) :
    OwnInv strict flying ⟨{ w.shared with gates := Gate.forget w.shared.gates g fd },
      Function.update w.acts id (some (.returning (.bool true) st))⟩ owner := by
  obtain ⟨-, pcs⟩ := inv.acts _ _ found
  refine {
    fresh := inv.fresh
    nodup := inv.nodup
    pooled := inv.pooled
    acts := Code.acts_of_run inv.acts (fun i _ _ ok => ok.keep (.refl rfl))
      ⟨.of_plain chain (by simp) (by simp), pcs⟩
    conns := ?_
    routes := ?_
    messages := inv.messages }
  · intro c session y stored named
    rcases inv.conns c session y stored named with bound | waits
    · exact .inl bound
    · exact .inr (waits.after_call found adv)
  · intro holds sock c session y opened stored named
    exact inv.routes holds sock c session y (Gate.connection_of_forget opened).2 stored named

/-- The first segment of a gate request. -/
theorem OwnInv.gate (inv : OwnInv strict flying w owner) {g : Addr} {r : GateReq} {gates : Gates}
    {out : Gate.Out} {st : List Pc} (found : w.acts id = some (.calling (.gate g r) st))
    (chain : typing.Chain (.gate g r) st) (served : Gate.Served w.shared.gates g r gates out)
    (adv : code.advance o w.shared (.calling (.gate g r) st) =
      some ({ w.shared with gates }, (out.mapPc .gate).settle st)) :
    ∃ owner', OwnInv strict flying ⟨{ w.shared with gates },
      Function.update w.acts id (some ((out.mapPc .gate).settle st))⟩ owner' := by
  obtain ⟨req, pcs⟩ := inv.acts _ _ found
  cases served with
  | bound opened => exact ⟨_, inv.gateBinds found chain rfl adv⟩
  | clearing _ =>
      exact ⟨owner, inv.of_same found adv rfl rfl
        ⟨True.intro, List.forall_mem_cons.mpr ⟨req.1, pcs⟩⟩⟩
  | forgotten unbound => exact ⟨_, inv.gateForgets found chain adv⟩
  | closing _ _ =>
      exact ⟨owner, inv.of_same found adv rfl rfl
        ⟨True.intro, List.forall_mem_cons.mpr ⟨True.intro, pcs⟩⟩⟩

/-- `close_agent` takes the agent of its table to the pool: with no other recycle of it in
progress, the table still owns it. -/
theorem OwnInv.recycling (inv : OwnInv strict flying w owner) (once : RecyclesOnce w (.run id o))
    {g : Addr} {fd : Fd} {c : Ref} {v : Val} {st : List Pc}
    (found : w.acts id = some (.returning v (.gate (.closeLogout g fd c) :: st)))
    (chain : typing.Chain (.gate g (.closeAgent fd)) st)
    (adv : code.advance o w.shared (.returning v (.gate (.closeLogout g fd c) :: st)) =
      some (w.shared, .calling (.pool (.recycle ((w.shared.gates.conn c).bind Session.agent)))
        (.gate (.closeRecycle g fd c ((w.shared.gates.conn c).bind Session.agent)) :: st))) :
    ∃ owner', OwnInv strict flying ⟨w.shared, Function.update w.acts id
      (some (.calling (.pool (.recycle ((w.shared.gates.conn c).bind Session.agent)))
        (.gate (.closeRecycle g fd c ((w.shared.gates.conn c).bind Session.agent)) :: st)))⟩
      owner' := by
  have once := once v g fd c st
  generalize named : (w.shared.gates.conn c).bind Session.agent = x at adv once ⊢
  cases x with
  | none =>
      exact ⟨owner, inv.of_same found adv rfl rfl
        ⟨True.intro, List.forall_mem_cons.mpr ⟨True.intro, .of_closeAgent chain⟩⟩⟩
  | some x =>
      obtain ⟨session, stored, named⟩ := Option.bind_eq_some_iff.mp named
      have bound : owner x = .conn c := by
        rcases inv.conns c session x stored named with bound | waits
        · exact bound
        · exact (once x found rfl waits).elim
      have still : ∀ {c' y}, Recycling w c' y → Recycling ⟨w.shared, Function.update w.acts id
          (some (.calling (.pool (.recycle (some x)))
            (.gate (.closeRecycle g fd c (some x)) :: st)))⟩ c' y := by
        intro c' y waits
        rcases waits.after_advance found adv with ⟨v', g', fd', st', resumed⟩ | still
        · cases resumed
        · exact still
      refine ⟨Function.update owner x (.closing id), {
        fresh := fun y later => update_of_owner_ne (inv.fresh y later) (by simp [bound])
        nodup := inv.nodup
        pooled := fun y member => update_of_owner_ne (inv.pooled y member) (by simp [bound])
        acts := Code.acts_of_run inv.acts
          (fun i _ _ ok => ok.keep (.of_pass (by simp [bound]) (by simp [bound]) (by simp) rfl))
          ⟨.inr (Function.update_self ..), List.forall_mem_cons.mpr
            ⟨by simp [PcOwn], .of_closeAgent chain⟩⟩
        conns := ?_
        routes := ?_
        messages := ?_ }⟩
      · intro c' session' y stored' named'
        rcases inv.conns c' session' y stored' named' with bound' | waits
        · by_cases here : y = x
          · subst here
            rw [bound] at bound'
            cases bound'
            exact .inr ⟨g, fd, id, _, Function.update_self .., List.mem_cons_self⟩
          · rw [Function.update_of_ne here]
            exact .inl bound'
        · exact .inr (still waits)
      · intro holds sock c' session' y opened stored' named'
        obtain ⟨place, serves⟩ := inv.routes holds sock c' session' y opened stored' named'
        refine ⟨?_, serves⟩
        by_cases here : y = x
        · subst here
          rw [Function.update_self]
          exact True.intro
        · rw [Function.update_of_ne here]
          exact place
      · intro uid y underWay
        obtain ⟨served, launched, notHeld⟩ := inv.messages uid y underWay
        refine ⟨served, ?_⟩
        by_cases here : y = x
        · subst here
          rw [Function.update_self]
          exact ⟨by simp, by simp⟩
        · rw [Function.update_of_ne here]
          exact ⟨launched, notHeld⟩

/-- The last segment of `close_agent`: the table stops naming its agent. -/
theorem OwnInv.closed (inv : OwnInv strict flying w owner) {g : Addr} {fd : Fd} {c : Ref}
    {x : Option Addr} {v : Val} {st : List Pc}
    (found : w.acts id = some (.returning v (.gate (.closeRecycle g fd c x) :: st)))
    (chain : typing.Chain (.gate g (.closeAgent fd)) st)
    (adv : code.advance o w.shared (.returning v (.gate (.closeRecycle g fd c x) :: st)) =
      some ({ w.shared with gates := Gate.forget (Gate.clearAgentField w.shared.gates c) g fd },
        .returning (.bool true) st)) :
    OwnInv strict flying ⟨{ w.shared with
        gates := Gate.forget (Gate.clearAgentField w.shared.gates c) g fd },
      Function.update w.acts id (some (.returning (.bool true) st))⟩ owner := by
  have cleared : ∀ {c' session y}, (Gate.clearAgentField w.shared.gates c).conn c' = some session →
      session.agent = some y → c' ≠ c ∧ w.shared.gates.conn c' = some session := by
    intro c' session y stored named
    rcases Gate.conn_of_clearAgentField stored with ⟨-, old, -, rfl⟩ | other
    · cases named
    · exact other
  exact {
    fresh := inv.fresh
    nodup := inv.nodup
    pooled := inv.pooled
    acts := Code.acts_of_run inv.acts (fun i _ _ ok => ok.keep (.refl rfl))
      ⟨.of_plain chain (by simp) (by simp), .of_closeAgent chain⟩
    conns := by
      intro c' session y stored named
      obtain ⟨other, stored⟩ := cleared stored named
      rcases inv.conns c' session y stored named with bound | waits
      · exact .inl bound
      · rcases waits.after_advance found adv with ⟨v', g', fd', st', resumed⟩ | still
        · cases resumed
          exact (other rfl).elim
        · exact .inr still
    routes := by
      intro holds sock c' session y opened stored named
      obtain ⟨-, before⟩ := Gate.connection_of_forget opened
      exact inv.routes holds sock c' session y before (cleared stored named).2 named
    messages := inv.messages }

theorem OwnInv.gateBack (inv : OwnInv strict flying w owner) (once : RecyclesOnce w (.run id o))
    {pc : Gate.Pc} {v : Val} {gates : Gates} {out : Gate.Out} {st : List Pc}
    (found : w.acts id = some (.returning v (.gate pc :: st)))
    (ok : typing.Ok (.returning v (.gate pc :: st)))
    (resumed : Gate.Resumed w.shared.gates pc v gates out)
    (adv : code.advance o w.shared (.returning v (.gate pc :: st)) =
      some ({ w.shared with gates }, (out.mapPc .gate).settle st)) :
    ∃ owner', OwnInv strict flying ⟨{ w.shared with gates },
      Function.update w.acts id (some ((out.mapPc .gate).settle st))⟩ owner' := by
  obtain ⟨q, answered, waits, chain⟩ := ok
  obtain ⟨-, pcs⟩ := inv.acts _ _ found
  obtain ⟨known, below⟩ := List.forall_mem_cons.mp pcs
  cases resumed with
  | failed =>
      refine ⟨owner, inv.of_same found adv rfl ?_ ⟨?_, below⟩⟩
      · -- an agent that the pool is given is always taken
        cases pc with
        | closeRecycle g fd c agent =>
            cases agent with
            | none => rfl
            | some x =>
                cases waits
                cases answered
        | closeLogout | clearLogout | clearRecycle => rfl
      · refine .of_plain chain (by simp) ?_
        cases pc <;> simp [typing, Pc.serves]
  | recycling _ => exact inv.recycling once found chain adv
  | closed _ => exact ⟨owner, inv.closed found chain adv⟩
  | clearing _ =>
      exact ⟨owner, inv.of_same found adv rfl rfl
        ⟨.inl known, List.forall_mem_cons.mpr ⟨True.intro, below⟩⟩⟩
  | cleared _ =>
      exact ⟨owner, inv.of_same found adv rfl rfl
        ⟨.of_plain chain (by simp) (by simp [typing, Pc.serves]), below⟩⟩

theorem OwnInv.advance (inv : OwnInv strict flying w owner)
    (linked : ∀ id a, w.acts id = some a → typing.Ok a) (once : RecyclesOnce w (.run id o))
    (takes : strict → TakesForgotten w (.run id o)) (idles : TakesIdle flying w (.run id o))
    (found : w.acts id = some a)
    (adv : code.advance o w.shared a = some (s', a')) :
    ∃ owner', OwnInv strict flying ⟨s', Function.update w.acts id (some a')⟩ owner' := by
  have ok := linked id a found
  have mine := inv.acts id a found
  cases moved_of_advance adv with
  | login =>
      exact ⟨owner, inv.of_same found adv rfl rfl
        ⟨True.intro, List.forall_mem_cons.mpr ⟨True.intro, mine.2⟩⟩⟩
  | center served =>
      refine ⟨owner, inv.of_same found adv rfl rfl ?_⟩
      cases served with
      | kicking | leaving => exact ⟨True.intro, List.forall_mem_cons.mpr ⟨True.intro, mine.2⟩⟩
      | stored | refused | marked | unmarked | dropped | absent | foreign | watched =>
          exact ⟨.of_plain ok (by simp) (by simp), mine.2⟩
  | gate served => exact inv.gate found ok served adv
  | pool served => exact inv.pool found takes idles ok served adv
  | agent served => exact ⟨owner, inv.agent found ok served adv⟩
  | outside answered => exact inv.outside found ok answered adv
  | loginBack resumed => exact ⟨owner, inv.loginBack found ok resumed adv⟩
  | @centerBack pc v users out st resumed =>
      obtain ⟨q, -, -, chain⟩ := ok
      refine ⟨owner, inv.of_same found adv rfl rfl ?_⟩
      have plain : ∀ {v'}, (∀ x, v' ≠ Val.addr x) → ActOwn w.shared owner id (.returning v' st) := by
        intro v' plain
        refine ⟨.of_plain chain plain ?_, (List.forall_mem_cons.mp mine.2).2⟩
        cases pc <;> simp [typing, Pc.serves]
      cases resumed with
      | stored | dropped => exact plain (by simp)
      | failed value => exact plain (by rcases value with rfl | rfl <;> simp)
  | gateBack resumed => exact inv.gateBack once found ok resumed adv
  | poolBack value =>
      obtain ⟨q, -, -, chain⟩ := ok
      refine ⟨owner, inv.of_same found adv rfl rfl
        ⟨?_, (List.forall_mem_cons.mp mine.2).2⟩⟩
      rcases value with rfl | rfl
      · refine ⟨mine.1.1, ?_⟩
        rintro a uid y below rfl _
        cases chain.1
      · exact .of_plain chain (by simp) (by simp [typing, Pc.serves])
  | agentBack value =>
      obtain ⟨q, -, -, chain⟩ := ok
      obtain ⟨⟨hold, started⟩, below⟩ := List.forall_mem_cons.mp mine.2
      refine ⟨owner, inv.of_same found adv rfl rfl
        ⟨.of_start chain ?_ fun _ => ⟨_, started, rfl⟩, below⟩⟩
      rcases value with rfl | rfl <;> simp

/-- A new connection names no agent. -/
theorem OwnInv.connect (inv : OwnInv strict flying w owner) {g : Addr} {fd : Fd} :
    OwnInv strict flying ⟨{ w.shared with gates := Gate.connect w.shared.gates g fd }, w.acts⟩ owner where
  fresh := inv.fresh
  nodup := inv.nodup
  pooled := inv.pooled
  acts i a found := (inv.acts i a found).keep (.refl rfl)
  conns c session x stored named := by
    by_cases new : c = w.shared.gates.nextRef
    · subst new
      simp [Gate.connect] at stored
    · simp only [Gate.connect, Function.update_of_ne new] at stored
      exact inv.conns c session x stored named
  routes holds sock c session x opened stored named := by
    by_cases new : c = w.shared.gates.nextRef
    · subst new
      simp [Gate.connect] at stored
    · simp only [Gate.connect, Function.update_of_ne new] at stored
      by_cases here : sock = (g, fd)
      · subst here
        simp only [Gate.connect, Function.update_self, Option.some.injEq] at opened
        exact (new opened.symm).elim
      · simp only [Gate.connect, Function.update_of_ne here] at opened
        exact inv.routes holds sock c session x opened stored named
  messages := inv.messages

/-- A new activity has no agent yet. -/
theorem OwnInv.start (inv : OwnInv strict flying w owner) (fresh : w.acts id = none) {r : Req}
    (free : ReqOwn w.shared owner id r) :
    OwnInv strict flying ⟨w.shared, Function.update w.acts id (some (.calling r []))⟩ owner where
  fresh := inv.fresh
  nodup := inv.nodup
  pooled := inv.pooled
  acts := Code.acts_of_run inv.acts (fun _ _ _ ok => ok) ⟨free, by simp⟩
  conns c session x stored named := by
    rcases inv.conns c session x stored named with bound | ⟨g, fd, susp⟩
    · exact .inl bound
    · exact .inr ⟨g, fd, susp.after_begin fresh⟩
  routes := inv.routes
  messages := inv.messages

/-- Messages come to an end. -/
theorem OwnInv.mono (inv : OwnInv strict flying w owner) {flying' : Uid → Addr → Prop}
    (fewer : ∀ uid x, flying' uid x → flying uid x) : OwnInv strict flying' w owner :=
  { inv with messages := fun uid x underWay => inv.messages uid x (fewer uid x underWay) }

/-- A message that is sent on to the agent of an open table. -/
theorem OwnInv.forward (inv : OwnInv strict flying w owner) (holds : strict) {sock : Addr × Fd}
    {c : Ref} {session : Session} {x : Addr} (opened : w.shared.gates.connection sock = some c)
    (stored : w.shared.gates.conn c = some session) (named : session.agent = some x)
    {flying' : Uid → Addr → Prop}
    (more : ∀ uid y, flying' uid y → flying uid y ∨ uid = session.uid ∧ y = x) :
    OwnInv strict flying' w owner := by
  refine { inv with messages := fun uid y underWay => ?_ }
  rcases more uid y underWay with before | ⟨rfl, rfl⟩
  · exact inv.messages uid y before
  · obtain ⟨place, serves⟩ := inv.routes holds sock c session y opened stored named
    refine ⟨serves, inv.born_of_named stored named, ?_⟩
    intro i hold
    rw [hold] at place
    exact place

end Segment

theorem OwnInv.step {strict : Prop} {flying : Uid → Addr → Prop} {w w' : World} {owner : Owners} {e : Event Ora Env}
    (inv : OwnInv strict flying w owner) (linked : ∀ id a, w.acts id = some a → typing.Ok a)
    (once : RecyclesOnce w e) (takes : strict → TakesForgotten w e) (idles : TakesIdle flying w e)
    (stepped : code.step w e = some w') : ∃ owner', OwnInv strict flying w' owner' := by
  rcases Code.step_cases stepped with ⟨id, o, a, s', a', rfl, found, adv, rfl⟩ |
    ⟨id, x, s', -, happened, rfl⟩ | ⟨id, x, s', r, -, fresh, happened, rfl⟩
  · exact inv.advance linked once takes idles found adv
  · rcases arrive_none happened with ⟨g, fd, -, -, rfl⟩ | ⟨g, fd, msg, -, rfl⟩
    · exact ⟨owner, inv.connect⟩
    · exact ⟨owner, inv⟩
  · obtain ⟨rfl, ⟨fd, msg, g, rfl⟩ | ⟨g, fd, rfl⟩⟩ := arrive_some happened
    · exact ⟨owner, inv.start fresh True.intro⟩
    · exact ⟨owner, inv.start fresh True.intro⟩

/-- No message is under way. -/
def NoMessage (_ : Uid) (_ : Addr) : Prop := False

/-- At first the pool owns all agents that there are. -/
theorem OwnInv.init (strict : Prop) (maxnum recyremove : Nat) :
    OwnInv strict NoMessage (init maxnum recyremove)
      (fun x => if x < maxnum then .pool else .unborn) := by
  refine {
    fresh := ?_
    nodup := List.nodup_range
    pooled := ?_
    acts := fun _ _ found => by cases found
    conns := fun _ _ _ stored => by cases stored
    routes := fun _ _ _ _ _ opened => by cases opened
    messages := fun _ _ underWay => underWay.elim }
  · intro x later
    exact if_neg (Nat.not_lt.mpr later)
  · intro x member
    exact if_pos (List.mem_range.mp member)

theorem takesIdle_noMessage (w : World) (e : Event Ora Env) : TakesIdle NoMessage w e := by
  cases e with
  | run id o => exact fun _ _ _ _ _ underWay => underWay
  | arrive => exact True.intro

/-- In every world that a guarded run reaches, every agent has one owner. -/
theorem ownInv_of_reach (strict : Prop) {maxnum recyremove : Nat} {w : World}
    (reached : code.Reach (fun w e => RecyclesOnce w e ∧ (strict → TakesForgotten w e))
      (init maxnum recyremove) w) : ∃ owner, OwnInv strict NoMessage w owner := by
  induction reached with
  | refl => exact ⟨_, .init strict maxnum recyremove⟩
  | tail before good stepped ih =>
      obtain ⟨owner, inv⟩ := ih
      exact inv.step (linked_of_reach before) good.1 good.2 (takesIdle_noMessage _ _) stepped

end RillServer.Cluster
