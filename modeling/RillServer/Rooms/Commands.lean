import RillServer.Rooms.Presence

/-!
# Commands that run to their end

A command of an agent whose segments come one after the other, with no segment of another one
between them, is a function of what it learns from outside: `complete`. A call in it goes to the
manager, the pool or a room, and what it comes to is said once for each of them: `Got`, `Created`,
`Entered`, `Recycled` and `Left`. Each lemma takes the call off the front of a run and leaves the
run of what is suspended below it.
-/

namespace RillServer.RoomManager

open Coroutine

variable {R : Type} [DecidableEq R] [Zero R]

/-- Run an activity to its end, with what it learns from outside in each segment. -/
def complete (s : Shared R) (a : Act R) : List (Ora R) → Option (Shared R)
  | [] =>
      match a with
      | .returning _ [] => some s
      | _ => none
  | o :: os =>
      match code.advance o s a with
      | none => none
      | some (s', a') => complete s' a' os

/-! ## One segment after the other -/

variable {s s' : Shared R} {os : List (Ora R)} {st : List (Pc R)} {v : Val R}

theorem complete_calling {r : Req R}
    (ran : complete s (.calling r st) os = some s') :
    ∃ o os', os = o :: os' ∧
      complete (serve o s r).1 ((serve o s r).2.settle st) os' = some s' := by
  cases os with
  | nil => cases ran
  | cons o os => exact ⟨o, os, rfl, ran⟩

theorem complete_returning {pc : Pc R}
    (ran : complete s (.returning v (pc :: st)) os = some s') :
    ∃ o os', os = o :: os' ∧
      complete (resume s pc v).1 ((resume s pc v).2.settle st) os' = some s' := by
  cases os with
  | nil => cases ran
  | cons o os => exact ⟨o, os, rfl, ran⟩

theorem complete_done (ran : complete s (.returning v []) os = some s') : s' = s := by
  cases os with
  | nil => exact (Option.some.inj ran).symm
  | cons o os => cases ran

/-! ## Getting a service from the pool -/

/-- What a call of `get` comes to. -/
inductive Got (p : RoomPool.Pool) : RoomPool.Pool → RoomPool.Val → Prop
  | taken {p' : RoomPool.Pool} {addr : Addr} : p.pool = p'.pool ++ [addr] →
    p'.nextAddr = p.nextAddr → p'.killed = p.killed → Got p p' (.addr addr)
  | launched {p' : RoomPool.Pool} : p'.pool = p.pool → p'.nextAddr = p.nextAddr + 1 →
    p'.killed = p.killed → Got p p' (.addr p.nextAddr)
  | failed {p' : RoomPool.Pool} : p'.pool = p.pool → p.nextAddr ≤ p'.nextAddr →
    p'.killed = p.killed → Got p p' .raise

theorem complete_newservice {idx : Nat} {pc : RoomPool.Pc}
    (ran : complete s (.calling (.pool (.newservice idx)) (.pool pc :: st)) os = some s') :
    ∃ p v os', p.pool = s.pool.pool ∧ p.killed = s.pool.killed ∧
      (v = .addr s.pool.nextAddr ∧ p.nextAddr = s.pool.nextAddr + 1 ∨
        v = .raise ∧ p.nextAddr = s.pool.nextAddr) ∧
      complete { s with pool := p } (.returning (.pool v) (.pool pc :: st)) os' = some s' := by
  obtain ⟨o, os', -, ran⟩ := complete_calling ran
  have served := RoomPool.serve_spec (o == .fails) s.pool (.newservice idx)
  simp only [serve] at ran
  generalize RoomPool.serve (o == .fails) s.pool (.newservice idx) = result at served ran
  obtain ⟨p, out⟩ := result
  cases served with
  | failed => exact ⟨s.pool, .raise, os', rfl, rfl, .inr ⟨rfl, rfl⟩, ran⟩
  | @launched _ launched =>
      exact ⟨{ s.pool with nextAddr := s.pool.nextAddr + 1, launched := launched },
        .addr s.pool.nextAddr, os', rfl, rfl, .inl ⟨rfl, rfl⟩, ran⟩

theorem complete_get (ran : complete s (.calling (.pool .get) st) os = some s') :
    ∃ p v os', Got s.pool p v ∧
      complete { s with pool := p } (.returning (.pool v) st) os' = some s' := by
  obtain ⟨o, os₁, -, ran⟩ := complete_calling ran
  have served := RoomPool.serve_spec (o == .fails) s.pool .get
  simp only [serve] at ran
  generalize RoomPool.serve (o == .fails) s.pool .get = result at served ran
  obtain ⟨p, out⟩ := result
  cases served with
  | @taken addr rest same =>
      exact ⟨{ s.pool with pool := rest }, .addr addr, os₁, .taken same rfl rfl, ran⟩
  | @launching roomIdx idx =>
      obtain ⟨p, v, os₂, idle, killed, answer, launches⟩ := complete_newservice ran
      obtain ⟨o', os₃, -, ends⟩ := complete_returning launches
      clear ran launches
      have resumed := RoomPool.resume_spec p .getNew v
      simp only [resume] at ends
      generalize RoomPool.resume p .getNew v = result at resumed ends
      obtain ⟨p', out⟩ := result
      cases resumed with
      | @got room roomIdx' roomlist =>
          rcases answer with ⟨same, next⟩ | ⟨other, -⟩
          · cases same
            exact ⟨{ p with roomIdx := roomIdx', roomlist := roomlist }, _, os₃,
              .launched idle next killed, ends⟩
          · cases other
      | failed =>
          refine ⟨p', .raise, os₃, .failed idle ?_ killed, ends⟩
          rcases answer with ⟨-, next⟩ | ⟨-, next⟩
          · rw [next]
            exact Nat.le_succ _
          · exact Nat.le_of_eq next.symm

/-! ## Creating a room -/

/-- What a call of the manager's `create` does: it gets a service, and may make an entry for it and
start it. -/
inductive Created (s : Shared R) (roomId : Option R) (roomMode : Option Nat) : Shared R → Prop
  | nothing {p : RoomPool.Pool} {v : RoomPool.Val} : Got s.pool p v →
    Created s roomId roomMode { s with pool := p }
  | stored {p : RoomPool.Pool} {addr : Addr} {id : R} {rooms : Addr → Option Room} :
    roomId = some id → Got s.pool p (.addr addr) →
    (∀ other, other ≠ addr → rooms other = s.rooms other) →
    Created s roomId roomMode { s with
      pool := p
      roomMap := Function.update s.roomMap id (some ⟨addr, roomMode⟩)
      rooms := rooms }

omit [Zero R] in
theorem Created.agent {roomId : Option R} {roomMode : Option Nat}
    (created : Created s roomId roomMode s') : s'.agent = s.agent := by
  cases created with
  | nothing got => rfl
  | stored same got others => rfl

/-- `start` touches the room of its service only. -/
theorem complete_start {addr : Addr} {roomType : Option String}
    (ran : complete s (.calling (.room addr (.start roomType)) st) os = some s') :
    ∃ rooms v os', (∀ other, other ≠ addr → rooms other = s.rooms other) ∧
      complete { s with rooms := rooms } (.returning v st) os' = some s' := by
  obtain ⟨o, os', -, ran⟩ := complete_calling ran
  simp only [serve, serveRoom] at ran
  split at ran
  · exact ⟨s.rooms, .raise, os', fun _ _ => rfl, ran⟩
  · split at ran
    · exact ⟨s.rooms, .nothing, os', fun _ _ => rfl, ran⟩
    · rename_i kind _
      refine ⟨_, .answer false, os', ?_, ran⟩
      intro other differ
      exact Function.update_of_ne differ _ _

theorem complete_create {roomId : Option R} {roomType : Option String} {roomMode : Option Nat}
    (ran : complete s (.calling (.manager (.create roomId roomType roomMode)) st) os = some s') :
    ∃ s₁ v os', Created s roomId roomMode s₁ ∧ complete s₁ (.returning v st) os' = some s' := by
  obtain ⟨o₁, os₁, -, calls⟩ := complete_calling ran
  obtain ⟨p, v, os₂, got, answered⟩ := complete_get calls
  obtain ⟨o₃, os₃, -, goes⟩ := complete_returning answered
  clear ran calls answered
  simp only [resume, serve] at goes
  unfold createGot at goes
  split at goes
  · rename_i addr same
    cases same
    cases roomId with
    | none => exact ⟨_, .nothing, os₃, .nothing got, goes⟩
    | some id =>
        obtain ⟨rooms, v, os₄, others, started⟩ := complete_start goes
        obtain ⟨o₅, os₅, -, ends⟩ := complete_returning started
        clear goes started
        cases v with
        | raise => exact ⟨_, .nothing, os₅, .stored rfl got others, ends⟩
        | agent | created | entered | left | answer | pool | number | nothing | done =>
            exact ⟨_, _, os₅, .stored rfl got others, ends⟩
  · exact ⟨_, .nothing, os₃, .nothing got, goes⟩

/-! ## Entering a room -/

theorem resume_broadcast {addr : Addr} {r : RoomReq} (lives : addr ∉ s.pool.killed) :
    resume s (.roomBroadcast addr r) v = (s, .ret (.answer (v = .done))) := by
  simp [resume, lives]

/-- The broadcast of a request in a service that lives. -/
theorem complete_broadcast {addr : Addr} {r : RoomReq} {room : Room} {uid : Uid}
    (lives : addr ∉ s.pool.killed)
    (ran : complete s ((RoomManager.broadcast addr r room uid).settle st) os = some s') :
    ∃ isok os', (.fails ∉ os → isok = true ∧ .fails ∉ os') ∧
      complete s (.returning (.answer isok) st) os' = some s' := by
  unfold RoomManager.broadcast at ran
  split at ran
  · exact ⟨true, os, fun fine => ⟨rfl, fine⟩, ran⟩
  · obtain ⟨o₁, os₁, rfl, answered⟩ := complete_calling ran
    obtain ⟨o₂, os₂, rfl, ends⟩ := complete_returning answered
    simp only [serve] at ends
    rw [resume_broadcast lives] at ends
    refine ⟨_, os₂, ?_, ends⟩
    intro fine
    have fine₁ : o₁ ≠ .fails := fun same => fine (same ▸ List.mem_cons_self)
    refine ⟨by simp [fine₁], fun member => fine ?_⟩
    exact List.mem_cons_of_mem _ (List.mem_cons_of_mem _ member)

/-- What a call of the manager's `enter` does. -/
inductive Entered (s : Shared R) (roomId : R) (uid : Uid) : Shared R → Val R → Prop
  | refused {v : Val R} : (∀ forward info, v ≠ .entered true forward info) →
    Entered s roomId uid s v
  | entered {info : Info} {room : Room} {isok : Bool} {forward : Option Int} :
    s.roomMap roomId = some info → s.rooms info.addr = some room →
    Entered s roomId uid (s.setRoom info.addr (room.enter uid)) (.entered isok forward (some info))

omit [DecidableEq R] [Zero R] in
theorem entered_false {roomId : R} {uid : Uid} {forward : Option Int} {info : Option Info} :
    Entered s roomId uid s (.entered false forward info) :=
  .refused nofun

omit [DecidableEq R] [Zero R] in
theorem entered_nothing {roomId : R} {uid : Uid} : Entered s roomId uid s .nothing :=
  .refused nofun

theorem complete_enter {roomId : R} {uid : Uid}
    (ran : complete s (.calling (.manager (.enter roomId uid)) st) os = some s') :
    ∃ s₁ v os', Entered s roomId uid s₁ v ∧ complete s₁ (.returning v st) os' = some s' := by
  obtain ⟨o₁, os₁, -, calls⟩ := complete_calling ran
  simp only [serve, serveManager] at calls
  split at calls
  · exact ⟨s, .entered false none none, os₁, entered_false, calls⟩
  · rename_i info known
    obtain ⟨o₂, os₂, -, enters⟩ := complete_calling calls
    simp only [serve] at enters
    split at enters
    · obtain ⟨o₃, os₃, -, ends⟩ := complete_returning enters
      exact ⟨s, .nothing, os₃, entered_nothing, ends⟩
    · rename_i lives
      simp only [serveRoom] at enters
      split at enters
      · obtain ⟨o₃, os₃, -, ends⟩ := complete_returning enters
        exact ⟨s, .entered false (some s.self) (some info), os₃, entered_false, ends⟩
      · rename_i room there
        split at enters
        · obtain ⟨o₃, os₃, -, ends⟩ := complete_returning enters
          exact ⟨s, .entered false (some s.self) (some info), os₃, entered_false, ends⟩
        · obtain ⟨isok, os₃, -, answered⟩ :=
            complete_broadcast (s := s.setRoom info.addr (room.enter uid)) lives enters
          obtain ⟨o₄, os₄, -, ends⟩ := complete_returning answered
          exact ⟨_, .entered isok (some s.self) (some info), os₄, .entered known there, ends⟩

/-! ## Leaving a room -/

/-- The pool kills a service that is given back, or keeps it. -/
inductive Recycled (p : RoomPool.Pool) (addr : Addr) : RoomPool.Pool → Prop
  | killed {p' : RoomPool.Pool} : p.recyremove = 1 ∧ p.maxnum ≤ p.pool.length →
    p'.pool = p.pool → p'.nextAddr = p.nextAddr → p'.killed = addr :: p.killed →
    Recycled p addr p'
  | returned {p' : RoomPool.Pool} : ¬ (p.recyremove = 1 ∧ p.maxnum ≤ p.pool.length) →
    p'.pool = addr :: p.pool → p'.nextAddr = p.nextAddr → p'.killed = p.killed →
    Recycled p addr p'

theorem complete_recycle {addr : Addr}
    (ran : complete s (.calling (.pool (.recycle (some addr))) st) os = some s') :
    ∃ p os', Recycled s.pool addr p ∧
      complete { s with pool := p } (.returning (.pool .nil) st) os' = some s' := by
  obtain ⟨o, os', -, ran⟩ := complete_calling ran
  have served := RoomPool.serve_spec (o == .fails) s.pool (.recycle (some addr))
  simp only [serve] at ran
  generalize RoomPool.serve (o == .fails) s.pool (.recycle (some addr)) = result at served ran
  obtain ⟨p, out⟩ := result
  cases served with
  | @removed _ roomlist remove full =>
      exact ⟨{ s.pool with roomlist := roomlist, killed := addr :: s.pool.killed }, os',
        .killed ⟨remove, full⟩ rfl rfl rfl, ran⟩
  | returned space =>
      exact ⟨{ s.pool with pool := addr :: s.pool.pool }, os', .returned space rfl rfl rfl, ran⟩

/-- What a call of the manager's `leave` does, where the service has a room and its broadcast does
not fail. -/
inductive Left (s : Shared R) (roomId : R) (uid : Uid) : Shared R → Val R → Prop
  | refused {v : Val R} : v ≠ .left true → Left s roomId uid s v
  | stays {info : Info} {room : Room} : s.roomMap roomId = some info →
    s.rooms info.addr = some room → info.permanent →
    Left s roomId uid (s.setRoom info.addr (room.leave uid)) (.left true)
  | released {info : Info} {room : Room} {p : RoomPool.Pool} : s.roomMap roomId = some info →
    s.rooms info.addr = some room → ¬ info.permanent → Recycled s.pool info.addr p →
    Left s roomId uid { s.setRoom info.addr (room.leave uid) with
      pool := p
      roomMap := Function.update s.roomMap roomId none } (.left true)

omit [Zero R] in
theorem left_false {roomId : R} {uid : Uid} : Left s roomId uid s (.left false) := .refused nofun

omit [Zero R] in
theorem left_nothing {roomId : R} {uid : Uid} : Left s roomId uid s .nothing := .refused nofun

omit [Zero R] in
theorem Left.agent {roomId : R} {uid : Uid} (left : Left s roomId uid s' v) :
    s'.agent = s.agent := by
  cases left with
  | refused _ => rfl
  | stays _ _ _ => rfl
  | released _ _ _ _ => rfl

theorem complete_leave {roomId : R} {uid : Uid}
    (ran : complete s (.calling (.manager (.leave roomId uid)) st) os = some s')
    (fine : .fails ∉ os)
    (there : ∀ info, s.roomMap roomId = some info → ∃ room, s.rooms info.addr = some room) :
    ∃ s₁ v os', Left s roomId uid s₁ v ∧ complete s₁ (.returning v st) os' = some s' := by
  obtain ⟨o₁, os₁, rfl, calls⟩ := complete_calling ran
  simp only [serve, serveManager] at calls
  split at calls
  · exact ⟨s, .left false, os₁, left_false, calls⟩
  · rename_i info known
    obtain ⟨room, inside⟩ := there info known
    obtain ⟨o₂, os₂, rfl, leaves⟩ := complete_calling calls
    simp only [serve] at leaves
    split at leaves
    · obtain ⟨o₃, os₃, -, ends⟩ := complete_returning leaves
      exact ⟨s, .nothing, os₃, left_nothing, ends⟩
    · rename_i lives
      simp only [serveRoom, inside] at leaves
      obtain ⟨isok, os₃, told, answered⟩ :=
        complete_broadcast (s := s.setRoom info.addr (room.leave uid)) lives leaves
      have fine₂ : .fails ∉ os₂ := fun member =>
        fine (List.mem_cons_of_mem _ (List.mem_cons_of_mem _ member))
      obtain ⟨rfl, -⟩ := told fine₂
      obtain ⟨o₄, os₄, -, goes⟩ := complete_returning answered
      simp only [resume, leaveLeft] at goes
      split at goes
      · rename_i permanent
        exact ⟨_, _, os₄, .stays known inside permanent, goes⟩
      · rename_i passing
        obtain ⟨p, os₅, recycled, removes⟩ := complete_recycle goes
        obtain ⟨o₆, os₆, -, ends⟩ := complete_returning removes
        exact ⟨_, _, os₆, .released known inside passing recycled, ends⟩

/-! ## The commands of the agent -/

/-- The agent has the same player in the same room, and the same services but for one. -/
structure Alike (agent agent' : AgentRoom.Rooms R) (id : Option R) : Prop where
  uid : agent'.uid = agent.uid
  roomId : agent'.roomId = agent.roomId
  service : ∀ roomId, id ≠ some roomId → agent'.service roomId = agent.service roomId

/-- The last segment of a command. -/
theorem complete_agent {pc : AgentRoom.Pc R}
    (ran : complete s (.returning v [.agent pc]) os = some s')
    (other : ∀ msg, pc ≠ .createInc msg) :
    s' = { s with agent := (resumeAgent s.agent pc v).1 } := by
  obtain ⟨o, os', -, ends⟩ := complete_returning ran
  simp only [resume] at ends
  rcases resumeAgent_out s.agent pc v with ⟨result, answer⟩ | ⟨msg, id, same, -⟩
  · rw [answer] at ends
    exact complete_done ends
  · exact (other msg same).elim

omit [Zero R] in
/-- `create_room` writes to the service of the room it creates only. -/
theorem alike_created (agent : AgentRoom.Rooms R) (msg : AgentRoom.Msg R)
    (info : Option AgentRoom.RoomInfo) :
    Alike agent (AgentRoom.createRoomCreated agent msg info).1 agent.createId := by
  unfold AgentRoom.createRoomCreated
  split
  · exact ⟨rfl, rfl, fun _ _ => rfl⟩
  · exact ⟨rfl, rfl, fun _ _ => rfl⟩
  · rename_i id numbered
    refine ⟨rfl, rfl, ?_⟩
    intro roomId differ
    have other : roomId ≠ id := fun same => differ (by rw [numbered, same])
    exact Function.update_of_ne other _ _

theorem alike_resume_created (agent : AgentRoom.Rooms R) (msg : AgentRoom.Msg R) (v : Val R) :
    Alike agent (resumeAgent agent (.createRoom msg) v).1 agent.createId := by
  cases v with
  | created info => exact alike_created agent msg _
  | agent | entered | left | answer | pool | number | nothing | done | raise =>
      exact alike_created agent msg none

/-- `create_room`: a room is created under a number that `inc_room` has given, if any. -/
theorem complete_createRoom {msg : AgentRoom.Msg R}
    (ran : complete s (.calling (.agent (.createRoom msg)) []) os = some s') :
    ∃ id agent agent' s₁, (∀ roomId, id = some roomId → .number (some roomId) ∈ os) ∧
      (s₁ = { s with agent } ∨ Created { s with agent } id none s₁) ∧
      s' = { s₁ with agent := agent' } ∧ Alike s.agent agent' id := by
  obtain ⟨o₁, os₁, rfl, calls⟩ := complete_calling ran
  obtain ⟨o₂, os₂, rfl, counts⟩ := complete_calling calls
  simp only [serve, serveAgent, AgentRoom.createRoom] at counts
  split at counts
  · rename_i id
    obtain ⟨o₃, os₃, -, numbered⟩ := complete_returning counts
    obtain ⟨s₁, v, os₄, created, ends⟩ := complete_create numbered
    have agent : s₁.agent = { s.agent with lib := true, createId := id } := created.agent
    obtain rfl := complete_agent ends fun _ same => by cases same
    have alike := alike_resume_created s₁.agent msg v
    refine ⟨id, _, _, s₁, ?_, .inr created, rfl, ⟨?_, ?_, ?_⟩⟩
    · rintro roomId rfl
      exact List.mem_cons_of_mem _ List.mem_cons_self
    · rw [alike.uid, agent]
    · rw [alike.roomId, agent]
    · intro roomId differ
      have numbered : s₁.agent.createId ≠ some roomId := by
        rw [agent]
        exact differ
      rw [alike.service roomId numbered, agent]
  · obtain ⟨o₃, os₃, -, fails⟩ := complete_returning counts
    obtain rfl := complete_done fails
    refine ⟨none, _, _, _, ?_, .inl rfl, rfl, rfl, rfl, fun _ _ => rfl⟩
    intro roomId given
    cases given

/-- `enter_room`: nothing happens, or the manager is asked. An accepted entry is remembered. -/
theorem complete_enterRoom {msg : AgentRoom.Msg R}
    (ran : complete s (.calling (.agent (.enterRoom msg)) []) os = some s') :
    ∃ agent', (s' = { s with agent := agent' } ∧ Alike s.agent agent' none) ∨
      ∃ id agent s₁ v, Entered { s with agent } id s.agent.uid s₁ v ∧
        s' = { s₁ with agent := agent' } ∧ (Alike s.agent agent' none ∨
          ∃ forward info, v = .entered true forward (some info) ∧ agent'.uid = s.agent.uid ∧
            agent'.roomId = some id ∧ agent'.service id = some info.describe) := by
  obtain ⟨o₁, os₁, rfl, calls⟩ := complete_calling ran
  simp only [serve, serveAgent, AgentRoom.enterRoom] at calls
  split at calls
  · obtain rfl := complete_done calls
    exact ⟨_, .inl ⟨rfl, rfl, rfl, fun _ _ => rfl⟩⟩
  · split at calls
    · obtain rfl := complete_done calls
      exact ⟨_, .inl ⟨rfl, rfl, rfl, fun _ _ => rfl⟩⟩
    · rename_i id _
      obtain ⟨s₁, v, os₂, entered, ends⟩ := complete_enter calls
      obtain rfl := complete_agent ends fun _ same => by cases same
      refine ⟨_, .inr ⟨id, _, s₁, v, entered, rfl, ?_⟩⟩
      cases entered with
      | refused other =>
          rw [resumeAgent_refused _ msg id other]
          exact .inl ⟨rfl, rfl, fun _ _ => rfl⟩
      | @entered info room isok forward known there =>
          cases isok with
          | false => exact .inl ⟨rfl, rfl, fun _ _ => rfl⟩
          | true => exact .inr ⟨forward, info, rfl, rfl, rfl, Function.update_self _ _ _⟩

/-- The command leaves the player's room. -/
inductive Departs : AgentReq R → Prop
  | leave {msg : AgentRoom.Msg R} : Departs (.leaveRoom msg)
  | kick : Departs .kickRoom

/-- `leave_room` and `kick_room` do nothing, or ask the manager. -/
theorem complete_departs {r : AgentReq R} (departs : Departs r)
    (ran : complete s (.calling (.agent r) []) os = some s') :
    s' = s ∨ ∃ id pc o os', os = o :: os' ∧ s.agent.roomId = some id ∧ Leaves pc ∧
      complete { s with agent := { s.agent with lib := true } }
        (.calling (.manager (.leave id s.agent.uid)) [.agent pc]) os' = some s' := by
  obtain ⟨o, os', same, calls⟩ := complete_calling ran
  cases departs with
  | leave =>
      simp only [serve, serveAgent, AgentRoom.leaveRoom] at calls
      split at calls
      · exact .inl (complete_done calls)
      · rename_i id known
        exact .inr ⟨id, _, o, os', same, known, .leave, calls⟩
  | kick =>
      simp only [serve, serveAgent, AgentRoom.kickRoom] at calls
      split at calls
      · exact .inl (complete_done calls)
      · rename_i id known
        split at calls
        · exact .inr ⟨id, _, o, os', same, known, .kick, calls⟩
        · exact .inl (complete_done calls)

/-- `leave_room` and `kick_room` forget the room that was left. -/
theorem complete_leaveRoom {r : AgentReq R} (departs : Departs r) (fine : .fails ∉ os)
    (there : ∀ id info, s.agent.roomId = some id → s.roomMap id = some info →
      ∃ room, s.rooms info.addr = some room)
    (ran : complete s (.calling (.agent r) []) os = some s') :
    s' = s ∨ ∃ id agent agent' s₁ v, s.agent.roomId = some id ∧
      Left { s with agent } id s.agent.uid s₁ v ∧ s' = { s₁ with agent := agent' } ∧
      agent'.uid = s.agent.uid ∧
      (agent'.roomId = none ∨ v ≠ .left true ∧ Alike s.agent agent' none) := by
  rcases complete_departs departs ran with same | ⟨id, pc, o, os', rfl, known, leaves, calls⟩
  · exact .inl same
  · have fine' : .fails ∉ os' := fun member => fine (List.mem_cons_of_mem _ member)
    obtain ⟨s₁, v, os'', left, ends⟩ := complete_leave calls fine' (there id · known)
    obtain rfl := complete_agent ends leaves.ne_createInc
    have agent : s₁.agent = { s.agent with lib := true } := left.agent
    obtain ⟨uid, forgets⟩ := leaves.forgets s₁.agent v
    refine .inr ⟨id, _, _, s₁, v, known, left, rfl, ?_, ?_⟩
    · rw [uid, agent]
    · apply forgets.imp_right
      rintro ⟨other, same⟩
      rw [same, agent]
      exact ⟨other, rfl, rfl, fun _ _ => rfl⟩

end RillServer.RoomManager
