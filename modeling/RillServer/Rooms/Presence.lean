import RillServer.Rooms.Starting

/-!
# Where a player is

The rooms know who is inside, and the agent remembers one room. This module says how the two go
together while a command of the agent is under way: it goes through the phases of `Phase`, and in
each of them the player is in no room or in one (`Stage`). `Moves.still` says that the segments of
others do not matter to the player, and `Phase.moves` how the command goes on.
-/

namespace RillServer.RoomManager

open Coroutine

variable {R : Type}

/-- The player is in the room of the service. -/
def Inside (s : Shared R) (uid : Uid) (addr : Addr) : Prop :=
  ∃ room, s.rooms addr = some room ∧ uid ∈ room.players

/-- The player is in the room. -/
def InRoom (s : Shared R) (uid : Uid) (roomId : R) : Prop :=
  ∃ info, s.roomMap roomId = some info ∧ Inside s uid info.addr

/-- A command of the agent that enters or leaves a room is suspended here. -/
inductive Visits : Pc R → Prop
  | enter {msg : AgentRoom.Msg R} {id : R} : Visits (.agent (.enter msg id))
  | leave {msg : AgentRoom.Msg R} : Visits (.agent (.leave msg))
  | kick : Visits (.agent .kick)

def Visiting (w : World R) : Prop := ∃ pc, w.Suspended pc ∧ Visits pc

/-- Whenever no such command is under way, the player is in the room that the agent remembers and in
no other, nor in a room without an entry. -/
def KnowsRoom [DecidableEq R] [Zero R] (guard : World R → Event (Ora R) (Env R) → Prop)
    (conf : Conf) : Prop :=
  ∀ w, code.Reach guard (init conf) w → ¬ Visiting w →
    (∀ roomId, InRoom w.shared conf.uid roomId ↔ w.shared.agent.roomId = some roomId) ∧
      ∀ addr, Inside w.shared conf.uid addr → Named w.shared addr

/-- The player that a request to the manager, or to a room, is about. -/
inductive Mentions (uid : Uid) : Req R → Prop
  | managerEnter {roomId : R} : Mentions uid (.manager (.enter roomId uid))
  | managerLeave {roomId : R} : Mentions uid (.manager (.leave roomId uid))
  | roomEnter {addr : Addr} : Mentions uid (.room addr (.enter uid))
  | roomLeave {addr : Addr} : Mentions uid (.room addr (.leave uid))

/-- The other callers of the manager act for other players. -/
def OtherPlayers (w : World R) (e : Event (Ora R) (Env R)) : Prop :=
  ∀ id r, e = .arrive id (.manager r) → ¬ Mentions w.shared.agent.uid (.manager r)

/-- The command enters or leaves a room. -/
inductive Command : AgentReq R → Prop
  | enter {msg : AgentRoom.Msg R} : Command (.enterRoom msg)
  | leave {msg : AgentRoom.Msg R} : Command (.leaveRoom msg)
  | kick : Command .kickRoom

/-- The agent's commands do not overlap, the broadcasts of its requests end well, and the manager
keeps the rooms. -/
structure VisitsSafely (w : World R) (e : Event (Ora R) (Env R)) : Prop where
  others : OtherPlayers w e
  kill : RecyclesKill w e
  release : ReleasesSafely w e
  alone : ∀ id o r st, e = .run id o → w.acts id = some (.calling (.agent r) st) → Command r →
    ¬ Visiting w
  told : ∀ id o v addr r st, e = .run id o →
    w.acts id = some (.returning v (.roomBroadcast addr r :: st)) →
    Mentions w.shared.agent.uid (.room addr r : Req R) → v = .done ∧ addr ∉ w.shared.pool.killed

/-! ## Where the player is -/

/-- The player is in this room only. -/
structure AtRoom (s : Shared R) (uid : Uid) (roomId : R) (info : Info) : Prop where
  entry : s.roomMap roomId = some info
  inside : Inside s uid info.addr
  only : ∀ addr, Inside s uid addr → addr = info.addr

/-- What the agent and the rooms know of each other: the player is in no room, has come to one,
stays in one, or has gone from one. -/
inductive Stage (R : Type) where
  | out
  | come (roomId : R) (info : Info)
  | stay (roomId : R) (info : Info)
  | gone (roomId : R)

def Holds (s : Shared R) (uid : Uid) : Stage R → Prop
  | .out => s.agent.roomId = none ∧ ∀ addr, ¬ Inside s uid addr
  | .come roomId info => s.agent.roomId = none ∧ AtRoom s uid roomId info
  | .stay roomId info => s.agent.roomId = some roomId ∧ AtRoom s uid roomId info
  | .gone roomId => s.agent.roomId = some roomId ∧ ∀ addr, ¬ Inside s uid addr

/-- The agent knows where the player is. -/
def Settled (s : Shared R) (uid : Uid) : Prop :=
  Holds s uid .out ∨ ∃ roomId info, Holds s uid (.stay roomId info)

/-- A step that the player does not notice. -/
structure Still (s s' : Shared R) (uid : Uid) : Prop where
  inside : ∀ addr, Inside s' uid addr ↔ Inside s uid addr
  entries : ∀ roomId info, s.roomMap roomId = some info → Inside s uid info.addr →
    s'.roomMap roomId = some info
  roomId : s'.agent.roomId = s.agent.roomId

section Still

variable {s s' : Shared R} {uid : Uid}

theorem Still.of_eq (rooms : s'.rooms = s.rooms) (map : s'.roomMap = s.roomMap)
    (roomId : s'.agent.roomId = s.agent.roomId) : Still s s' uid where
  inside := by
    intro addr
    simp only [Inside, rooms]
  entries := by
    intro rid info known _
    rw [map]
    exact known
  roomId := roomId

theorem Still.atRoom (still : Still s s' uid) {roomId : R} {info : Info}
    (there : AtRoom s uid roomId info) : AtRoom s' uid roomId info where
  entry := still.entries roomId info there.entry there.inside
  inside := (still.inside info.addr).mpr there.inside
  only := fun addr inside => there.only addr ((still.inside addr).mp inside)

theorem Still.holds (still : Still s s' uid) {stage : Stage R} (holds : Holds s uid stage) :
    Holds s' uid stage := by
  have nowhere : (∀ addr, ¬ Inside s uid addr) → ∀ addr, ¬ Inside s' uid addr :=
    fun none addr inside => none addr ((still.inside addr).mp inside)
  cases stage with
  | out => exact ⟨still.roomId.trans holds.1, nowhere holds.2⟩
  | come roomId info => exact ⟨still.roomId.trans holds.1, still.atRoom holds.2⟩
  | stay roomId info => exact ⟨still.roomId.trans holds.1, still.atRoom holds.2⟩
  | gone roomId => exact ⟨still.roomId.trans holds.1, nowhere holds.2⟩

theorem Still.settled (still : Still s s' uid) (settled : Settled s uid) : Settled s' uid := by
  rcases settled with out | ⟨roomId, info, stays⟩
  · exact .inl (still.holds out)
  · exact .inr ⟨roomId, info, still.holds stays⟩

/-- The room of a service changes for other players only. -/
theorem Still.setRoom {addr : Addr} {room : Room}
    (same : uid ∈ room.players ↔ Inside s uid addr) :
    Still s (s.setRoom addr room) uid where
  inside := by
    intro addr'
    by_cases here : addr' = addr
    · subst here
      simp only [Inside, Shared.setRoom, Function.update_self, Option.some.injEq]
      constructor
      · rintro ⟨room', rfl, member⟩
        exact same.mp member
      · intro inside
        exact ⟨room, rfl, same.mpr inside⟩
    · simp only [Inside, Shared.setRoom, Function.update_of_ne here]
  entries := fun _ _ known _ => known
  roomId := rfl

theorem inside_iff {addr : Addr} {room : Room} (there : s.rooms addr = some room) :
    Inside s uid addr ↔ uid ∈ room.players := by
  simp [Inside, there]

theorem not_inside {addr : Addr} (nothing : s.rooms addr = none) : ¬ Inside s uid addr := by
  simp [Inside, nothing]

end Still

/-! ## The other activities -/

section Others

variable [DecidableEq R] [Zero R]

/-- `create_room` leaves `room_id` alone. -/
theorem roomId_resumeAgent {s : AgentRoom.Rooms R} {pc : AgentRoom.Pc R} {v : Val R}
    (other : ¬ Visits (.agent pc)) : (resumeAgent s pc v).1.roomId = s.roomId := by
  have created : ∀ msg info, (AgentRoom.createRoomCreated s msg info).1.roomId = s.roomId := by
    intro msg info
    unfold AgentRoom.createRoomCreated
    split <;> rfl
  cases pc with
  | createInc msg => cases v <;> rfl
  | createRoom msg => cases v <;> exact created _ _
  | enter msg id => exact (other .enter).elim
  | leave msg => exact (other .leave).elim
  | kick => exact (other .kick).elim

variable {w : World R} {id : Nat} {o : Ora R} {e : Event (Ora R) (Env R)} {a a' : Act R}
  {s' : Shared R} {uid : Uid}

/-- The player does not notice the segments of others. -/
theorem Moves.still (moves : Moves w.shared a s' a') (start : StartInv w) (release : ReleaseInv w)
    (safe : ReleasesSafely w e) (event : e = .run id o) (found : w.acts id = some a)
    (foreign : ∀ r st, a = .calling r st → ¬ Mentions uid r)
    (quiet : ∀ r st, a = .calling (.agent r) st → ¬ Command r)
    (elsewhere : ∀ v pc st, a = .returning v (pc :: st) → ¬ Visits pc) :
    Still w.shared s' uid := by
  have removal : ∀ {roomId info}, w.shared.roomMap roomId = some info → s'.roomMap roomId = none →
      EmptyRoom w.shared info.addr := fun known gone => release.removed found moves known gone
  cases moves with
  | @agent r st =>
      refine .of_eq rfl rfl ?_
      cases r with
      | createRoom msg => rfl
      | enterRoom msg => exact (quiet _ _ rfl .enter).elim
      | leaveRoom msg => exact (quiet _ _ rfl .leave).elim
      | kickRoom => exact (quiet _ _ rfl .kick).elim
  | @agentResumed pc v st =>
      exact .of_eq rfl rfl (roomId_resumeAgent (elsewhere v (.agent pc) st rfl))
  | @stored addr rid roomType roomMode st =>
      refine ⟨fun _ => Iff.rfl, ?_, rfl⟩
      intro roomId info known _
      have free := (safe.create id o addr rid roomType roomMode st event found).1
      have other : roomId ≠ rid := by
        intro same
        rw [same, free] at known
        cases known
      exact (Function.update_of_ne other _ _).trans known
  | @removed isok rid u room st =>
      refine ⟨fun _ => Iff.rfl, ?_, rfl⟩
      intro roomId info known inside
      have other : roomId ≠ rid := by
        rintro rfl
        have empty := removal known (Function.update_self ..)
        obtain ⟨room', there, member⟩ := inside
        rw [empty room' there] at member
        cases member
      exact (Function.update_of_ne other _ _).trans known
  | @started addr roomType kind st lives known =>
      have none := (start.pending id _ addr found .called).1
      refine .setRoom ⟨fun member => ?_, fun inside => (not_inside none inside).elim⟩
      cases member
  | @entered addr u room st lives there =>
      have other : uid ≠ u := by
        rintro rfl
        exact foreign _ _ rfl .roomEnter
      refine .setRoom ?_
      rw [inside_iff there]
      simp [Room.enter, other]
  | @left addr u room st lives there =>
      have other : uid ≠ u := by
        rintro rfl
        exact foreign _ _ rfl .roomLeave
      refine .setRoom ?_
      rw [inside_iff there]
      simp [Room.leave, other]
  | _ => exact .of_eq rfl rfl rfl

end Others

/-! ## The commands of the agent -/

/-- The entry that an `enter` has looked up: no other room gets the service. -/
structure Known (w : World R) (roomId : R) (info : Info) : Prop where
  spent : Spent w info.addr
  only : ∀ rid info', w.shared.roomMap rid = some info' → info'.addr = info.addr → rid = roomId

/-- A command that leaves a room is suspended here. -/
inductive Leaves : AgentRoom.Pc R → Prop
  | leave {msg : AgentRoom.Msg R} : Leaves (.leave msg)
  | kick : Leaves .kick

/-- How far a command has come. -/
inductive Phase (uid : Uid) : Stage R → Act R → Prop
  | ask {roomId : R} {msg : AgentRoom.Msg R} : Phase uid .out
      (.calling (.manager (.enter roomId uid)) [.agent (.enter msg roomId)])
  | knock {roomId : R} {info : Info} {msg : AgentRoom.Msg R} : Phase uid .out
      (.calling (.room info.addr (.enter uid))
        [.enterRoom roomId uid info, .agent (.enter msg roomId)])
  | greet {roomId : R} {info info' : Info} {addr : Addr} {msg : AgentRoom.Msg R} :
    Phase uid (.come roomId info') (.calling .broadcast
      [.roomBroadcast addr (.enter uid), .enterRoom roomId uid info, .agent (.enter msg roomId)])
  | greeted {roomId : R} {info info' : Info} {addr : Addr} {v : Val R} {msg : AgentRoom.Msg R} :
    Phase uid (.come roomId info') (.returning v
      [.roomBroadcast addr (.enter uid), .enterRoom roomId uid info, .agent (.enter msg roomId)])
  | welcome {roomId : R} {info info' : Info} {msg : AgentRoom.Msg R} :
    Phase uid (.come roomId info') (.returning (.answer true)
      [.enterRoom roomId uid info, .agent (.enter msg roomId)])
  | refused {roomId : R} {info : Info} {v : Val R} {msg : AgentRoom.Msg R} : v ≠ .answer true →
    Phase uid .out (.returning v [.enterRoom roomId uid info, .agent (.enter msg roomId)])
  | entered {roomId : R} {info' : Info} {forward : Option Int} {found : Option Info}
      {msg : AgentRoom.Msg R} :
    Phase uid (.come roomId info') (.returning (.entered true forward found)
      [.agent (.enter msg roomId)])
  | notEntered {roomId : R} {v : Val R} {msg : AgentRoom.Msg R} :
    (∀ forward found, v ≠ .entered true forward found) →
    Phase uid .out (.returning v [.agent (.enter msg roomId)])
  | leave {roomId : R} {info : Info} {pc : AgentRoom.Pc R} : Leaves pc →
    Phase uid (.stay roomId info) (.calling (.manager (.leave roomId uid)) [.agent pc])
  | go {roomId : R} {info : Info} {pc : AgentRoom.Pc R} : Leaves pc →
    Phase uid (.stay roomId info) (.calling (.room info.addr (.leave uid))
      [.leaveRoom roomId uid info, .agent pc])
  | part {roomId : R} {info : Info} {addr : Addr} {pc : AgentRoom.Pc R} : Leaves pc →
    Phase uid (.gone roomId) (.calling .broadcast
      [.roomBroadcast addr (.leave uid), .leaveRoom roomId uid info, .agent pc])
  | parted {roomId : R} {info : Info} {addr : Addr} {v : Val R} {pc : AgentRoom.Pc R} :
    Leaves pc →
    Phase uid (.gone roomId) (.returning v
      [.roomBroadcast addr (.leave uid), .leaveRoom roomId uid info, .agent pc])
  | farewell {roomId : R} {info : Info} {pc : AgentRoom.Pc R} : Leaves pc →
    Phase uid (.gone roomId) (.returning (.answer true) [.leaveRoom roomId uid info, .agent pc])
  | recycle {roomId : R} {info : Info} {pc : AgentRoom.Pc R} : Leaves pc →
    Phase uid (.gone roomId) (.calling (.pool (.recycle (some info.addr)))
      [.leaveRecycle roomId uid info true, .agent pc])
  | recycled {roomId : R} {info : Info} {pc : AgentRoom.Pc R} : Leaves pc →
    Phase uid (.gone roomId) (.returning (.pool .nil)
      [.leaveRecycle roomId uid info true, .agent pc])
  | left {roomId : R} {pc : AgentRoom.Pc R} : Leaves pc →
    Phase uid (.gone roomId) (.returning (.left true) [.agent pc])

/-- The command is in some phase, or it is over and the agent knows where the player is. -/
def Goes (s : Shared R) (uid : Uid) (a : Act R) : Prop :=
  (∃ stage, Phase uid stage a ∧ Holds s uid stage) ∨ a.stack = [] ∧ Settled s uid

/-- The player enters the room. -/
theorem holds_enter {s : Shared R} {uid : Uid} {addr : Addr} (room : Room) {roomId : R}
    {info : Info} (holds : Holds s uid .out) (entry : s.roomMap roomId = some info)
    (named : info.addr = addr) :
    Holds (s.setRoom addr (room.enter uid)) uid (.come roomId info) := by
  subst named
  refine ⟨holds.1, entry, ?_, ?_⟩
  · exact ⟨room.enter uid, Function.update_self .., Finset.mem_insert_self _ _⟩
  · intro addr' inside
    obtain ⟨room', there', member⟩ := inside
    rcases update_eq_some there' with ⟨here, -⟩ | ⟨-, earlier⟩
    · exact here
    · exact (holds.2 addr' ⟨room', earlier, member⟩).elim

/-- The player leaves the room. -/
theorem holds_leave {s : Shared R} {uid : Uid} (room : Room) {roomId : R} {info : Info}
    (holds : Holds s uid (.stay roomId info)) :
    Holds (s.setRoom info.addr (room.leave uid)) uid (.gone roomId) := by
  refine ⟨holds.1, ?_⟩
  intro addr' inside
  obtain ⟨room', there', member⟩ := inside
  rcases update_eq_some there' with ⟨-, same⟩ | ⟨other, earlier⟩
  · cases same
    exact Finset.notMem_erase uid room.players member
  · exact other (holds.2.only addr' ⟨room', earlier, member⟩)

section Commands

variable [DecidableEq R] [Zero R]

/-- A room that was left is forgotten. -/
theorem left_forgets (agent : AgentRoom.Rooms R) (ok : Bool) (result : AgentRoom.Result R) :
    (AgentRoom.left agent ok result).1.uid = agent.uid ∧
      ((AgentRoom.left agent ok result).1.roomId = none ∨
        ok = false ∧ (AgentRoom.left agent ok result).1 = agent) := by
  unfold AgentRoom.left
  split
  · split
    · rename_i nowhere
      exact ⟨rfl, .inl nowhere⟩
    · exact ⟨rfl, .inl rfl⟩
  · rename_i refused
    exact ⟨rfl, .inr ⟨Bool.eq_false_of_not_eq_true refused, rfl⟩⟩

omit [DecidableEq R] [Zero R] in
theorem Leaves.ne_createInc {pc : AgentRoom.Pc R} (leaves : Leaves pc) (msg : AgentRoom.Msg R) :
    pc ≠ .createInc msg := by
  cases leaves with
  | leave => exact nofun
  | kick => exact nofun

theorem Leaves.forgets {pc : AgentRoom.Pc R} (leaves : Leaves pc) (agent : AgentRoom.Rooms R)
    (v : Val R) :
    (resumeAgent agent pc v).1.uid = agent.uid ∧
      ((resumeAgent agent pc v).1.roomId = none ∨
        v ≠ .left true ∧ (resumeAgent agent pc v).1 = agent) := by
  cases v with
  | left ok =>
      have differ : ok = false → Val.left ok ≠ (.left true : Val R) := by
        rintro rfl
        nofun
      cases leaves with
      | leave => exact (left_forgets agent ok _).imp_right (Or.imp_right (And.imp_left differ))
      | kick => exact (left_forgets agent ok _).imp_right (Or.imp_right (And.imp_left differ))
  | agent | created | entered | answer | pool | number | nothing | done | raise =>
      cases leaves with
      | leave => exact ⟨rfl, .inr ⟨nofun, rfl⟩⟩
      | kick => exact ⟨rfl, .inr ⟨nofun, rfl⟩⟩

/-- A command that has left the room forgets it. -/
theorem Leaves.resume {pc : AgentRoom.Pc R} (leaves : Leaves pc) (s : AgentRoom.Rooms R) :
    (resumeAgent s pc (.left true)).1.roomId = none ∧
      ∃ result, (resumeAgent s pc (.left true)).2 = .ret result := by
  constructor
  · rcases (leaves.forgets s (.left true)).2 with outside | ⟨other, -⟩
    · exact outside
    · exact (other rfl).elim
  · rcases resumeAgent_out s pc (.left true) with ended | ⟨msg, id, same, -⟩
    · exact ended
    · exact (leaves.ne_createInc msg same).elim

/-- A command that has entered a room remembers it. -/
theorem enter_resume (s : AgentRoom.Rooms R) (msg : AgentRoom.Msg R) (roomId : R)
    (forward : Option Int) (info : Option Info) :
    (resumeAgent s (.enter msg roomId) (.entered true forward info)).1.roomId = some roomId ∧
      ∃ result,
        (resumeAgent s (.enter msg roomId) (.entered true forward info)).2 = .ret result := by
  cases info <;> simp [resumeAgent, AgentRoom.enterRoomEntered]

/-- An entry that was not accepted leaves the agent as it is. -/
theorem resumeAgent_refused (agent : AgentRoom.Rooms R) (msg : AgentRoom.Msg R) (id : R)
    {v : Val R} (other : ∀ forward info, v ≠ .entered true forward info) :
    (resumeAgent agent (.enter msg id) v).1 = agent := by
  cases v with
  | entered isok forward info =>
      cases isok with
      | true => exact (other forward info rfl).elim
      | false => rfl
  | agent | created | left | answer | pool | number | nothing | done | raise => rfl

/-- A command that has not entered a room forgets about it. -/
theorem not_enter_resume (s : AgentRoom.Rooms R) (msg : AgentRoom.Msg R) (roomId : R) {v : Val R}
    (other : ∀ forward info, v ≠ .entered true forward info) :
    (resumeAgent s (.enter msg roomId) v).1.roomId = s.roomId ∧
      ∃ result, (resumeAgent s (.enter msg roomId) v).2 = .ret result := by
  refine ⟨by rw [resumeAgent_refused s msg roomId other], ?_⟩
  rcases resumeAgent_out s (.enter msg roomId) v with ended | ⟨_, _, same, -⟩
  · exact ended
  · cases same

variable {w : World R} {id : Nat} {o : Ora R} {e : Event (Ora R) (Env R)} {uid : Uid}
  {stage : Stage R} {a a' : Act R} {s' : Shared R}

theorem Phase.moves (phase : Phase uid stage a) (holds : Holds w.shared uid stage)
    (start : StartInv w) (safe : VisitsSafely w e) (event : e = .run id o)
    (found : w.acts id = some a) (same : w.shared.agent.uid = uid)
    (known : ∀ roomId u info st,
      a = .calling (.room info.addr (.enter u)) (.enterRoom roomId u info :: st) →
      Known w roomId info) (moves : Moves w.shared a s' a') : Goes s' uid a' := by
  -- the room of somebody who is inside was not killed
  have lives : ∀ {addr}, Inside w.shared uid addr → addr ∉ w.shared.pool.killed := by
    intro addr inside dead
    obtain ⟨room, there, member⟩ := inside
    rw [start.killed addr dead room there] at member
    cases member
  cases phase with
  | ask =>
      cases moves with
      | enterMissing => exact .inl ⟨.out, .notEntered nofun, holds⟩
      | enterFound entry => exact .inl ⟨.out, .knock, holds⟩
  | @knock roomId info msg =>
      cases moves with
      | killed dead => exact .inl ⟨.out, .refused nofun, holds⟩
      | notEntered => exact .inl ⟨.out, .refused nofun, holds⟩
      | @entered addr u room st lives there =>
          obtain ⟨⟨rid, info', entry, named⟩, -⟩ :=
            safe.release.enter id o info.addr uid _ event found lives
          obtain rfl := (known roomId uid info _ rfl).only rid info' entry named
          have comes := holds_enter room holds entry named
          unfold RoomManager.broadcast
          split
          · exact .inl ⟨.come rid info', .welcome, comes⟩
          · exact .inl ⟨.come rid info', .greet, comes⟩
  | @greet roomId info info' addr msg =>
      cases moves with
      | broadcast => exact .inl ⟨.come roomId info', .greeted, holds⟩
      | notBroadcast => exact .inl ⟨.come roomId info', .greeted, holds⟩
  | @greeted roomId info info' addr v msg =>
      obtain ⟨rfl, lives⟩ := safe.told id o v addr _ _ event found (same ▸ .roomEnter)
      cases moves with
      | told => exact .inl ⟨.come roomId info', .welcome, holds⟩
      | toldKilled dead => exact (lives dead).elim
  | @welcome roomId info info' msg =>
      cases moves with
      | enterAnswered => exact .inl ⟨.come roomId info', .entered, holds⟩
      | enterFailed other => exact (other true rfl).elim
  | @refused roomId info v msg other =>
      cases moves with
      | @enterAnswered isok =>
          refine .inl ⟨.out, .notEntered ?_, holds⟩
          intro forward found answer
          cases answer
          exact other rfl
      | enterFailed => exact .inl ⟨.out, .notEntered nofun, holds⟩
  | @entered roomId info' forward found' msg =>
      cases moves with
      | agentResumed =>
          obtain ⟨remembers, result, finished⟩ :=
            enter_resume w.shared.agent msg roomId forward found'
          rw [finished]
          refine .inr ⟨rfl, .inr ⟨roomId, info', remembers, ?_⟩⟩
          exact ⟨holds.2.entry, holds.2.inside, holds.2.only⟩
  | @notEntered roomId v msg other =>
      cases moves with
      | agentResumed =>
          obtain ⟨remembers, result, finished⟩ := not_enter_resume w.shared.agent msg roomId other
          rw [finished]
          exact .inr ⟨rfl, .inl ⟨remembers.trans holds.1, holds.2⟩⟩
  | @leave roomId info pc leaves =>
      cases moves with
      | leaveMissing none =>
          rw [holds.2.entry] at none
          cases none
      | leaveFound entry =>
          rw [holds.2.entry] at entry
          cases entry
          exact .inl ⟨.stay roomId info, .go leaves, holds⟩
  | @go roomId info pc leaves =>
      cases moves with
      | killed dead => exact (lives holds.2.inside dead).elim
      | notLeft nothing => exact (not_inside nothing holds.2.inside).elim
      | @left addr u room st _ there =>
          have goes := holds_leave room holds
          unfold RoomManager.broadcast
          split
          · exact .inl ⟨.gone roomId, .farewell leaves, goes⟩
          · exact .inl ⟨.gone roomId, .part leaves, goes⟩
  | @part roomId info addr pc leaves =>
      cases moves with
      | broadcast => exact .inl ⟨.gone roomId, .parted leaves, holds⟩
      | notBroadcast => exact .inl ⟨.gone roomId, .parted leaves, holds⟩
  | @parted roomId info addr v pc leaves =>
      obtain ⟨rfl, lives⟩ := safe.told id o v addr _ _ event found (same ▸ .roomLeave)
      cases moves with
      | told => exact .inl ⟨.gone roomId, .farewell leaves, holds⟩
      | toldKilled dead => exact (lives dead).elim
  | @farewell roomId info pc leaves =>
      cases moves with
      | leaveAnswered => exact .inl ⟨.gone roomId, .left leaves, holds⟩
      | leaveRecycles => exact .inl ⟨.gone roomId, .recycle leaves, holds⟩
      | leaveFailed other => exact (other true rfl).elim
  | @recycle roomId info pc leaves =>
      cases moves with
      | pool served =>
          cases served with
          | removed => exact .inl ⟨.gone roomId, .recycled leaves, holds⟩
          | returned => exact .inl ⟨.gone roomId, .recycled leaves, holds⟩
  | @recycled roomId info pc leaves =>
      cases moves with
      | removed => exact .inl ⟨.gone roomId, .left leaves, holds⟩
      | notRemoved other => exact (other rfl).elim
  | @left roomId pc leaves =>
      cases moves with
      | agentResumed =>
          obtain ⟨forgets, result, finished⟩ := leaves.resume w.shared.agent
          rw [finished]
          exact .inr ⟨rfl, .inl ⟨forgets, holds.2⟩⟩

end Commands

end RillServer.RoomManager
