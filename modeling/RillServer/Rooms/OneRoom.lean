import RillServer.Rooms.Presence

/-!
# An agent knows its room

`enter_room` looks at `room_id` before it calls the manager and writes it afterwards, so two of them
that overlap both enter, and the agent knows only the later room (`two_rooms`).

The agent knows its room in every run in which its commands that enter or leave a room do not
overlap, the broadcasts of its own requests end without an error, and the manager keeps the room:
rooms are released as in `ReleasesSafely` and services killed as in `RecyclesKill` (`knows_room`).
-/

namespace RillServer.RoomManager

open Coroutine

variable {R : Type}

/-- A command of the agent that enters or leaves a room waits in this activity. -/
def Visitor (a : Act R) : Prop := ∃ pc ∈ a.stack, Visits pc

theorem visiting_iff {w : World R} : Visiting w ↔ ∃ i a, w.acts i = some a ∧ Visitor a := by
  constructor
  · rintro ⟨pc, ⟨i, a, found, member⟩, visits⟩
    exact ⟨i, a, found, pc, member, visits⟩
  · rintro ⟨i, a, found, pc, member, visits⟩
    exact ⟨pc, ⟨i, a, found, member⟩, visits⟩

/-- The activity handles a request about the player. -/
inductive Involves (uid : Uid) : Act R → Prop
  | request {r : Req R} {st : List (Pc R)} : Mentions uid r → Involves uid (.calling r st)
  | frame {a : Act R} {pc : Pc R} : pc ∈ a.stack → Mentions uid (typing.serves pc) → Involves uid a

theorem not_involves_over {uid : Uid} {v : Val R} : ¬ Involves uid (.returning v [] : Act R) := by
  intro involves
  cases involves with
  | frame member mentions => exact List.not_mem_nil member

theorem Phase.visitor {uid : Uid} {stage : Stage R} {a : Act R} (phase : Phase uid stage a) :
    Visitor a := by
  have agents : ∀ {pc : AgentRoom.Pc R}, Leaves pc → Visits (.agent pc) := by
    intro pc leaves
    cases leaves with
    | leave => exact .leave
    | kick => exact .kick
  cases phase with
  | ask | entered => exact ⟨_, .head _, .enter⟩
  | notEntered => exact ⟨_, .head _, .enter⟩
  | knock | welcome => exact ⟨_, .tail _ (.head _), .enter⟩
  | refused => exact ⟨_, .tail _ (.head _), .enter⟩
  | greet | greeted => exact ⟨_, .tail _ (.tail _ (.head _)), .enter⟩
  | leave leaves => exact ⟨_, .head _, agents leaves⟩
  | left leaves => exact ⟨_, .head _, agents leaves⟩
  | go leaves => exact ⟨_, .tail _ (.head _), agents leaves⟩
  | farewell leaves => exact ⟨_, .tail _ (.head _), agents leaves⟩
  | recycle leaves => exact ⟨_, .tail _ (.head _), agents leaves⟩
  | recycled leaves => exact ⟨_, .tail _ (.head _), agents leaves⟩
  | part leaves => exact ⟨_, .tail _ (.tail _ (.head _)), agents leaves⟩
  | parted leaves => exact ⟨_, .tail _ (.tail _ (.head _)), agents leaves⟩

/-! ## What a segment begins -/

/-- A request about the player is made by a command, or on behalf of one about the player. -/
theorem awaits_mentions {uid : Uid} {pc : Pc R} {q : Req R} (waits : typing.awaits pc q)
    (mentions : Mentions uid q) : Visits pc ∨ Mentions uid (typing.serves pc) := by
  cases pc with
  | agent pc =>
      cases pc with
      | createInc msg =>
          cases waits
          cases mentions
      | createRoom msg =>
          obtain ⟨id, roomType, rfl⟩ := waits
          cases mentions
      | enter msg id => exact .inl .enter
      | leave msg => exact .inl .leave
      | kick => exact .inl .kick
  | enterRoom roomId u info =>
      cases waits
      cases mentions
      exact .inr .managerEnter
  | leaveRoom roomId u info =>
      cases waits
      cases mentions
      exact .inr .managerLeave
  | createStart roomId roomType roomMode =>
      obtain ⟨addr, rfl⟩ := waits
      cases mentions
  | pool pc =>
      obtain ⟨idx, rfl⟩ := waits
      cases mentions
  | createGet | leaveRecycle | roomBroadcast =>
      cases waits
      cases mentions

/-- A command that enters or leaves a room waits where it can. -/
theorem visits_iff {pc : Pc R} : Visits pc ↔ ∃ r, typing.serves pc = .agent r ∧ Command r := by
  constructor
  · intro visits
    cases visits with
    | enter => exact ⟨_, rfl, .enter⟩
    | leave => exact ⟨_, rfl, .leave⟩
    | kick => exact ⟨_, rfl, .kick⟩
  · rintro ⟨r, handles, command⟩
    cases command with
    | enter =>
        cases pc with
        | agent pc =>
            cases pc with
            | enter msg id => exact .enter
            | createInc | createRoom | leave | kick => cases handles
        | pool pc => cases pc <;> cases handles
        | _ => cases handles
    | leave =>
        cases pc with
        | agent pc =>
            cases pc with
            | leave msg => exact .leave
            | createInc | createRoom | enter | kick => cases handles
        | pool pc => cases pc <;> cases handles
        | _ => cases handles
    | kick =>
        cases pc with
        | agent pc =>
            cases pc with
            | kick => exact .kick
            | createInc | createRoom | enter | leave => cases handles
        | pool pc => cases pc <;> cases handles
        | _ => cases handles

/-- A command begins where the agent knows the room. -/
theorem Command.goes {s : Shared R} {uid : Uid} {r : AgentReq R} (command : Command r)
    (settled : Settled s uid) (same : s.agent.uid = uid) :
    Goes { s with agent := (serveAgent s.agent r).1 } uid
      ((outAgent (serveAgent s.agent r).2).settle []) := by
  cases command with
  | @enter msg =>
      rcases settled with ⟨nowhere, outside⟩ | ⟨roomId, info, remembers, there⟩
      · cases known : msg.id with
        | none =>
            simp only [serveAgent, AgentRoom.enterRoom, nowhere, known]
            exact .inr ⟨rfl, .inl ⟨rfl, outside⟩⟩
        | some roomId =>
            simp only [serveAgent, AgentRoom.enterRoom, nowhere, known, same]
            exact .inl ⟨.out, .ask, rfl, outside⟩
      · simp only [serveAgent, AgentRoom.enterRoom, remembers]
        exact .inr ⟨rfl, .inr ⟨roomId, info, remembers, there⟩⟩
  | @leave msg =>
      rcases settled with ⟨nowhere, outside⟩ | ⟨roomId, info, remembers, there⟩
      · simp only [serveAgent, AgentRoom.leaveRoom, nowhere]
        exact .inr ⟨rfl, .inl ⟨nowhere, outside⟩⟩
      · simp only [serveAgent, AgentRoom.leaveRoom, remembers, same]
        exact .inl ⟨.stay roomId info, .leave .leave, rfl, there.entry, there.inside, there.only⟩
  | kick =>
      rcases settled with ⟨nowhere, outside⟩ | ⟨roomId, info, remembers, there⟩
      · simp only [serveAgent, AgentRoom.kickRoom, nowhere]
        exact .inr ⟨rfl, .inl ⟨nowhere, outside⟩⟩
      · simp only [serveAgent, AgentRoom.kickRoom, remembers, same]
        split
        · exact .inl ⟨.stay roomId info, .leave .kick, rfl, there.entry, there.inside, there.only⟩
        · exact .inr ⟨rfl, .inr ⟨roomId, info, remembers, there⟩⟩

section Begins

variable [DecidableEq R] [Zero R] {s s' : Shared R} {a a' : Act R} {uid : Uid}

/-- A segment does not begin with the player by itself. -/
theorem Moves.involves (moves : Moves s a s' a') (involves : Involves uid a') :
    Involves uid a ∨ Visitor a' := by
  obtain ⟨r, st, out, rfl, fits, source⟩ := moves.fits
  have handled : Mentions uid r → Involves uid a := by
    intro mentions
    rcases source with rfl | ⟨v, pc, rfl, rfl⟩
    · exact .request mentions
    · exact .frame List.mem_cons_self mentions
  have deeper : ∀ pc ∈ st, Mentions uid (typing.serves pc) → Involves uid a := by
    intro pc member mentions
    rcases source with rfl | ⟨v, top, rfl, -⟩
    · exact .frame member mentions
    · exact .frame (List.mem_cons_of_mem _ member) mentions
  cases out with
  | ret v =>
      cases involves with
      | frame member mentions => exact .inl (deeper _ member mentions)
  | call q pc =>
      obtain ⟨waits, same⟩ := fits
      cases involves with
      | request mentions =>
          rcases awaits_mentions waits mentions with visits | again
          · exact .inr ⟨pc, List.mem_cons_self, visits⟩
          · exact .inl (handled (same ▸ again))
      | frame member mentions =>
          rcases List.mem_cons.mp member with rfl | below
          · exact .inl (handled (same ▸ mentions))
          · exact .inl (deeper _ below mentions)

/-- Only the first segment of a command makes a visitor. -/
theorem Moves.visitor (moves : Moves s a s' a') (visitor : Visitor a') :
    Visitor a ∨ ∃ r st, a = .calling (.agent r) st ∧ Command r := by
  obtain ⟨r, st, out, rfl, fits, source⟩ := moves.fits
  obtain ⟨pc, member, visits⟩ := visitor
  rcases mem_stack_settle.mp member with ⟨q, rfl⟩ | below
  · obtain ⟨r', handles, command⟩ := visits_iff.mp visits
    have same : r = .agent r' := fits.2.symm.trans handles
    rcases source with rfl | ⟨v, top, rfl, serves⟩
    · exact .inr ⟨r', st, by rw [same], command⟩
    · exact .inl ⟨top, List.mem_cons_self, visits_iff.mpr ⟨r', serves.trans same, command⟩⟩
  · rcases source with rfl | ⟨v, top, rfl, -⟩
    · exact .inl ⟨pc, below, visits⟩
    · exact .inl ⟨pc, List.mem_cons_of_mem _ below, visits⟩

/-- The agent's player stays the same. -/
theorem Moves.uid_eq (moves : Moves s a s' a') : s'.agent.uid = s.agent.uid := by
  have kept : ∀ ok result, (AgentRoom.left s.agent ok result).1.uid = s.agent.uid := by
    intro ok result
    unfold AgentRoom.left
    split
    · split <;> rfl
    · rfl
  have created : ∀ msg info,
      (AgentRoom.createRoomCreated s.agent msg info).1.uid = s.agent.uid := by
    intro msg info
    unfold AgentRoom.createRoomCreated
    split <;> rfl
  have entered : ∀ msg id isok forward info,
      (AgentRoom.enterRoomEntered s.agent msg id isok forward info).1.uid = s.agent.uid := by
    intro msg id isok forward info
    unfold AgentRoom.enterRoomEntered
    split
    · cases info <;> rfl
    · rfl
  cases moves with
  | @agent r st =>
      cases r with
      | createRoom msg => rfl
      | enterRoom msg =>
          simp only [serveAgent, AgentRoom.enterRoom]
          split
          · rfl
          · split <;> rfl
      | leaveRoom msg =>
          simp only [serveAgent, AgentRoom.leaveRoom]
          split <;> rfl
      | kickRoom =>
          simp only [serveAgent, AgentRoom.kickRoom]
          split
          · rfl
          · split <;> rfl
  | @agentResumed pc v st =>
      cases pc with
      | createInc msg => cases v <;> rfl
      | createRoom msg => cases v <;> exact created _ _
      | enter msg id => cases v <;> exact entered _ _ _ _ _
      | leave msg => cases v <;> exact kept _ _
      | kick => cases v <;> exact kept _ _
  | _ => rfl

/-- `enter` of the manager calls the service of the entry it has found. -/
theorem Moves.finds (moves : Moves s a s' a') {roomId : R} {u : Uid} {info : Info}
    {addr : Addr} {st : List (Pc R)}
    (calls : a' = .calling (.room addr (.enter u)) (.enterRoom roomId u info :: st)) :
    s.roomMap roomId = some info := by
  have agents : ∀ {out : AgentRoom.Out R} {st'},
      (outAgent out).settle st' ≠
        .calling (.room addr (.enter u)) (.enterRoom roomId u info :: st) := by
    intro out st' same
    cases out with
    | call c pc => cases c <;> cases same
    | ret result => cases same
  have tells : ∀ {addr' r room u' st'},
      (RoomManager.broadcast addr' r room u').settle st' ≠
        .calling (.room addr (.enter u)) (.enterRoom roomId u info :: st) := by
    intro addr' r room u' st' same
    unfold RoomManager.broadcast at same
    split at same <;> cases same
  cases moves with
  | enterFound known =>
      cases calls
      exact known
  | agent => exact (agents calls).elim
  | agentResumed => exact (agents calls).elim
  | entered => exact (tells calls).elim
  | left => exact (tells calls).elim
  | pool served => cases served <;> cases calls
  | poolResumed resumed => cases resumed <;> cases calls
  | _ => cases calls

end Begins

/-! ## The invariant -/

/-- At most one command of the agent enters or leaves a room, only that command is about the player,
and it is in some phase; without one the agent knows where the player is. -/
structure PresenceInv (uid : Uid) (w : World R) : Prop where
  player : w.shared.agent.uid = uid
  foreign : ∀ i a, w.acts i = some a → Involves uid a → Visitor a
  phase : ∀ i a, w.acts i = some a → Visitor a →
    ∃ stage, Phase uid stage a ∧ Holds w.shared uid stage
  single : ∀ i j a b, w.acts i = some a → w.acts j = some b → Visitor a → Visitor b → i = j
  idle : ¬ Visiting w → Settled w.shared uid
  known : ∀ i roomId u info st,
    w.acts i = some (.calling (.room info.addr (.enter u)) (.enterRoom roomId u info :: st)) →
    Known w roomId info

theorem PresenceInv.init (conf : Conf) : PresenceInv conf.uid (init (R := R) conf) := by
  have only : ∀ {i a}, (RoomManager.init (R := R) conf).acts i = some a →
      a = .calling (.pool .initPool) [] := by
    intro i a found
    simp only [RoomManager.init] at found
    rcases Code.acts_update found with ⟨-, rfl⟩ | ⟨-, earlier⟩
    · rfl
    · cases earlier
  have unvisited : ∀ {i a}, (RoomManager.init (R := R) conf).acts i = some a → ¬ Visitor a := by
    intro i a found visitor
    obtain ⟨pc, member, -⟩ := visitor
    rw [only found] at member
    cases member
  refine ⟨rfl, ?_, ?_, ?_, ?_, ?_⟩
  · intro i a found involves
    rw [only found] at involves
    cases involves with
    | request mentions => cases mentions
    | frame member mentions => cases member
  · intro i a found visitor
    exact (unvisited found visitor).elim
  · intro i j a b found _ visitor
    exact (unvisited found visitor).elim
  · intro _
    refine .inl ⟨rfl, ?_⟩
    intro addr inside
    obtain ⟨room, there, -⟩ := inside
    cases there
  · intro i roomId u info st found
    cases only found

/-- The service of an entry is not handed out again. -/
theorem ShareInv.known {w : World R} (share : ShareInv w) {roomId : R} {info : Info}
    (entry : w.shared.roomMap roomId = some info) : Known w roomId info where
  spent :=
    { outside := share.unused info.addr ⟨roomId, info, entry, rfl⟩
      launched := share.launched.2.1 info.addr ⟨roomId, info, entry, rfl⟩
      unheld := fun i a found held =>
        (share.held i a info.addr found held).2 ⟨roomId, info, entry, rfl⟩ }
  only := fun rid info' entry' same => share.apart rid roomId info' info entry' entry same

section Steps

variable {w : World R} {id : Nat} {a a' : Act R} {s' : Shared R} {uid : Uid}

/-- The segment belongs to the command. -/
theorem PresenceInv.goes (inv : PresenceInv uid w) (player : s'.agent.uid = uid)
    (others : ∀ i b, i ≠ id → w.acts i = some b → ¬ Visitor b) (goes : Goes s' uid a')
    (root : ∀ r, a' ≠ .calling r [])
    (known : ∀ i roomId u info st, Function.update w.acts id (some a') i =
      some (.calling (.room info.addr (.enter u)) (.enterRoom roomId u info :: st)) →
      Known ⟨s', Function.update w.acts id (some a')⟩ roomId info) :
    PresenceInv uid ⟨s', Function.update w.acts id (some a')⟩ where
  player := player
  foreign := by
    intro i b found involves
    rcases Code.acts_update found with ⟨-, rfl⟩ | ⟨-, earlier⟩
    · rcases goes with ⟨stage, phase, -⟩ | ⟨finished, -⟩
      · exact phase.visitor
      · cases a' with
        | calling r st =>
            cases finished
            exact (root r rfl).elim
        | returning v st =>
            cases finished
            exact (not_involves_over involves).elim
    · exact inv.foreign i b earlier involves
  phase := by
    intro i b found visitor
    rcases Code.acts_update found with ⟨-, rfl⟩ | ⟨other, earlier⟩
    · rcases goes with phase | ⟨finished, -⟩
      · exact phase
      · obtain ⟨pc, member, -⟩ := visitor
        rw [finished] at member
        cases member
    · exact (others i b other earlier visitor).elim
  single := by
    intro i j b c found found' visitor visitor'
    rcases Code.acts_update found with ⟨here, -⟩ | ⟨other, earlier⟩
    · rcases Code.acts_update found' with ⟨here', -⟩ | ⟨other, earlier⟩
      · exact here.trans here'.symm
      · exact (others j c other earlier visitor').elim
    · exact (others i b other earlier visitor).elim
  idle := by
    intro alone
    rcases goes with ⟨stage, phase, -⟩ | ⟨-, settled⟩
    · exact (alone (visiting_iff.mpr ⟨id, a', Function.update_self .., phase.visitor⟩)).elim
    · exact settled
  known := known

/-- The segment belongs to something else, or something else begins. -/
theorem PresenceInv.still (inv : PresenceInv uid w) (player : s'.agent.uid = uid)
    (still : Still w.shared s' uid) (before : ∀ a, w.acts id = some a → ¬ Visitor a)
    (after : ¬ Visitor a') (foreign : ¬ Involves uid a')
    (known : ∀ i roomId u info st, Function.update w.acts id (some a') i =
      some (.calling (.room info.addr (.enter u)) (.enterRoom roomId u info :: st)) →
      Known ⟨s', Function.update w.acts id (some a')⟩ roomId info) :
    PresenceInv uid ⟨s', Function.update w.acts id (some a')⟩ where
  player := player
  foreign := by
    intro i b found involves
    rcases Code.acts_update found with ⟨-, rfl⟩ | ⟨-, earlier⟩
    · exact (foreign involves).elim
    · exact inv.foreign i b earlier involves
  phase := by
    intro i b found visitor
    rcases Code.acts_update found with ⟨-, rfl⟩ | ⟨-, earlier⟩
    · exact (after visitor).elim
    · obtain ⟨stage, phase, holds⟩ := inv.phase i b earlier visitor
      exact ⟨stage, phase, still.holds holds⟩
  single := by
    intro i j b c found found' visitor visitor'
    rcases Code.acts_update found with ⟨-, rfl⟩ | ⟨-, earlier⟩
    · exact (after visitor).elim
    · rcases Code.acts_update found' with ⟨-, rfl⟩ | ⟨-, earlier'⟩
      · exact (after visitor').elim
      · exact inv.single i j b c earlier earlier' visitor visitor'
  idle := by
    intro alone
    refine still.settled (inv.idle fun visiting => alone ?_)
    obtain ⟨i, b, found, visitor⟩ := visiting_iff.mp visiting
    have other : i ≠ id := by
      rintro rfl
      exact before b found visitor
    exact visiting_iff.mpr ⟨i, b, (Function.update_of_ne other _ _).trans found, visitor⟩
  known := known

/-- Another request begins. -/
theorem PresenceInv.begins (inv : PresenceInv uid w) {r : Req R} (fresh : w.acts id = none)
    (foreign : ¬ Mentions uid r) :
    PresenceInv uid ⟨w.shared, Function.update w.acts id (some (.calling r []))⟩ := by
  refine inv.still inv.player (.of_eq rfl rfl rfl) ?_ ?_ ?_ ?_
  · intro a found
    rw [fresh] at found
    cases found
  · rintro ⟨pc, member, -⟩
    cases member
  · intro involves
    cases involves with
    | request mentions => exact foreign mentions
    | frame member mentions => cases member
  · intro i roomId u info st found
    rcases Code.acts_update found with ⟨-, same⟩ | ⟨-, earlier⟩
    · cases same
    · have known := inv.known i roomId u info st earlier
      refine ⟨known.spent.keep rfl ?_, known.only⟩
      intro held
      cases held

variable [DecidableEq R] [Zero R]

/-- Other rooms get other services. -/
theorem Known.moves {roomId : R} {info : Info} (known : Known w roomId info)
    (kill : ∀ addr st, a = .calling (.pool (.recycle (some addr))) st →
      w.shared.pool.recyremove = 1 ∧ w.shared.pool.maxnum ≤ w.shared.pool.pool.length)
    (found : w.acts id = some a) (moves : Moves w.shared a s' a') :
    Known ⟨s', Function.update w.acts id (some a')⟩ roomId info := by
  refine ⟨known.spent.moves kill found moves, ?_⟩
  cases moves with
  | stored =>
      intro rid info' entry same
      rcases update_eq_some entry with ⟨-, new⟩ | ⟨-, earlier⟩
      · cases new
        cases same
        exact (known.spent.unheld id _ found .carried).elim
      · exact known.only rid info' earlier same
  | removed =>
      intro rid info' entry same
      rcases update_eq_some entry with ⟨-, new⟩ | ⟨-, earlier⟩
      · cases new
      · exact known.only rid info' earlier same
  | _ => exact known.only

/-- What one segment keeps. -/
theorem PresenceInv.moves {o : Ora R} {e : Event (Ora R) (Env R)} (inv : PresenceInv uid w)
    (share : ShareInv w) (release : ReleaseInv w) (start : StartInv w) (safe : VisitsSafely w e)
    (event : e = .run id o) (found : w.acts id = some a) (moves : Moves w.shared a s' a') :
    PresenceInv uid ⟨s', Function.update w.acts id (some a')⟩ := by
  have kill : ∀ addr st, a = .calling (.pool (.recycle (some addr))) st →
      w.shared.pool.recyremove = 1 ∧ w.shared.pool.maxnum ≤ w.shared.pool.pool.length := by
    rintro addr st rfl
    exact safe.kill id o addr st event found
  have player : s'.agent.uid = uid := moves.uid_eq.trans inv.player
  have known : ∀ i roomId u info st, Function.update w.acts id (some a') i =
      some (.calling (.room info.addr (.enter u)) (.enterRoom roomId u info :: st)) →
      Known ⟨s', Function.update w.acts id (some a')⟩ roomId info := by
    intro i roomId u info st calls
    have before : Known w roomId info := by
      rcases Code.acts_update calls with ⟨-, mine⟩ | ⟨-, earlier⟩
      · exact share.known (moves.finds mine)
      · exact inv.known i roomId u info st earlier
    exact before.moves kill found moves
  by_cases visitor : Visitor a
  · have others : ∀ i b, i ≠ id → w.acts i = some b → ¬ Visitor b :=
      fun i b other before visits => other (inv.single i id b a before found visits visitor)
    obtain ⟨stage, phase, holds⟩ := inv.phase id a found visitor
    have goes : Goes s' uid a' := by
      refine phase.moves holds start safe event found inv.player ?_ moves
      rintro roomId u info st rfl
      exact inv.known id roomId u info st found
    exact inv.goes player others goes moves.not_root known
  · by_cases command : ∃ r st, a = .calling (.agent r) st ∧ Command r
    · obtain ⟨r, st, rfl, command⟩ := command
      obtain rfl := chain_agent (release.linked id _ found)
      have alone := safe.alone id o r [] event found command
      have others : ∀ i b, i ≠ id → w.acts i = some b → ¬ Visitor b :=
        fun i b _ before visits => alone (visiting_iff.mpr ⟨i, b, before, visits⟩)
      have root := moves.not_root
      cases moves with
      | agent =>
          exact inv.goes player others (command.goes (inv.idle alone) inv.player) root known
    · have after : ¬ Visitor a' := by
        intro visits
        rcases moves.visitor visits with before | begins
        · exact visitor before
        · exact command begins
      have foreign : ¬ Involves uid a := fun involves => visitor (inv.foreign id a found involves)
      have still : Still w.shared s' uid := by
        refine moves.still start release safe.release event found ?_ ?_ ?_
        · rintro r st rfl mentions
          exact foreign (.request mentions)
        · rintro r st rfl commands
          exact command ⟨r, st, rfl, commands⟩
        · rintro v pc st rfl visits
          exact visitor ⟨pc, List.mem_cons_self, visits⟩
      refine inv.still player still ?_ after ?_ known
      · intro b before
        rw [found] at before
        cases before
        exact visitor
      · intro involves
        rcases moves.involves involves with before | visits
        · exact foreign before
        · exact after visits

end Steps

/-- Where the agent is settled, it knows the room. -/
theorem Settled.knows {s : Shared R} {uid : Uid} (settled : Settled s uid)
    (apart : ∀ id id' info info', s.roomMap id = some info → s.roomMap id' = some info' →
      info.addr = info'.addr → id = id') (roomId : R) :
    InRoom s uid roomId ↔ s.agent.roomId = some roomId := by
  rcases settled with ⟨nowhere, outside⟩ | ⟨rid, info, remembers, there⟩
  · rw [nowhere]
    constructor
    · rintro ⟨info, -, inside⟩
      exact (outside info.addr inside).elim
    · exact nofun
  · rw [remembers, Option.some.injEq]
    constructor
    · rintro ⟨info', entry, inside⟩
      exact apart rid roomId info info' there.entry entry (there.only info'.addr inside).symm
    · rintro rfl
      exact ⟨info, there.entry, there.inside⟩

section Runs

variable [DecidableEq R] [Zero R]

/-- What the steps of a run keep. -/
structure RoomInv (uid : Uid) (w : World R) : Prop where
  share : ShareInv w
  release : ReleaseInv w
  start : StartInv w
  presence : PresenceInv uid w

theorem RoomInv.step {w w' : World R} {e : Event (Ora R) (Env R)} {uid : Uid}
    (inv : RoomInv uid w) (safe : VisitsSafely w e) (stepped : code.step w e = some w') :
    RoomInv uid w' := by
  have share := inv.share.step safe.kill stepped
  have release := inv.release.step safe.release stepped
  rcases step_moves stepped with ⟨id, o, a, s', a', event, found, moves, rfl⟩ |
    ⟨id, r, -, fresh, rfl⟩ | ⟨id, r, event, fresh, rfl⟩
  · refine ⟨share, release, ?_, ?_⟩
    · refine inv.start.moves inv.share inv.release ?_ found moves
      rintro addr st rfl
      exact safe.kill id o addr st event found
    · exact inv.presence.moves inv.share inv.release inv.start safe event found moves
  · exact ⟨share, release, inv.start.begins (.inl ⟨r, rfl⟩), inv.presence.begins fresh nofun⟩
  · refine ⟨share, release, inv.start.begins (.inr ⟨r, rfl⟩), inv.presence.begins fresh ?_⟩
    have others := safe.others id r event
    rwa [inv.presence.player] at others

/-- **An agent knows its room** as long as its commands do not overlap. -/
theorem knows_room (conf : Conf) : KnowsRoom (R := R) VisitsSafely conf := by
  intro w reached alone
  have inv : RoomInv conf.uid w := by
    refine reached.invariant (P := RoomInv conf.uid) ?_ RoomInv.step
    exact ⟨ShareInv.init conf, ReleaseInv.init conf, StartInv.init conf, PresenceInv.init conf⟩
  refine ⟨(inv.presence.idle alone).knows inv.share.apart, ?_⟩
  intro addr inside
  obtain ⟨room, there, member⟩ := inside
  exact inv.release.named addr room conf.uid there member

end Runs

/-- A client command for a room. -/
def roomMsg (id : Nat) : AgentRoom.Msg Nat := ⟨some "gp", some id, none, none, none, none⟩

/-- The rooms 5 and 6 are created, and the agent enters both at a time. -/
def bothEnter : List (Event (Ora Nat) (Env Nat)) :=
  [Event.run 0 Ora.ok,
      Event.arrive 1 (Env.manager (ManagerReq.create (some 5) (some "gp") none))] ++
    List.replicate 7 (Event.run 1 Ora.ok) ++
    [Event.arrive 2 (Env.manager (ManagerReq.create (some 6) (some "gp") none))] ++
    List.replicate 7 (Event.run 2 Ora.ok) ++
    [Event.arrive 3 (Env.agent (AgentReq.enterRoom (roomMsg 5))),
      Event.arrive 4 (Env.agent (AgentReq.enterRoom (roomMsg 6))), Event.run 3 Ora.ok,
      Event.run 4 Ora.ok] ++
    List.replicate 4 (Event.run 3 Ora.ok) ++ List.replicate 4 (Event.run 4 Ora.ok)

/-- The player is in room 5, and the agent remembers room 6. -/
theorem two_rooms : ¬ ∀ conf, KnowsRoom (R := Nat) OtherPlayers conf := by
  intro knows
  have ran : (code.runs (init shipped) bothEnter).map (fun w => (w.shared.agent.roomId,
      w.shared.roomMap 5, (w.shared.rooms 0).map Room.players,
      decide (∀ i : Fin 5, (w.acts i).map Activity.stack = some []))) =
      some (some 6, some ⟨0, none⟩, some {7}, true) := by decide +kernel
  obtain ⟨w, run, state⟩ := Option.map_eq_some_iff.mp ran
  simp only [Prod.mk.injEq, decide_eq_true_eq] at state
  obtain ⟨remembers, entry, inside, finished⟩ := state
  obtain ⟨room, there, players⟩ := Option.map_eq_some_iff.mp inside
  have reached : code.Reach OtherPlayers (init shipped) w := by
    refine Code.Reach.refl.of_runs_forall ?_ run
    intro e member w id r event mentions
    subst event
    cases mentions <;> simp [bothEnter] at member
  have alone : ¬ Visiting w := by
    rintro ⟨pc, ⟨i, a, found, member⟩, -⟩
    by_cases early : i < 5
    · have empty := finished ⟨i, early⟩
      rw [found] at empty
      rw [Option.some.inj empty] at member
      cases member
    · have untouched : w.acts i = (init shipped).acts i := by
        refine Code.runs_untouched ?_ run
        simp [bothEnter, Event.id]
        omega
      rw [untouched] at found
      simp only [init] at found
      rcases Code.acts_update found with ⟨first, -⟩ | ⟨-, nothing⟩
      · omega
      · cases nothing
  have there' : InRoom w.shared 7 5 := ⟨_, entry, room, there, by simp [players]⟩
  have same := ((knows shipped w reached alone).1 5).mp there'
  rw [remembers] at same
  cases same

end RillServer.RoomManager
