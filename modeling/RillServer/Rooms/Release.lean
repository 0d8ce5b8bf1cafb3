import RillServer.Rooms.Sharing

/-!
# A room is released when it is empty

The manager does not ask who is in a room. It releases the service after every `leave` of a room
that is not permanent, so a player who is still inside loses the room (`released_with_player`).

Rooms are released only when they are empty, and whoever is inside can leave through the manager, in
every run in which such a room handles a `leave` only when nobody else is inside, a room handles an
`enter` only when it has an entry and is not being released, and `create` makes an entry only under
a number that has none and is not being released (`released_when_empty`).
-/

namespace RillServer.RoomManager

open Coroutine

variable {R : Type}

/-- Nobody is in the room of the service. -/
def EmptyRoom (s : Shared R) (addr : Addr) : Prop :=
  ∀ room, s.rooms addr = some room → room.players = ∅

/-- A service is given back, and its entry removed, only when its room is empty, and the service of
everybody who is in a room has an entry. -/
def ReleasedEmpty [DecidableEq R] [Zero R] (guard : World R → Event (Ora R) (Env R) → Prop)
    (conf : Conf) : Prop :=
  ∀ w, code.Reach guard (init conf) w →
    (∀ w' e, guard w e → code.step w e = some w' →
      (∀ id o addr st, e = .run id o →
        w'.acts id = some (.calling (.pool (.recycle (some addr))) st) →
        EmptyRoom w.shared addr) ∧
      ∀ roomId info, w.shared.roomMap roomId = some info → w'.shared.roomMap roomId = none →
        EmptyRoom w.shared info.addr) ∧
    ∀ addr room uid, w.shared.rooms addr = some room → uid ∈ room.players → Named w.shared addr

/-- The coroutine is in a `leave` that releases the room. -/
inductive Releases (roomId : R) (info : Info) : Pc R → Prop
  | leaving {uid : Uid} : ¬ info.permanent → Releases roomId info (.leaveRoom roomId uid info)
  | recycling {uid : Uid} {isok : Bool} : Releases roomId info (.leaveRecycle roomId uid info isok)

def Releasing (w : World R) (roomId : R) (info : Info) : Prop :=
  ∃ pc, w.Suspended pc ∧ Releases roomId info pc

/-- Nobody else is inside when a room that is not permanent handles a `leave`; a room that handles
an `enter` has an entry and is not being released; a number that `create` makes an entry for has
none and is not being released. -/
structure ReleasesSafely (w : World R) (e : Event (Ora R) (Env R)) : Prop where
  leave : ∀ id o addr uid roomId info st room, e = .run id o →
    w.acts id = some (.calling (.room addr (.leave uid)) (.leaveRoom roomId uid info :: st)) →
    ¬ info.permanent → w.shared.rooms addr = some room → room.players ⊆ {uid}
  enter : ∀ id o addr uid st, e = .run id o →
    w.acts id = some (.calling (.room addr (.enter uid)) st) → addr ∉ w.shared.pool.killed →
    Named w.shared addr ∧ ∀ roomId info, info.addr = addr → ¬ Releasing w roomId info
  create : ∀ id o addr roomId roomType roomMode st, e = .run id o →
    w.acts id =
      some (.returning (.pool (.addr addr)) (.createGet (some roomId) roomType roomMode :: st)) →
    w.shared.roomMap roomId = none ∧ ∀ info, ¬ Releasing w roomId info

/-- The room has carried out the `leave` of an activity that releases it. -/
inductive Ended (info : Info) : Act R → Prop
  | answered {isok : Bool} {roomId : R} {uid : Uid} {st : List (Pc R)} : ¬ info.permanent →
    Ended info (.returning (.answer isok) (.leaveRoom roomId uid info :: st))
  | telling {addr : Addr} {r : RoomReq} {roomId : R} {uid : Uid} {st : List (Pc R)} :
    ¬ info.permanent →
    Ended info (.calling .broadcast (.roomBroadcast addr r :: .leaveRoom roomId uid info :: st))
  | told {v : Val R} {addr : Addr} {r : RoomReq} {roomId : R} {uid : Uid} {st : List (Pc R)} :
    ¬ info.permanent →
    Ended info (.returning v (.roomBroadcast addr r :: .leaveRoom roomId uid info :: st))
  | recycling {q : Req R} {roomId : R} {uid : Uid} {isok : Bool} {st : List (Pc R)} :
    Ended info (.calling q (.leaveRecycle roomId uid info isok :: st))
  | recycled {v : Val R} {roomId : R} {uid : Uid} {isok : Bool} {st : List (Pc R)} :
    Ended info (.returning v (.leaveRecycle roomId uid info isok :: st))

/-- Such an activity releases the room. -/
theorem Ended.releases {info : Info} {a : Act R} (ended : Ended info a) :
    ∃ roomId pc, pc ∈ a.stack ∧ Releases roomId info pc := by
  cases ended with
  | @answered isok roomId uid st passing =>
      exact ⟨roomId, _, List.mem_cons_self, .leaving passing⟩
  | @telling addr r roomId uid st passing =>
      exact ⟨roomId, _, List.mem_cons_of_mem _ List.mem_cons_self, .leaving passing⟩
  | @told v addr r roomId uid st passing =>
      exact ⟨roomId, _, List.mem_cons_of_mem _ List.mem_cons_self, .leaving passing⟩
  | @recycling q roomId uid isok st => exact ⟨roomId, _, List.mem_cons_self, .recycling⟩
  | @recycled v roomId uid isok st => exact ⟨roomId, _, List.mem_cons_self, .recycling⟩

/-- Which request an activity has an answer for when it has ended a `leave`. -/
theorem Ended.of_ret {info : Info} {r : Req R} {v : Val R} {st : List (Pc R)}
    (ended : Ended info (.returning v st)) (chain : typing.Chain r st) :
    (∃ uid isok, r = .room info.addr (.leave uid) ∧ v = .answer isok ∧ ¬ info.permanent ∧
        ∃ roomId st', st = .leaveRoom roomId uid info :: st') ∨
      (r = .broadcast ∧ Ended info (.calling r st)) ∨
      (r = .pool (.recycle (some info.addr)) ∧ Ended info (.calling r st)) := by
  cases ended with
  | @answered isok roomId uid st passing =>
      exact .inl ⟨uid, isok, chain.1, rfl, passing, roomId, st, rfl⟩
  | told passing =>
      obtain ⟨rfl, -⟩ := chain
      exact .inr (.inl ⟨rfl, .telling passing⟩)
  | recycled =>
      obtain ⟨rfl, -⟩ := chain
      exact .inr (.inr ⟨rfl, .recycling⟩)

/-- The answer to any other request does not end a `leave`. -/
theorem not_ended_ret {info : Info} {r : Req R} {v : Val R} {st : List (Pc R)}
    (chain : typing.Chain r st) (other : ∀ addr uid, r ≠ .room addr (.leave uid))
    (silent : r ≠ .broadcast) (keeps : ∀ addr, r ≠ .pool (.recycle addr)) :
    ¬ Ended info (.returning v st) := by
  intro ended
  rcases ended.of_ret chain with ⟨uid, isok, same, -⟩ | ⟨same, -⟩ | ⟨same, -⟩
  · exact other _ _ same
  · exact silent same
  · exact keeps _ same

theorem not_ended_agent {info : Info} {r : AgentReq R} {out : AgentRoom.Out R} {st : List (Pc R)}
    (chain : typing.Chain (.agent r) st) : ¬ Ended info ((outAgent out).settle st) := by
  cases out with
  | call c pc => cases c <;> exact nofun
  | ret result => exact not_ended_ret chain nofun nofun nofun

structure ReleaseInv (w : World R) : Prop where
  linked : ∀ i a, w.acts i = some a → Linked a
  named : ∀ addr room uid, w.shared.rooms addr = some room → uid ∈ room.players →
    Named w.shared addr
  ended : ∀ i a info, w.acts i = some a → Ended info a → EmptyRoom w.shared info.addr
  entries : ∀ roomId info, Releasing w roomId info →
    w.shared.roomMap roomId = none ∨ w.shared.roomMap roomId = some info

theorem ReleaseInv.init (conf : Conf) : ReleaseInv (init (R := R) conf) where
  linked := by
    intro i a found
    simp only [RoomManager.init] at found
    rcases Code.acts_update found with ⟨-, rfl⟩ | ⟨-, earlier⟩
    · exact True.intro
    · cases earlier
  named := by
    intro addr room uid there
    cases there
  ended := by
    intro i a info found ended
    simp only [RoomManager.init] at found
    rcases Code.acts_update found with ⟨-, rfl⟩ | ⟨-, earlier⟩
    · cases ended
    · cases earlier
  entries := fun _ _ _ => .inl rfl

section Steps

variable {w : World R} {id : Nat} {a a' : Act R} {s' : Shared R}

/-- The coroutines of an activity, after a segment that left no new `leave`. -/
theorem ReleaseInv.frames (inv : ReleaseInv w) (found : w.acts id = some a)
    (sub : ∀ pc ∈ a'.stack, pc ∈ a.stack ∨ ∀ roomId info, ¬ Releases roomId info pc) :
    ∀ roomId info pc, pc ∈ a'.stack → Releases roomId info pc →
      w.shared.roomMap roomId = none ∨ w.shared.roomMap roomId = some info := by
  intro roomId info pc member releases
  rcases sub pc member with earlier | other
  · exact inv.entries roomId info ⟨pc, ⟨id, a, found, earlier⟩, releases⟩
  · exact (other roomId info releases).elim

/-- A segment after which the entries are as before, and the empty rooms still empty. -/
theorem ReleaseInv.keep (inv : ReleaseInv w) (linked : Linked a')
    (map : s'.roomMap = w.shared.roomMap)
    (named : ∀ addr room uid, s'.rooms addr = some room → uid ∈ room.players → Named w.shared addr)
    (empty : ∀ i b info, i ≠ id → w.acts i = some b → Ended info b →
      EmptyRoom w.shared info.addr → EmptyRoom s' info.addr)
    (mine : ∀ info, Ended info a' → EmptyRoom s' info.addr)
    (frames : ∀ roomId info pc, pc ∈ a'.stack → Releases roomId info pc →
      w.shared.roomMap roomId = none ∨ w.shared.roomMap roomId = some info) :
    ReleaseInv ⟨s', Function.update w.acts id (some a')⟩ where
  linked := by
    intro i b found
    rcases Code.acts_update found with ⟨-, rfl⟩ | ⟨-, earlier⟩
    · exact linked
    · exact inv.linked i b earlier
  named := by
    intro addr room uid there inside
    have before := named addr room uid there inside
    rwa [Named, ← map] at before
  ended := by
    intro i b info found ended
    rcases Code.acts_update found with ⟨-, rfl⟩ | ⟨other, earlier⟩
    · exact mine info ended
    · exact empty i b info other earlier ended (inv.ended i b info earlier ended)
  entries := by
    intro roomId info releasing
    obtain ⟨pc, ⟨i, b, found, member⟩, releases⟩ := releasing
    simp only [map]
    rcases Code.acts_update found with ⟨-, rfl⟩ | ⟨-, earlier⟩
    · exact frames roomId info pc member releases
    · exact inv.entries roomId info ⟨pc, ⟨i, b, earlier, member⟩, releases⟩

/-- A segment that changes neither a room nor an entry. -/
theorem ReleaseInv.pass (inv : ReleaseInv w) (linked : Linked a')
    (map : s'.roomMap = w.shared.roomMap) (rooms : s'.rooms = w.shared.rooms)
    (mine : ∀ info, Ended info a' → EmptyRoom w.shared info.addr)
    (frames : ∀ roomId info pc, pc ∈ a'.stack → Releases roomId info pc →
      w.shared.roomMap roomId = none ∨ w.shared.roomMap roomId = some info) :
    ReleaseInv ⟨s', Function.update w.acts id (some a')⟩ := by
  have same : ∀ {addr}, EmptyRoom w.shared addr → EmptyRoom s' addr := by
    intro addr empty
    rwa [EmptyRoom, rooms]
  refine inv.keep linked map ?_ (fun _ _ _ _ _ _ => same) (fun info ended => same (mine info ended))
    frames
  intro addr room uid there
  rw [rooms] at there
  exact inv.named addr room uid there

/-- A request is answered. -/
theorem ReleaseInv.answers (inv : ReleaseInv w) {r : Req R} {v : Val R} {st : List (Pc R)}
    (found : w.acts id = some (.calling r st)) (map : s'.roomMap = w.shared.roomMap)
    (rooms : s'.rooms = w.shared.rooms)
    (mine : ∀ info, Ended info (.returning v st) → EmptyRoom w.shared info.addr) :
    ReleaseInv ⟨s', Function.update w.acts id (some (.returning v st))⟩ :=
  inv.pass (.ret (inv.linked id _ found)) map rooms mine
    (inv.frames found fun _ member => .inl member)

/-- A coroutine returns. -/
theorem ReleaseInv.returns (inv : ReleaseInv w) {pc : Pc R} {v v' : Val R} {st : List (Pc R)}
    (found : w.acts id = some (.returning v (pc :: st))) (map : s'.roomMap = w.shared.roomMap)
    (rooms : s'.rooms = w.shared.rooms)
    (mine : ∀ info, Ended info (.returning v' st) → EmptyRoom w.shared info.addr) :
    ReleaseInv ⟨s', Function.update w.acts id (some (.returning v' st))⟩ := by
  obtain ⟨q, -, waits, chain⟩ := inv.linked id _ found
  exact inv.pass (.ret chain) map rooms mine
    (inv.frames found fun _ member => .inl (List.mem_cons_of_mem _ member))

/-- A coroutine other than a `leave` makes a call. -/
theorem ReleaseInv.calls (inv : ReleaseInv w) {q : Req R} {pc : Pc R} {st : List (Pc R)}
    (found : w.acts id = some a) (linked : Linked (.calling q (pc :: st)))
    (map : s'.roomMap = w.shared.roomMap) (rooms : s'.rooms = w.shared.rooms)
    (below : ∀ pc ∈ st, pc ∈ a.stack) (other : ∀ roomId info, ¬ Releases roomId info pc)
    (mine : ∀ info, ¬ Ended info (.calling q (pc :: st))) :
    ReleaseInv ⟨s', Function.update w.acts id (some (.calling q (pc :: st)))⟩ := by
  refine inv.pass linked map rooms (fun info ended => (mine info ended).elim) (inv.frames found ?_)
  intro pc' member
  rcases List.mem_cons.mp member with rfl | deeper
  · exact .inr other
  · exact .inl (below pc' deeper)

/-- A command of the agent makes a call or ends. -/
theorem ReleaseInv.agents (inv : ReleaseInv w) {r : AgentReq R} {out : AgentRoom.Out R}
    {st : List (Pc R)} (found : w.acts id = some a) (linked : Linked ((outAgent out).settle st))
    (chain : typing.Chain (.agent r) st) (map : s'.roomMap = w.shared.roomMap)
    (rooms : s'.rooms = w.shared.rooms) (below : ∀ pc ∈ st, pc ∈ a.stack) :
    ReleaseInv ⟨s', Function.update w.acts id (some ((outAgent out).settle st))⟩ := by
  refine inv.pass linked map rooms (fun info ended => (not_ended_agent chain ended).elim)
    (inv.frames found ?_)
  intro pc member
  rcases mem_stack_settle.mp member with ⟨q, call⟩ | deeper
  · cases out with
    | call c pc' => cases c <;> cases call <;> exact .inr nofun
    | ret result => cases call
  · exact .inl (below pc deeper)

end Steps

section Rooms

variable {w : World R} {id : Nat} {e : Event (Ora R) (Env R)} {o : Ora R}

/-- What `broadcast` leaves below releases as before. -/
theorem mem_stack_broadcast {addr : Addr} {r : RoomReq} {room : Room} {uid : Uid}
    {st : List (Pc R)} {pc : Pc R}
    (member : pc ∈ ((broadcast addr r room uid : Out R).settle st).stack) :
    pc ∈ st ∨ ∀ roomId info, ¬ Releases roomId info pc := by
  unfold broadcast at member
  split at member
  · exact .inl member
  · rcases List.mem_cons.mp member with rfl | deeper
    · exact .inr nofun
    · exact .inl deeper

/-- Somebody enters a room. -/
theorem ReleaseInv.enters (inv : ReleaseInv w) {addr : Addr} {uid : Uid} {room : Room}
    {st : List (Pc R)} (safe : ReleasesSafely w e) (event : e = .run id o)
    (found : w.acts id = some (.calling (.room addr (.enter uid)) st))
    (lives : addr ∉ w.shared.pool.killed) (there : w.shared.rooms addr = some room) :
    ReleaseInv ⟨w.shared.setRoom addr (room.enter uid), Function.update w.acts id
      (some ((broadcast addr (.enter uid) (room.enter uid) uid).settle st))⟩ := by
  have chain := inv.linked id _ found
  obtain ⟨named, quiet⟩ := safe.enter id o addr uid st event found lives
  refine inv.keep (Typing.Ok.settle fits_broadcast chain) rfl ?_ ?_ ?_ (inv.frames found ?_)
  · intro addr' room' uid' there' inside
    rcases update_eq_some there' with ⟨rfl, -⟩ | ⟨-, earlier⟩
    · exact named
    · exact inv.named addr' room' uid' earlier inside
  · intro i b info _ before ended empty room' there'
    rcases update_eq_some there' with ⟨same, -⟩ | ⟨-, earlier⟩
    · obtain ⟨roomId, pc, member, releases⟩ := ended.releases
      exact (quiet roomId info same ⟨pc, ⟨i, b, before, member⟩, releases⟩).elim
    · exact empty room' earlier
  · intro info ended
    exfalso
    unfold broadcast at ended
    split at ended
    · exact not_ended_ret chain nofun nofun nofun ended
    · cases ended with
      | telling passing => cases chain.1
  · intro pc member
    exact mem_stack_broadcast member

/-- Somebody leaves a room. -/
theorem ReleaseInv.leaves (inv : ReleaseInv w) {addr : Addr} {uid : Uid} {room : Room}
    {st : List (Pc R)} (safe : ReleasesSafely w e) (event : e = .run id o)
    (found : w.acts id = some (.calling (.room addr (.leave uid)) st))
    (there : w.shared.rooms addr = some room) :
    ReleaseInv ⟨w.shared.setRoom addr (room.leave uid), Function.update w.acts id
      (some ((broadcast addr (.leave uid) (room.leave uid) uid).settle st))⟩ := by
  have chain := inv.linked id _ found
  -- the room is empty if the `leave` releases it
  have empty : ∀ {info roomId uid' st'}, st = .leaveRoom roomId uid' info :: st' →
      ¬ info.permanent → EmptyRoom (w.shared.setRoom addr (room.leave uid)) info.addr := by
    intro info roomId uid' st' below passing room' there'
    subst below
    cases chain.1
    have alone := safe.leave id o _ uid roomId info st' room event found passing there
    simp only [Shared.setRoom, Function.update_self, Option.some.injEq] at there'
    subst there'
    exact (Finset.erase_eq_empty_iff _ _).mpr (Finset.subset_singleton_iff.mp alone)
  refine inv.keep (Typing.Ok.settle fits_broadcast chain) rfl ?_ ?_ ?_ (inv.frames found ?_)
  · intro addr' room' uid' there' inside
    rcases update_eq_some there' with ⟨rfl, same⟩ | ⟨-, earlier⟩
    · cases same
      exact inv.named addr' room uid' there (Finset.mem_of_mem_erase inside)
    · exact inv.named addr' room' uid' earlier inside
  · intro i b info _ before ended before' room' there'
    rcases update_eq_some there' with ⟨same, new⟩ | ⟨-, earlier⟩
    · cases new
      have none : room.players = ∅ := before' room (same ▸ there)
      simp [Room.leave, none]
    · exact before' room' earlier
  · intro info ended
    unfold broadcast at ended
    split at ended
    · rcases ended.of_ret chain with ⟨uid', isok, -, -, passing, roomId, st', below⟩ | ⟨same, -⟩ |
        ⟨same, -⟩
      · exact empty below passing
      · cases same
      · cases same
    · cases ended with
      | telling passing => exact empty rfl passing
  · intro pc member
    exact mem_stack_broadcast member

/-- A room is started. -/
theorem ReleaseInv.starts (inv : ReleaseInv w) {addr : Addr} {roomType : Option String}
    {kind : Kind} {v : Val R} {st : List (Pc R)}
    (found : w.acts id = some (.calling (.room addr (.start roomType)) st)) :
    ReleaseInv ⟨w.shared.setRoom addr ⟨kind, ∅⟩,
      Function.update w.acts id (some (.returning v st))⟩ := by
  have chain := inv.linked id _ found
  refine inv.keep (.ret chain) rfl ?_ ?_
    (fun info ended => (not_ended_ret chain nofun nofun nofun ended).elim)
    (inv.frames found fun _ member => .inl member)
  · intro addr' room' uid' there' inside
    rcases update_eq_some there' with ⟨-, same⟩ | ⟨-, earlier⟩
    · cases same
      cases inside
    · exact inv.named addr' room' uid' earlier inside
  · intro i b info _ _ _ empty room' there'
    rcases update_eq_some there' with ⟨-, same⟩ | ⟨-, earlier⟩
    · cases same
      rfl
    · exact empty room' earlier

end Rooms

section Entries

variable [DecidableEq R] {w : World R} {id : Nat} {a' : Act R}

/-- `create` makes an entry under a number that has none. -/
theorem ReleaseInv.stores (inv : ReleaseInv w) {addr : Addr} {roomId : R}
    {roomType : Option String} {roomMode : Option Nat} {st : List (Pc R)}
    (found : w.acts id =
      some (.returning (.pool (.addr addr)) (.createGet (some roomId) roomType roomMode :: st)))
    (free : w.shared.roomMap roomId = none) (quiet : ∀ info, ¬ Releasing w roomId info) :
    ReleaseInv ⟨{ w.shared with
        roomMap := Function.update w.shared.roomMap roomId (some ⟨addr, roomMode⟩) },
      Function.update w.acts id (some (.calling (.room addr (.start roomType))
        (.createStart roomId roomType roomMode :: st)))⟩ := by
  obtain ⟨q, -, -, chain⟩ := inv.linked id _ found
  have kept : ∀ {rid}, rid ≠ roomId →
      Function.update w.shared.roomMap roomId (some ⟨addr, roomMode⟩) rid = w.shared.roomMap rid :=
    fun other => Function.update_of_ne other _ _
  refine ⟨?_, ?_, ?_, ?_⟩
  · intro i b found'
    rcases Code.acts_update found' with ⟨-, rfl⟩ | ⟨-, earlier⟩
    · exact ⟨⟨_, rfl⟩, chain⟩
    · exact inv.linked i b earlier
  · intro addr' room uid there inside
    obtain ⟨rid, info, known, same⟩ := inv.named addr' room uid there inside
    have other : rid ≠ roomId := by
      intro here
      rw [here, free] at known
      cases known
    exact ⟨rid, info, (kept other).trans known, same⟩
  · intro i b info found' ended
    rcases Code.acts_update found' with ⟨-, rfl⟩ | ⟨-, earlier⟩
    · cases ended
    · exact inv.ended i b info earlier ended
  · intro rid info releasing
    obtain ⟨pc, ⟨i, b, found', member⟩, releases⟩ := releasing
    have before : Releasing w rid info := by
      rcases Code.acts_update found' with ⟨-, rfl⟩ | ⟨-, earlier⟩
      · rcases List.mem_cons.mp member with rfl | deeper
        · cases releases
        · exact ⟨pc, ⟨id, _, found, List.mem_cons_of_mem _ deeper⟩, releases⟩
      · exact ⟨pc, ⟨i, b, earlier, member⟩, releases⟩
    have other : rid ≠ roomId := by
      intro here
      exact quiet info (here ▸ before)
    simp only [kept other]
    exact inv.entries rid info before

/-- The entry of a released room is removed. -/
theorem ReleaseInv.removes (inv : ReleaseInv w) {roomId : R} {uid : Uid} {info : Info}
    {isok : Bool} {v v' : Val R} {st : List (Pc R)}
    (found : w.acts id = some (.returning v (.leaveRecycle roomId uid info isok :: st))) :
    ReleaseInv ⟨{ w.shared with roomMap := Function.update w.shared.roomMap roomId none },
      Function.update w.acts id (some (.returning v' st))⟩ := by
  obtain ⟨q, -, -, chain⟩ := inv.linked id _ found
  have empty := inv.ended id _ info found .recycled
  have entry := inv.entries roomId info ⟨_, ⟨id, _, found, List.mem_cons_self⟩, .recycling⟩
  have kept : ∀ {rid}, rid ≠ roomId →
      Function.update w.shared.roomMap roomId none rid = w.shared.roomMap rid :=
    fun other => Function.update_of_ne other _ _
  refine ⟨?_, ?_, ?_, ?_⟩
  · intro i b found'
    rcases Code.acts_update found' with ⟨-, rfl⟩ | ⟨-, earlier⟩
    · exact .ret chain
    · exact inv.linked i b earlier
  · intro addr room uid' there inside
    obtain ⟨rid, info', known, same⟩ := inv.named addr room uid' there inside
    have other : rid ≠ roomId := by
      intro here
      rw [here] at known
      rcases entry with none | mine
      · rw [none] at known
        cases known
      · rw [mine] at known
        cases known
        rw [empty room (same ▸ there)] at inside
        cases inside
    exact ⟨rid, info', (kept other).trans known, same⟩
  · intro i b info' found' ended
    rcases Code.acts_update found' with ⟨-, rfl⟩ | ⟨-, earlier⟩
    · exact (not_ended_ret chain nofun nofun nofun ended).elim
    · exact inv.ended i b info' earlier ended
  · intro rid info' releasing
    obtain ⟨pc, ⟨i, b, found', member⟩, releases⟩ := releasing
    by_cases here : rid = roomId
    · subst here
      exact .inl (Function.update_self ..)
    · simp only [kept here]
      rcases Code.acts_update found' with ⟨-, rfl⟩ | ⟨-, earlier⟩
      · exact inv.entries rid info' ⟨pc, ⟨id, _, found, List.mem_cons_of_mem _ member⟩, releases⟩
      · exact inv.entries rid info' ⟨pc, ⟨i, b, earlier, member⟩, releases⟩

end Entries

variable [DecidableEq R] [Zero R]

/-- What one segment keeps. -/
theorem ReleaseInv.moves {w : World R} {id : Nat} {o : Ora R} {e : Event (Ora R) (Env R)}
    {a a' : Act R} {s' : Shared R} (inv : ReleaseInv w) (safe : ReleasesSafely w e)
    (event : e = .run id o) (found : w.acts id = some a) (moves : Moves w.shared a s' a') :
    ReleaseInv ⟨s', Function.update w.acts id (some a')⟩ := by
  have before := inv.linked id a found
  have linked := moves.linked before
  -- an answer to a request of the manager, the pool or the agent ends no `leave`
  have idle : ∀ {r : Req R} {v : Val R} {st : List (Pc R)}, typing.Chain r st →
      (∀ addr q, r ≠ .room addr q) → r ≠ .broadcast → (∀ addr, r ≠ .pool (.recycle addr)) →
      ∀ info, Ended info (.returning v st) → EmptyRoom w.shared info.addr :=
    fun chain other silent keeps info ended =>
      (not_ended_ret chain (fun addr uid => other addr (.leave uid)) silent keeps ended).elim
  cases moves with
  | agent => exact inv.agents found linked before rfl rfl fun _ member => member
  | @agentResumed pc v st =>
      obtain ⟨q, -, -, chain⟩ := before
      have handles : ∃ r, typing.serves (.agent pc : Pc R) = .agent r := by
        cases pc <;> exact ⟨_, rfl⟩
      obtain ⟨r, handles⟩ := handles
      rw [handles] at chain
      exact inv.agents found linked chain rfl rfl fun _ member => List.mem_cons_of_mem _ member
  | create => exact inv.calls found linked rfl rfl (fun _ member => member) nofun nofun
  | stored =>
      obtain ⟨free, quiet⟩ := safe.create id o _ _ _ _ _ event found
      exact inv.stores found free quiet
  | notStored | created | notCreated | enterAnswered | enterFailed | leaveAnswered | leaveFailed
  | notRemoved =>
      obtain ⟨q, -, -, chain⟩ := before
      exact inv.returns found rfl rfl (idle chain nofun nofun nofun)
  | enterMissing | leaveMissing | numbered | notNumbered =>
      exact inv.answers found rfl rfl (idle before nofun nofun nofun)
  | enterFound known => exact inv.calls found linked rfl rfl (fun _ member => member) nofun nofun
  | @leaveFound roomId uid room st known =>
      refine inv.pass linked rfl rfl nofun ?_
      intro rid info pc member releases
      rcases List.mem_cons.mp member with rfl | deeper
      · cases releases
        exact .inr known
      · exact inv.entries rid info ⟨pc, ⟨id, _, found, deeper⟩, releases⟩
  | @leaveRecycles isok roomId uid room st passing =>
      refine inv.pass linked rfl rfl ?_ ?_
      · intro info ended
        cases ended
        exact inv.ended id _ room found (.answered passing)
      · intro rid info pc member releases
        rcases List.mem_cons.mp member with rfl | deeper
        · cases releases
          exact inv.entries roomId room
            ⟨_, ⟨id, _, found, List.mem_cons_self⟩, .leaving passing⟩
        · exact inv.entries rid info
            ⟨pc, ⟨id, _, found, List.mem_cons_of_mem _ deeper⟩, releases⟩
  | removed => exact inv.removes found
  | killed dead =>
      refine inv.answers found rfl rfl fun info ended => ?_
      rcases ended.of_ret before with ⟨uid, isok, -, answer, -⟩ | ⟨same, -⟩ | ⟨same, -⟩
      · cases answer
      · cases same
      · cases same
  | started => exact inv.starts found
  | notStarted | notEntered =>
      exact inv.answers found rfl rfl fun info ended =>
        (not_ended_ret before nofun nofun nofun ended).elim
  | entered lives there => exact inv.enters safe event found lives there
  | left lives there => exact inv.leaves safe event found there
  | notLeft nothing =>
      refine inv.answers found rfl rfl fun info ended room there => ?_
      rcases ended.of_ret before with ⟨uid, isok, same, -⟩ | ⟨same, -⟩ | ⟨same, -⟩
      · cases same
        rw [nothing] at there
        cases there
      · cases same
      · cases same
  | told lives =>
      refine inv.returns found rfl rfl fun info ended => ?_
      obtain ⟨q, -, -, chain⟩ := before
      rcases ended.of_ret chain with ⟨uid, isok, -, -, passing, roomId, st, rfl⟩ | ⟨same, -⟩ |
        ⟨same, -⟩
      · exact inv.ended id _ info found (.told passing)
      · cases same
      · cases same
  | toldKilled dead =>
      refine inv.returns found rfl rfl fun info ended => ?_
      obtain ⟨q, -, -, chain⟩ := before
      rcases ended.of_ret chain with ⟨uid, isok, -, answer, -⟩ | ⟨same, -⟩ | ⟨same, -⟩
      · cases answer
      · cases same
      · cases same
  | broadcast | notBroadcast =>
      refine inv.answers found rfl rfl fun info ended => ?_
      rcases ended.of_ret before with ⟨uid, isok, same, -⟩ | ⟨-, earlier⟩ | ⟨same, -⟩
      · cases same
      · exact inv.ended id _ info found earlier
      · cases same
  | @pool r p out st served =>
      cases out with
      | call q pc => exact inv.calls found linked rfl rfl (fun _ member => member) nofun nofun
      | ret v =>
          refine inv.answers found rfl rfl fun info ended => ?_
          rcases ended.of_ret before with ⟨uid, isok, same, -⟩ | ⟨same, -⟩ | ⟨-, earlier⟩
          · cases same
          · cases same
          · exact inv.ended id _ info found earlier
  | @poolResumed pc v p out st resumed =>
      cases out with
      | call q pc' =>
          exact inv.calls found linked rfl rfl (fun _ member => List.mem_cons_of_mem _ member) nofun
            nofun
      | ret v' =>
          obtain ⟨q, -, -, chain⟩ := before
          refine inv.returns found rfl rfl ?_
          cases pc <;> exact idle chain nofun nofun nofun
  | @poolFailed pc v st =>
      obtain ⟨q, -, -, chain⟩ := before
      apply inv.returns found rfl rfl
      cases pc <;> exact idle chain nofun nofun nofun

theorem ReleaseInv.step {w w' : World R} {e : Event (Ora R) (Env R)} (inv : ReleaseInv w)
    (safe : ReleasesSafely w e) (stepped : code.step w e = some w') : ReleaseInv w' := by
  rcases step_moves stepped with ⟨id, o, a, s', a', event, found, moves, rfl⟩ |
    ⟨id, r, -, -, rfl⟩ | ⟨id, r, -, -, rfl⟩
  · exact inv.moves safe event found moves
  · exact inv.pass True.intro rfl rfl (fun _ ended => by cases ended)
      fun _ _ _ member => (List.not_mem_nil member).elim
  · exact inv.pass True.intro rfl rfl (fun _ ended => by cases ended)
      fun _ _ _ member => (List.not_mem_nil member).elim

section Released

variable {w : World R} {id : Nat} {a a' : Act R} {s' : Shared R}

/-- A segment that gives a service back finds the room empty. -/
theorem ReleaseInv.recycled (inv : ReleaseInv w) (found : w.acts id = some a)
    (moves : Moves w.shared a s' a') {addr : Addr} {st : List (Pc R)}
    (gives : a' = .calling (.pool (.recycle (some addr))) st) : EmptyRoom w.shared addr := by
  have agents : ∀ {out : AgentRoom.Out R} {st'},
      (outAgent out).settle st' ≠ .calling (.pool (.recycle (some addr))) st := by
    intro out st' same
    cases out with
    | call c pc => cases c <;> cases same
    | ret result => cases same
  have tells : ∀ {addr' r room uid st'},
      (RoomManager.broadcast addr' r room uid).settle st' ≠
        .calling (.pool (.recycle (some addr))) st := by
    intro addr' r room uid st' same
    unfold RoomManager.broadcast at same
    split at same <;> cases same
  cases moves with
  | leaveRecycles passing =>
      cases gives
      exact inv.ended id _ _ found (.answered passing)
  | agent => exact (agents gives).elim
  | agentResumed => exact (agents gives).elim
  | entered => exact (tells gives).elim
  | left => exact (tells gives).elim
  | pool served => cases served <;> cases gives
  | poolResumed resumed => cases resumed <;> cases gives
  | _ => cases gives

/-- A segment that removes an entry finds the room empty. -/
theorem ReleaseInv.removed (inv : ReleaseInv w) (found : w.acts id = some a)
    (moves : Moves w.shared a s' a') {roomId : R} {info : Info}
    (known : w.shared.roomMap roomId = some info) (gone : s'.roomMap roomId = none) :
    EmptyRoom w.shared info.addr := by
  have kept : s'.roomMap roomId ≠ w.shared.roomMap roomId := by
    rw [known, gone]
    exact nofun
  cases moves with
  | @stored addr rid roomType roomMode st =>
      by_cases same : roomId = rid
      · simp only [same, Function.update_self] at gone
        cases gone
      · exact (kept (Function.update_of_ne same _ _)).elim
  | @removed isok rid uid room st =>
      by_cases same : roomId = rid
      · subst same
        have releasing : Releasing w roomId room :=
          ⟨_, ⟨id, _, found, List.mem_cons_self⟩, .recycling⟩
        rcases inv.entries roomId room releasing with none | mine
        · rw [none] at known
          cases known
        · rw [mine] at known
          cases known
          exact inv.ended id _ info found .recycled
      · exact (kept (Function.update_of_ne same _ _)).elim
  | _ => exact (kept rfl).elim

end Released

/-- **A room is released only when it is empty**, and whoever is inside can leave. -/
theorem released_when_empty (conf : Conf) : ReleasedEmpty (R := R) ReleasesSafely conf := by
  intro w reached
  have inv : ReleaseInv w := reached.invariant (ReleaseInv.init conf) ReleaseInv.step
  refine ⟨?_, inv.named⟩
  intro w' e _ stepped
  rcases step_moves stepped with ⟨id, o, a, s', a', rfl, found, moves, rfl⟩ |
    ⟨id, r, rfl, -, rfl⟩ | ⟨id, r, rfl, -, rfl⟩
  · refine ⟨?_, fun roomId info known gone => inv.removed found moves known gone⟩
    intro id' o' addr st event calls
    cases event
    simp only [Function.update_self, Option.some.injEq] at calls
    exact inv.recycled found moves calls
  · refine ⟨nofun, fun roomId info known gone => ?_⟩
    rw [known] at gone
    cases gone
  · refine ⟨nofun, fun roomId info known gone => ?_⟩
    rw [known] at gone
    cases gone

/-- The configuration of `runconfig.lua`. -/
def shipped : Conf := ⟨0, 1, 1, roomTypes, 7⟩

/-- Room 5 is created, two players enter it, and one of them leaves, up to the end of the
recycling. -/
def oneOfTwoLeaves : List (Event (Ora Nat) (Env Nat)) :=
  [Event.run 0 Ora.ok,
      Event.arrive 1 (Env.manager (ManagerReq.create (some 5) (some "gp") none))] ++
    List.replicate 7 (Event.run 1 Ora.ok) ++
    [Event.arrive 2 (Env.manager (ManagerReq.enter 5 7))] ++
    List.replicate 3 (Event.run 2 Ora.ok) ++
    [Event.arrive 3 (Env.manager (ManagerReq.enter 5 8))] ++
    List.replicate 5 (Event.run 3 Ora.ok) ++
    [Event.arrive 4 (Env.manager (ManagerReq.leave 5 7))] ++
    List.replicate 6 (Event.run 4 Ora.ok)

/-- The entry is removed while the other player is inside. -/
theorem released_with_player : ¬ ∀ conf, ReleasedEmpty (R := Nat) (fun _ _ => True) conf := by
  intro released
  have ran : (code.runs (init shipped) oneOfTwoLeaves).map (fun w => (w.shared.roomMap 5,
      (w.shared.rooms 0).map Room.players,
      (code.step w (.run 4 .ok)).map fun w' => w'.shared.roomMap 5)) =
      some (some ⟨0, none⟩, some {8}, some none) := by decide +kernel
  obtain ⟨w, run, state⟩ := Option.map_eq_some_iff.mp ran
  simp only [Prod.mk.injEq] at state
  obtain ⟨known, inside, removal⟩ := state
  obtain ⟨w', stepped, gone⟩ := Option.map_eq_some_iff.mp removal
  obtain ⟨room, there, players⟩ := Option.map_eq_some_iff.mp inside
  obtain ⟨steps, -⟩ := released shipped w (Code.Reach.refl.of_runs run)
  have empty := (steps w' (.run 4 .ok) True.intro stepped).2 5 _ known gone room there
  rw [players] at empty
  exact Finset.singleton_ne_empty 8 empty

end RillServer.RoomManager
