import RillServer.Rooms.Manager

/-!
# Rooms do not share a service

A room service is in one place at a time: in the pool's list, on its way from the pool to a
`create`, or in an entry of `Room_Map`. `leave` breaks this. It gives the service back to the pool while the
entry is still there, so that the service is in two places until the entry is removed, and when two
calls of `leave` overlap it is given back twice and two later rooms share it (`service_shared`).

A service that is given back to a pool whose list is full is killed instead, and then nothing is
shared (`rooms_apart`). With `maxnum` 0 and `recyremove` 1, as in `runconfig.lua`, it always is
(`roomsApart_of_conf`).
-/

namespace RillServer.RoomManager

open Coroutine

variable {R : Type}

/-- Some entry of `Room_Map` names the service. -/
def Named (s : Shared R) (addr : Addr) : Prop :=
  ∃ id info, s.roomMap id = some info ∧ info.addr = addr

/-- Different rooms have different services, and none of them is in the pool. -/
def RoomsApart [DecidableEq R] [Zero R] (guard : World R → Event (Ora R) (Env R) → Prop)
    (conf : Conf) : Prop :=
  ∀ w, code.Reach guard (init conf) w →
    (∀ id id' info info', w.shared.roomMap id = some info → w.shared.roomMap id' = some info' →
      id ≠ id' → info.addr ≠ info'.addr) ∧
    ∀ id info, w.shared.roomMap id = some info → info.addr ∉ w.shared.pool.pool

/-- A service is given back only to a pool that kills it. -/
def RecyclesKill (w : World R) (e : Event (Ora R) (Env R)) : Prop :=
  ∀ id o addr st, e = .run id o → w.acts id = some (.calling (.pool (.recycle (some addr))) st) →
    w.shared.pool.recyremove = 1 ∧ w.shared.pool.maxnum ≤ w.shared.pool.pool.length

/-- The activity carries the address of a service that it got from the pool or the launcher. -/
inductive Held : Act R → Addr → Prop
  | carried {addr : Addr} {pc : Pc R} {st : List (Pc R)} :
    Held (.returning (.pool (.addr addr)) (pc :: st)) addr

/-- Every service is in one place. -/
structure ShareInv (w : World R) : Prop where
  nodup : w.shared.pool.pool.Nodup
  apart : ∀ id id' info info', w.shared.roomMap id = some info →
    w.shared.roomMap id' = some info' → info.addr = info'.addr → id = id'
  unused : ∀ addr, Named w.shared addr → addr ∉ w.shared.pool.pool
  held : ∀ i a addr, w.acts i = some a → Held a addr →
    addr ∉ w.shared.pool.pool ∧ ¬ Named w.shared addr
  single : ∀ i j a b addr, w.acts i = some a → w.acts j = some b → Held a addr → Held b addr → i = j
  launched : (∀ addr ∈ w.shared.pool.pool, addr < w.shared.pool.nextAddr) ∧
    (∀ addr, Named w.shared addr → addr < w.shared.pool.nextAddr) ∧
    ∀ i a addr, w.acts i = some a → Held a addr → addr < w.shared.pool.nextAddr

theorem ShareInv.init (conf : Conf) : ShareInv (init (R := R) conf) := by
  have unheld : ∀ {i a addr}, (RoomManager.init (R := R) conf).acts i = some a → ¬ Held a addr := by
    intro i a addr found held
    simp only [RoomManager.init] at found
    rcases Code.acts_update found with ⟨-, rfl⟩ | ⟨-, earlier⟩
    · cases held
    · cases earlier
  have unnamed : ∀ {addr}, ¬ Named (RoomManager.init (R := R) conf).shared addr := by
    intro addr named
    obtain ⟨id, info, known, -⟩ := named
    cases known
  refine ⟨List.nodup_nil, ?_, ?_, ?_, ?_, ?_, ?_, ?_⟩
  · intro id id' info info' known
    cases known
  · intro addr named
    exact (unnamed named).elim
  · intro i a addr found held
    exact (unheld found held).elim
  · intro i j a b addr found _ held
    exact (unheld found held).elim
  · intro addr member
    cases member
  · intro addr named
    exact (unnamed named).elim
  · intro i a addr found held
    exact (unheld found held).elim

section Steps

variable {w : World R} {id : Nat} {a a' : Act R} {s' : Shared R}

/-- A segment that moves no service, except that the activity may go on carrying one. -/
theorem ShareInv.keep (inv : ShareInv w) (map : s'.roomMap = w.shared.roomMap)
    (pool : s'.pool.pool = w.shared.pool.pool) (next : s'.pool.nextAddr = w.shared.pool.nextAddr)
    (mine : ∀ addr, Held a' addr → ∃ a, w.acts id = some a ∧ Held a addr) :
    ShareInv ⟨s', Function.update w.acts id (some a')⟩ := by
  have before : ∀ {i b addr}, Function.update w.acts id (some a') i = some b → Held b addr →
      ∃ b', w.acts i = some b' ∧ Held b' addr := by
    intro i b addr found held
    rcases Code.acts_update found with ⟨rfl, rfl⟩ | ⟨-, earlier⟩
    · exact mine addr held
    · exact ⟨b, earlier, held⟩
  have named : ∀ {addr}, Named s' addr ↔ Named w.shared addr := by
    intro addr
    simp only [Named, map]
  refine ⟨?_, ?_, ?_, ?_, ?_, ?_, ?_, ?_⟩
  · simpa only [pool] using inv.nodup
  · simpa only [map] using inv.apart
  · simpa only [named, pool] using inv.unused
  · intro i b addr found held
    obtain ⟨b', found', held'⟩ := before found held
    simpa only [named, pool] using inv.held i b' addr found' held'
  · intro i j b c addr found found' held held'
    obtain ⟨b', found₁, held₁⟩ := before found held
    obtain ⟨c', found₂, held₂⟩ := before found' held'
    exact inv.single i j b' c' addr found₁ found₂ held₁ held₂
  · simpa only [pool, next] using inv.launched.1
  · simpa only [named, next] using inv.launched.2.1
  · intro i b addr found held
    obtain ⟨b', found', held'⟩ := before found held
    simpa only [next] using inv.launched.2.2 i b' addr found' held'

/-- An entry is removed. -/
theorem ShareInv.removes [DecidableEq R] (inv : ShareInv w) (roomId : R)
    (idle : ∀ addr, ¬ Held a' addr) :
    ShareInv ⟨{ w.shared with roomMap := Function.update w.shared.roomMap roomId none },
      Function.update w.acts id (some a')⟩ := by
  have earlier : ∀ {rid info}, Function.update w.shared.roomMap roomId none rid = some info →
      w.shared.roomMap rid = some info := by
    intro rid info known
    rcases update_eq_some known with ⟨-, nothing⟩ | ⟨-, there⟩
    · cases nothing
    · exact there
  have named : ∀ {addr}, Named { w.shared with
      roomMap := Function.update w.shared.roomMap roomId none } addr → Named w.shared addr := by
    intro addr there
    obtain ⟨rid, info, known, same⟩ := there
    exact ⟨rid, info, earlier known, same⟩
  have before : ∀ {i b addr}, Function.update w.acts id (some a') i = some b → Held b addr →
      w.acts i = some b := by
    intro i b addr found held
    rcases Code.acts_update found with ⟨-, rfl⟩ | ⟨-, there⟩
    · exact (idle addr held).elim
    · exact there
  refine ⟨inv.nodup, ?_, ?_, ?_, ?_, inv.launched.1, ?_, ?_⟩
  · intro rid rid' info info' known known'
    exact inv.apart rid rid' info info' (earlier known) (earlier known')
  · intro addr there
    exact inv.unused addr (named there)
  · intro i b addr found held
    obtain ⟨outside, unnamed⟩ := inv.held i b addr (before found held) held
    exact ⟨outside, fun there => unnamed (named there)⟩
  · intro i j b c addr found found' held held'
    exact inv.single i j b c addr (before found held) (before found' held') held held'
  · intro addr there
    exact inv.launched.2.1 addr (named there)
  · intro i b addr found held
    exact inv.launched.2.2 i b addr (before found held) held

/-- A service that the activity carries gets an entry. -/
theorem ShareInv.stores [DecidableEq R] (inv : ShareInv w) {addr : Addr} (roomId : R)
    (roomMode : Option Nat) (found : w.acts id = some a) (carried : Held a addr)
    (idle : ∀ addr, ¬ Held a' addr) :
    ShareInv ⟨{ w.shared with
        roomMap := Function.update w.shared.roomMap roomId (some ⟨addr, roomMode⟩) },
      Function.update w.acts id (some a')⟩ := by
  obtain ⟨outside, unnamed⟩ := inv.held id a addr found carried
  have entries : ∀ {rid info},
      Function.update w.shared.roomMap roomId (some ⟨addr, roomMode⟩) rid = some info →
      (rid = roomId ∧ info.addr = addr) ∨ (rid ≠ roomId ∧ w.shared.roomMap rid = some info) := by
    intro rid info known
    rcases update_eq_some known with ⟨here, mine⟩ | earlier
    · cases mine
      exact .inl ⟨here, rfl⟩
    · exact .inr earlier
  have named : ∀ {addr'}, Named { w.shared with
      roomMap := Function.update w.shared.roomMap roomId (some ⟨addr, roomMode⟩) } addr' →
      addr' = addr ∨ Named w.shared addr' := by
    intro addr' there
    obtain ⟨rid, info, known, same⟩ := there
    rcases entries known with ⟨-, here⟩ | ⟨-, earlier⟩
    · exact .inl (same.symm.trans here)
    · exact .inr ⟨rid, info, earlier, same⟩
  have before : ∀ {i b addr'}, Function.update w.acts id (some a') i = some b → Held b addr' →
      i ≠ id ∧ w.acts i = some b := by
    intro i b addr' found' held
    rcases Code.acts_update found' with ⟨-, rfl⟩ | ⟨other, there⟩
    · exact (idle addr' held).elim
    · exact ⟨other, there⟩
  refine ⟨inv.nodup, ?_, ?_, ?_, ?_, inv.launched.1, ?_, ?_⟩
  · intro rid rid' info info' known known' same
    rcases entries known with ⟨here, mine⟩ | ⟨-, earlier⟩
    · rcases entries known' with ⟨here', -⟩ | ⟨-, earlier'⟩
      · exact here.trans here'.symm
      · exact (unnamed ⟨rid', info', earlier', same.symm.trans mine⟩).elim
    · rcases entries known' with ⟨-, mine⟩ | ⟨-, earlier'⟩
      · exact (unnamed ⟨rid, info, earlier, same.trans mine⟩).elim
      · exact inv.apart rid rid' info info' earlier earlier' same
  · intro addr' there
    rcases named there with rfl | earlier
    · exact outside
    · exact inv.unused addr' earlier
  · intro i b addr' found' held
    obtain ⟨other, earlier⟩ := before found' held
    obtain ⟨outside', unnamed'⟩ := inv.held i b addr' earlier held
    refine ⟨outside', fun there => ?_⟩
    rcases named there with rfl | there'
    · exact other (inv.single i id b a addr' earlier found held carried)
    · exact unnamed' there'
  · intro i j b c addr' found₁ found₂ held held'
    exact inv.single i j b c addr' (before found₁ held).2 (before found₂ held').2 held held'
  · intro addr' there
    rcases named there with rfl | earlier
    · exact inv.launched.2.2 id a addr' found carried
    · exact inv.launched.2.1 addr' earlier
  · intro i b addr' found' held
    exact inv.launched.2.2 i b addr' (before found' held).2 held

/-- The pool changes: its list, or the launcher's next address, and what the activity carries. -/
theorem ShareInv.pools (inv : ShareInv w) {p : RoomPool.Pool}
    (later : w.shared.pool.nextAddr ≤ p.nextAddr) (nodup : p.pool.Nodup)
    (inside : ∀ addr ∈ p.pool, addr ∈ w.shared.pool.pool ∨ ∃ a, w.acts id = some a ∧ Held a addr)
    (mine : ∀ addr, Held a' addr → addr ∉ p.pool ∧ addr < p.nextAddr ∧
      (addr ∈ w.shared.pool.pool ∨ addr = w.shared.pool.nextAddr)) :
    ShareInv ⟨{ w.shared with pool := p }, Function.update w.acts id (some a')⟩ := by
  have others : ∀ {i b addr}, i ≠ id → w.acts i = some b → Held b addr → addr ∉ p.pool := by
    intro i b addr other found held member
    rcases inside addr member with there | ⟨a, found', held'⟩
    · exact (inv.held i b addr found held).1 there
    · exact other (inv.single i id b a addr found found' held held')
  have fresh : ∀ {addr}, Held a' addr → ¬ Named w.shared addr ∧
      ∀ i b, w.acts i = some b → ¬ Held b addr := by
    intro addr held
    rcases (mine addr held).2.2 with there | rfl
    · exact ⟨fun named => inv.unused addr named there,
        fun i b found held' => (inv.held i b addr found held').1 there⟩
    · refine ⟨fun named => ?_, fun i b found held' => ?_⟩
      · exact Nat.lt_irrefl _ (inv.launched.2.1 _ named)
      · exact Nat.lt_irrefl _ (inv.launched.2.2 i b _ found held')
  refine ⟨nodup, inv.apart, ?_, ?_, ?_, ?_, ?_, ?_⟩
  · intro addr named member
    rcases inside addr member with there | ⟨a, found, held⟩
    · exact inv.unused addr named there
    · exact (inv.held id a addr found held).2 named
  · intro i b addr found held
    rcases Code.acts_update found with ⟨-, rfl⟩ | ⟨other, earlier⟩
    · exact ⟨(mine addr held).1, (fresh held).1⟩
    · exact ⟨others other earlier held, (inv.held i b addr earlier held).2⟩
  · intro i j b c addr found found' held held'
    rcases Code.acts_update found with ⟨here, rfl⟩ | ⟨-, earlier⟩
    · rcases Code.acts_update found' with ⟨here', -⟩ | ⟨-, earlier'⟩
      · exact here.trans here'.symm
      · exact ((fresh held).2 j c earlier' held').elim
    · rcases Code.acts_update found' with ⟨-, rfl⟩ | ⟨-, earlier'⟩
      · exact ((fresh held').2 i b earlier held).elim
      · exact inv.single i j b c addr earlier earlier' held held'
  · intro addr member
    rcases inside addr member with there | ⟨a, found, held⟩
    · exact Nat.lt_of_lt_of_le (inv.launched.1 addr there) later
    · exact Nat.lt_of_lt_of_le (inv.launched.2.2 id a addr found held) later
  · intro addr named
    exact Nat.lt_of_lt_of_le (inv.launched.2.1 addr named) later
  · intro i b addr found held
    rcases Code.acts_update found with ⟨-, rfl⟩ | ⟨-, earlier⟩
    · exact (mine addr held).2.1
    · exact Nat.lt_of_lt_of_le (inv.launched.2.2 i b addr earlier held) later

/-- A service that the activity carries goes into the pool. -/
theorem ShareInv.returns (inv : ShareInv w) {room : Addr} {pc : Pc R} {st : List (Pc R)}
    {p : RoomPool.Pool}
    (found : w.acts id = some (.returning (.pool (.addr room)) (pc :: st)))
    (list : p.pool = w.shared.pool.pool ++ [room]) (next : p.nextAddr = w.shared.pool.nextAddr)
    (idle : ∀ addr, ¬ Held a' addr) :
    ShareInv ⟨{ w.shared with pool := p }, Function.update w.acts id (some a')⟩ := by
  refine inv.pools (Nat.le_of_eq next.symm) ?_ ?_ fun addr held => (idle addr held).elim
  · rw [list, List.nodup_append]
    refine ⟨inv.nodup, List.nodup_singleton room, ?_⟩
    intro addr inside addr' last same
    rw [List.mem_singleton.mp last] at same
    subst same
    exact (inv.held id _ addr found .carried).1 inside
  · intro addr inside
    rw [list] at inside
    rcases List.mem_append.mp inside with earlier | last
    · exact .inl earlier
    · rw [List.mem_singleton.mp last]
      exact .inr ⟨_, found, .carried⟩

end Steps

theorem not_held_outAgent {out : AgentRoom.Out R} {st : List (Pc R)} {addr : Addr} :
    ¬ Held ((outAgent out).settle st) addr := by
  intro held
  cases out with
  | call r pc => cases r <;> cases held
  | ret result => cases held

theorem not_held_broadcast {addr addr' : Addr} {r : RoomReq} {room : Room} {uid : Uid}
    {st : List (Pc R)} : ¬ Held ((broadcast addr r room uid).settle st) addr' := by
  intro held
  unfold broadcast at held
  split at held <;> cases held

theorem ShareInv.roomsApart {w : World R} (inv : ShareInv w) :
    (∀ id id' info info', w.shared.roomMap id = some info → w.shared.roomMap id' = some info' →
      id ≠ id' → info.addr ≠ info'.addr) ∧
    ∀ id info, w.shared.roomMap id = some info → info.addr ∉ w.shared.pool.pool := by
  refine ⟨?_, ?_⟩
  · intro id id' info info' known known' other same
    exact other (inv.apart id id' info info' known known' same)
  · intro id info known
    exact inv.unused info.addr ⟨id, info, known, rfl⟩

variable [DecidableEq R] [Zero R]

/-- What one segment keeps. -/
theorem ShareInv.moves {w : World R} {id : Nat} {a a' : Act R} {s' : Shared R} (inv : ShareInv w)
    (kill : ∀ addr st, a = .calling (.pool (.recycle (some addr))) st →
      w.shared.pool.recyremove = 1 ∧ w.shared.pool.maxnum ≤ w.shared.pool.pool.length)
    (found : w.acts id = some a) (moves : Moves w.shared a s' a') :
    ShareInv ⟨s', Function.update w.acts id (some a')⟩ := by
  cases moves with
  | agent => exact inv.keep rfl rfl rfl fun _ held => (not_held_outAgent held).elim
  | agentResumed => exact inv.keep rfl rfl rfl fun _ held => (not_held_outAgent held).elim
  | entered lives there => exact inv.keep rfl rfl rfl fun _ held => (not_held_broadcast held).elim
  | left lives there => exact inv.keep rfl rfl rfl fun _ held => (not_held_broadcast held).elim
  | stored => exact inv.stores _ _ found .carried nofun
  | removed => exact inv.removes _ nofun
  | @pool r p out st served =>
      cases served with
      | round => exact inv.keep rfl rfl rfl nofun
      | ready => exact inv.keep rfl rfl rfl nofun
      | launching => exact inv.keep rfl rfl rfl nofun
      | missing => exact inv.keep rfl rfl rfl nofun
      | removed => exact inv.keep rfl rfl rfl nofun
      | failed => exact inv.keep rfl rfl rfl nofun
      | returned space => exact (space (kill _ _ rfl)).elim
      | @taken room rest list =>
          have nodup := inv.nodup
          rw [list] at nodup
          have member : room ∈ w.shared.pool.pool := by
            rw [list]
            exact List.mem_append_right _ List.mem_cons_self
          obtain ⟨restNodup, -, apart⟩ := List.nodup_append.mp nodup
          refine inv.pools (Nat.le_refl _) restNodup ?_ ?_
          · intro addr inside
            rw [list]
            exact .inl (List.mem_append_left _ inside)
          · intro addr held
            cases held
            refine ⟨fun inside => ?_, inv.launched.1 room member, .inl member⟩
            exact apart room inside room List.mem_cons_self rfl
      | launched =>
          refine inv.pools (Nat.le_succ _) inv.nodup (fun _ inside => .inl inside) ?_
          intro addr held
          cases held
          refine ⟨fun inside => ?_, Nat.lt_succ_self _, .inr rfl⟩
          exact Nat.lt_irrefl _ (inv.launched.1 _ inside)
  | @poolResumed pc v p out st resumed =>
      cases resumed with
      | failed => exact inv.keep rfl rfl rfl nofun
      | got =>
          refine inv.keep rfl rfl rfl fun addr held => ?_
          cases held
          exact ⟨_, found, .carried⟩
      | @round rounds roomIdx idx room roomlist => exact inv.returns found rfl rfl nofun
      | @ready rounds roomIdx room roomlist => exact inv.returns found rfl rfl nofun
  | create | notStored | created | notCreated | enterMissing | enterFound | enterAnswered
  | enterFailed | leaveMissing | leaveFound | leaveAnswered | leaveRecycles | leaveFailed
  | notRemoved | killed | started | notStarted | notEntered | notLeft | told | toldKilled
  | broadcast | notBroadcast | numbered | notNumbered | poolFailed =>
      exact inv.keep rfl rfl rfl nofun

theorem ShareInv.step {w w' : World R} {e : Event (Ora R) (Env R)} (inv : ShareInv w)
    (kill : RecyclesKill w e) (stepped : code.step w e = some w') : ShareInv w' := by
  rcases step_moves stepped with ⟨id, o, a, s', a', event, found, moves, rfl⟩ |
    ⟨id, r, -, -, rfl⟩ | ⟨id, r, -, -, rfl⟩
  · refine inv.moves ?_ found moves
    rintro addr st rfl
    exact kill id o addr st event found
  · exact inv.keep rfl rfl rfl nofun
  · exact inv.keep rfl rfl rfl nofun

/-- **Rooms do not share a service** as long as every service that is given back is killed. -/
theorem rooms_apart (conf : Conf) : RoomsApart (R := R) RecyclesKill conf := by
  intro w reached
  have inv : ShareInv w := reached.invariant (ShareInv.init conf) ShareInv.step
  exact inv.roomsApart

/-- With `maxnum` 0 and `recyremove` 1 every service that is given back is killed. -/
theorem roomsApart_of_conf {conf : Conf} (maxnum : conf.maxnum = 0)
    (recyremove : conf.recyremove = 1) : RoomsApart (R := R) (fun _ _ => True) conf := by
  intro w reached
  have kept : ShareInv w ∧ w.shared.pool.maxnum = 0 ∧ w.shared.pool.recyremove = 1 := by
    refine reached.invariant (P := fun w => ShareInv w ∧ w.shared.pool.maxnum = 0 ∧
      w.shared.pool.recyremove = 1) ⟨ShareInv.init conf, maxnum, recyremove⟩ ?_
    intro w w' e known _ stepped
    obtain ⟨inv, none, removes⟩ := known
    refine ⟨inv.step ?_ stepped, ?_⟩
    · intro id o addr st _ _
      exact ⟨removes, none ▸ Nat.zero_le _⟩
    · rcases step_moves stepped with ⟨id, o, a, s', a', -, -, moves, rfl⟩ |
        ⟨id, r, -, -, rfl⟩ | ⟨id, r, -, -, rfl⟩
      · exact ⟨moves.conf.1.trans none, moves.conf.2.trans removes⟩
      · exact ⟨none, removes⟩
      · exact ⟨none, removes⟩
  exact kept.1.roomsApart

/-- A pool that takes every service back. -/
def keeping : Conf := ⟨0, 0, 1, roomTypes, 7⟩

/-- Room 5 is created and left twice at a time; then the rooms 6 and 8 are created. -/
def twoLeaves : List (Event (Ora Nat) (Env Nat)) :=
  [Event.run 0 Ora.ok,
      Event.arrive 1 (Env.manager (ManagerReq.create (some 5) (some "gp") none))] ++
    List.replicate 7 (Event.run 1 Ora.ok) ++
    [Event.arrive 2 (Env.manager (ManagerReq.leave 5 7)),
      Event.arrive 3 (Env.manager (ManagerReq.leave 5 8)), Event.run 2 Ora.ok,
      Event.run 3 Ora.ok] ++
    List.replicate 4 (Event.run 2 Ora.ok) ++ List.replicate 4 (Event.run 3 Ora.ok) ++
    [Event.arrive 4 (Env.manager (ManagerReq.create (some 6) (some "gp") none)),
      Event.arrive 5 (Env.manager (ManagerReq.create (some 8) (some "gp") none))] ++
    List.replicate 5 (Event.run 4 Ora.ok) ++ List.replicate 5 (Event.run 5 Ora.ok)

/-- The rooms 6 and 8 have the same service. -/
theorem service_shared : ¬ ∀ conf, RoomsApart (R := Nat) (fun _ _ => True) conf := by
  intro apart
  have ran : (code.runs (init keeping) twoLeaves).map
      (fun w => (w.shared.roomMap 6, w.shared.roomMap 8)) =
      some (some ⟨0, none⟩, some ⟨0, none⟩) := by decide +kernel
  obtain ⟨w, run, state⟩ := Option.map_eq_some_iff.mp ran
  obtain ⟨six, eight⟩ := Prod.mk.inj state
  exact (apart keeping w (Code.Reach.refl.of_runs run)).1 6 8 _ _ six eight (by decide) rfl

end RillServer.RoomManager
