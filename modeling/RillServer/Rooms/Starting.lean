import RillServer.Rooms.Release

/-!
# A service is started once

As long as the pool takes no service back, a service that has left it is never handed out again
(`Spent`). So a service is started once, before anybody is in its room, and only empty rooms are
killed.
-/

namespace RillServer.RoomManager

open Coroutine

variable {R : Type}

/-- The service is neither in the pool nor on its way from it, and has been launched. -/
structure Spent (w : World R) (addr : Addr) : Prop where
  outside : addr ∉ w.shared.pool.pool
  launched : addr < w.shared.pool.nextAddr
  unheld : ∀ i a, w.acts i = some a → ¬ Held a addr

/-- The activity is about to start the service. -/
inductive Starts : Act R → Addr → Prop
  | called {addr : Addr} {roomType : Option String} {st : List (Pc R)} :
    Starts (.calling (.room addr (.start roomType)) st) addr

/-- Services that have not been started have no room, and each is started by one activity. -/
structure StartInv (w : World R) : Prop where
  unused : ∀ addr, ¬ Spent w addr → w.shared.rooms addr = none
  pending : ∀ i a addr, w.acts i = some a → Starts a addr →
    w.shared.rooms addr = none ∧ Spent w addr
  single : ∀ i j a b addr, w.acts i = some a → w.acts j = some b → Starts a addr → Starts b addr →
    i = j
  /-- only requests from outside are at the bottom of a stack -/
  rooted : ∀ i r, w.acts i = some (.calling r []) →
    (∃ q, r = .agent q) ∨ (∃ q, r = .manager q) ∨ r = .pool .initPool
  killed : ∀ addr ∈ w.shared.pool.killed, EmptyRoom w.shared addr

theorem StartInv.init (conf : Conf) : StartInv (init (R := R) conf) where
  unused := fun _ _ => rfl
  pending := by
    intro i a addr found starts
    simp only [RoomManager.init] at found
    rcases Code.acts_update found with ⟨-, rfl⟩ | ⟨-, earlier⟩
    · cases starts
    · cases earlier
  single := by
    intro i j a b addr found _ starts
    simp only [RoomManager.init] at found
    rcases Code.acts_update found with ⟨-, rfl⟩ | ⟨-, earlier⟩
    · cases starts
    · cases earlier
  rooted := by
    intro i r found
    simp only [RoomManager.init] at found
    rcases Code.acts_update found with ⟨-, same⟩ | ⟨-, earlier⟩
    · cases same
      exact .inr (.inr rfl)
    · cases earlier
  killed := by
    intro addr member
    cases member

section Spending

variable {w : World R} {id : Nat} {a a' : Act R} {s' : Shared R} {addr : Addr}

theorem Spent.update (spent : Spent w addr) {p : RoomPool.Pool} (pool : s'.pool = p)
    (outside : addr ∉ p.pool) (later : w.shared.pool.nextAddr ≤ p.nextAddr)
    (mine : ¬ Held a' addr) : Spent ⟨s', Function.update w.acts id (some a')⟩ addr where
  outside := by simpa only [pool] using outside
  launched := by
    simp only [pool]
    exact Nat.lt_of_lt_of_le spent.launched later
  unheld := by
    intro i b found
    rcases Code.acts_update found with ⟨-, rfl⟩ | ⟨-, earlier⟩
    · exact mine
    · exact spent.unheld i b earlier

/-- A segment that leaves the pool alone. -/
theorem Spent.keep (spent : Spent w addr) (pool : s'.pool = w.shared.pool)
    (mine : ¬ Held a' addr) : Spent ⟨s', Function.update w.acts id (some a')⟩ addr :=
  spent.update pool spent.outside (Nat.le_refl _) mine

/-- A service that the activity carries goes into the pool. -/
theorem Spent.returns (spent : Spent w addr) {room : Addr} {pc : Pc R} {st : List (Pc R)}
    {p : RoomPool.Pool} (pool : s'.pool = p)
    (found : w.acts id = some (.returning (.pool (.addr room)) (pc :: st)))
    (list : p.pool = w.shared.pool.pool ++ [room]) (later : w.shared.pool.nextAddr ≤ p.nextAddr)
    (mine : ¬ Held a' addr) : Spent ⟨s', Function.update w.acts id (some a')⟩ addr := by
  refine spent.update pool ?_ later mine
  intro member
  rw [list] at member
  rcases List.mem_append.mp member with earlier | last
  · exact spent.outside earlier
  · have apart := spent.unheld id _ found
    rw [List.mem_singleton.mp last] at apart
    exact apart .carried

variable [DecidableEq R] [Zero R]

/-- A service that has left the pool is not handed out again. -/
theorem Spent.moves (spent : Spent w addr)
    (kill : ∀ addr st, a = .calling (.pool (.recycle (some addr))) st →
      w.shared.pool.recyremove = 1 ∧ w.shared.pool.maxnum ≤ w.shared.pool.pool.length)
    (found : w.acts id = some a) (moves : Moves w.shared a s' a') :
    Spent ⟨s', Function.update w.acts id (some a')⟩ addr := by
  cases moves with
  | agent => exact spent.keep rfl not_held_outAgent
  | agentResumed => exact spent.keep rfl not_held_outAgent
  | entered => exact spent.keep rfl not_held_broadcast
  | left => exact spent.keep rfl not_held_broadcast
  | pool served =>
      cases served with
      | returned space => exact (space (kill _ _ rfl)).elim
      | @taken room rest list =>
          have before := spent.outside
          rw [list, List.mem_append, not_or] at before
          refine spent.update rfl before.1 (Nat.le_refl _) ?_
          intro held
          cases held
          exact before.2 List.mem_cons_self
      | launched =>
          refine spent.update rfl spent.outside (Nat.le_succ _) ?_
          intro held
          cases held
          exact Nat.lt_irrefl _ spent.launched
      | round | ready | launching | missing | removed | failed =>
          exact spent.update rfl spent.outside (Nat.le_refl _) nofun
  | poolResumed resumed =>
      cases resumed with
      | got =>
          refine spent.update rfl spent.outside (Nat.le_refl _) ?_
          intro held
          cases held
          exact spent.unheld id _ found .carried
      | round => exact spent.returns rfl found rfl (Nat.le_refl _) nofun
      | ready => exact spent.returns rfl found rfl (Nat.le_refl _) nofun
      | failed => exact spent.update rfl spent.outside (Nat.le_refl _) nofun
  | create | stored | notStored | created | notCreated | enterMissing | enterFound | enterAnswered
  | enterFailed | leaveMissing | leaveFound | leaveAnswered | leaveRecycles | leaveFailed
  | removed | notRemoved | killed | started | notStarted | notEntered | notLeft | told | toldKilled
  | broadcast | notBroadcast | numbered | notNumbered | poolFailed =>
      exact spent.keep rfl nofun

end Spending

section Steps

variable {w : World R} {id : Nat} {a a' : Act R} {s' : Shared R}

/-- A segment that changes no room and starts none. -/
theorem StartInv.keep (inv : StartInv w)
    (spent : ∀ addr, Spent w addr → Spent ⟨s', Function.update w.acts id (some a')⟩ addr)
    (rooms : s'.rooms = w.shared.rooms) (idle : ∀ addr, ¬ Starts a' addr)
    (rooted : ∀ r, a' = .calling r [] → (∃ q, r = .agent q) ∨ ∃ q, r = .manager q)
    (killed : ∀ addr ∈ s'.pool.killed, EmptyRoom w.shared addr) :
    StartInv ⟨s', Function.update w.acts id (some a')⟩ where
  unused := by
    intro addr fresh
    simp only [rooms]
    exact inv.unused addr fun before => fresh (spent addr before)
  pending := by
    intro i b addr found starts
    rcases Code.acts_update found with ⟨-, rfl⟩ | ⟨-, earlier⟩
    · exact (idle addr starts).elim
    · obtain ⟨none, before⟩ := inv.pending i b addr earlier starts
      simp only [rooms]
      exact ⟨none, spent addr before⟩
  single := by
    intro i j b c addr found found' starts starts'
    rcases Code.acts_update found with ⟨-, rfl⟩ | ⟨-, earlier⟩
    · exact (idle addr starts).elim
    · rcases Code.acts_update found' with ⟨-, rfl⟩ | ⟨-, earlier'⟩
      · exact (idle addr starts').elim
      · exact inv.single i j b c addr earlier earlier' starts starts'
  rooted := by
    intro i r found
    rcases Code.acts_update found with ⟨-, same⟩ | ⟨-, earlier⟩
    · rcases rooted r same with agent | manager
      · exact .inl agent
      · exact .inr (.inl manager)
    · exact inv.rooted i r earlier
  killed := by
    intro addr dead
    simp only [EmptyRoom, rooms]
    exact killed addr dead

/-- A room of a service that lives changes. -/
theorem StartInv.changes (inv : StartInv w) {addr : Addr} {room : Room}
    (spent : ∀ addr', Spent w addr' →
      Spent ⟨w.shared.setRoom addr room, Function.update w.acts id (some a')⟩ addr')
    (used : Spent w addr) (apart : ∀ i b, i ≠ id → w.acts i = some b → ¬ Starts b addr)
    (idle : ∀ addr', ¬ Starts a' addr') (rooted : ∀ r, a' ≠ .calling r [])
    (lives : addr ∉ w.shared.pool.killed) :
    StartInv ⟨w.shared.setRoom addr room, Function.update w.acts id (some a')⟩ where
  unused := by
    intro addr' fresh
    have other : addr' ≠ addr := fun same => fresh (same ▸ spent addr used)
    exact (Function.update_of_ne other _ _).trans
      (inv.unused addr' fun before => fresh (spent addr' before))
  pending := by
    intro i b addr' found starts
    rcases Code.acts_update found with ⟨-, rfl⟩ | ⟨elsewhere, earlier⟩
    · exact (idle addr' starts).elim
    · obtain ⟨none, before⟩ := inv.pending i b addr' earlier starts
      have other : addr' ≠ addr := fun same => apart i b elsewhere earlier (same ▸ starts)
      exact ⟨(Function.update_of_ne other _ _).trans none, spent addr' before⟩
  single := by
    intro i j b c addr' found found' starts starts'
    rcases Code.acts_update found with ⟨-, rfl⟩ | ⟨-, earlier⟩
    · exact (idle addr' starts).elim
    · rcases Code.acts_update found' with ⟨-, rfl⟩ | ⟨-, earlier'⟩
      · exact (idle addr' starts').elim
      · exact inv.single i j b c addr' earlier earlier' starts starts'
  rooted := by
    intro i r found
    rcases Code.acts_update found with ⟨-, same⟩ | ⟨-, earlier⟩
    · exact (rooted r same).elim
    · exact inv.rooted i r earlier
  killed := by
    intro addr' dead room' there
    have other : addr' ≠ addr := fun same => lives (same ▸ dead)
    exact inv.killed addr' dead room' ((Function.update_of_ne other _ _).symm.trans there)

/-- The room of a service that was started is not about to be started. -/
theorem StartInv.used (inv : StartInv w) {addr : Addr} {room : Room}
    (there : w.shared.rooms addr = some room) :
    Spent w addr ∧ ∀ i b, w.acts i = some b → ¬ Starts b addr := by
  refine ⟨?_, ?_⟩
  · by_contra fresh
    rw [inv.unused addr fresh] at there
    cases there
  · intro i b found starts
    rw [(inv.pending i b addr found starts).1] at there
    cases there

/-- A service that is given back has an empty room: a `leave` has emptied it. -/
theorem StartInv.recycled (inv : StartInv w) (release : ReleaseInv w) {addr : Addr}
    {st : List (Pc R)} (found : w.acts id = some (.calling (.pool (.recycle (some addr))) st)) :
    EmptyRoom w.shared addr := by
  cases st with
  | nil =>
      rcases inv.rooted id _ found with ⟨q, same⟩ | ⟨q, same⟩ | same
      · cases same
      · cases same
      · cases same
  | cons pc st =>
      obtain ⟨roomId, uid, info, isok, rfl, rfl⟩ := chain_recycle (release.linked id _ found)
      exact release.ended id _ info found .recycling

/-- A service gets its entry and is about to be started. -/
theorem StartInv.stores (inv : StartInv w) (share : ShareInv w) {addr : Addr}
    {roomType : Option String} {map : R → Option Info} {pc : Pc R} {st : List (Pc R)}
    (found : w.acts id = some a) (carried : Held a addr) :
    StartInv ⟨{ w.shared with roomMap := map }, Function.update w.acts id
      (some (.calling (.room addr (.start roomType)) (pc :: st)))⟩ := by
  have fresh : ¬ Spent w addr := fun spent => spent.unheld id a found carried
  have spends : ∀ addr', Spent w addr' → Spent ⟨{ w.shared with roomMap := map }, Function.update
      w.acts id (some (.calling (.room addr (.start roomType)) (pc :: st)))⟩ addr' :=
    fun addr' spent => spent.keep rfl nofun
  have mine : Spent ⟨{ w.shared with roomMap := map }, Function.update w.acts id
      (some (.calling (.room addr (.start roomType)) (pc :: st)))⟩ addr := by
    refine ⟨(share.held id a addr found carried).1, share.launched.2.2 id a addr found carried, ?_⟩
    intro i b found' held
    rcases Code.acts_update found' with ⟨-, rfl⟩ | ⟨other, earlier⟩
    · cases held
    · exact other (share.single i id b a addr earlier found held carried)
  refine ⟨?_, ?_, ?_, ?_, inv.killed⟩
  · intro addr' unspent
    exact inv.unused addr' fun before => unspent (spends addr' before)
  · intro i b addr' found' starts
    rcases Code.acts_update found' with ⟨-, rfl⟩ | ⟨-, earlier⟩
    · cases starts
      exact ⟨inv.unused addr fresh, mine⟩
    · obtain ⟨none, before⟩ := inv.pending i b addr' earlier starts
      exact ⟨none, spends addr' before⟩
  · intro i j b c addr' found₁ found₂ starts starts'
    rcases Code.acts_update found₁ with ⟨here, rfl⟩ | ⟨-, earlier⟩
    · rcases Code.acts_update found₂ with ⟨here', -⟩ | ⟨-, earlier'⟩
      · exact here.trans here'.symm
      · cases starts
        exact (fresh (inv.pending j c addr earlier' starts').2).elim
    · rcases Code.acts_update found₂ with ⟨-, rfl⟩ | ⟨-, earlier'⟩
      · cases starts'
        exact (fresh (inv.pending i b addr earlier starts).2).elim
      · exact inv.single i j b c addr' earlier earlier' starts starts'
  · intro i r found'
    rcases Code.acts_update found' with ⟨-, same⟩ | ⟨-, earlier⟩
    · cases same
    · exact inv.rooted i r earlier

end Steps

theorem not_starts_outAgent {out : AgentRoom.Out R} {st : List (Pc R)} {addr : Addr} :
    ¬ Starts ((outAgent out).settle st) addr := by
  intro starts
  cases out with
  | call c pc => cases c <;> cases starts
  | ret result => cases starts

theorem not_starts_broadcast {addr addr' : Addr} {r : RoomReq} {room : Room} {uid : Uid}
    {st : List (Pc R)} : ¬ Starts ((broadcast addr r room uid).settle st) addr' := by
  intro starts
  unfold broadcast at starts
  split at starts <;> cases starts

theorem not_starts_outPool {out : RoomPool.Out} {st : List (Pc R)} {addr : Addr} :
    ¬ Starts ((outPool out : Out R).settle st) addr := by
  intro starts
  cases out <;> cases starts

variable [DecidableEq R] [Zero R]

/-- A segment never leaves a request without a coroutine that waits for it. -/
theorem Moves.not_root {s s' : Shared R} {a a' : Act R} (moves : Moves s a s' a') (r : Req R) :
    a' ≠ .calling r [] := by
  obtain ⟨q, st, out, rfl, -, -⟩ := moves.fits
  cases out <;> exact nofun

/-- What one segment keeps. -/
theorem StartInv.moves {w : World R} {id : Nat} {a a' : Act R} {s' : Shared R} (inv : StartInv w)
    (share : ShareInv w) (release : ReleaseInv w)
    (kill : ∀ addr st, a = .calling (.pool (.recycle (some addr))) st →
      w.shared.pool.recyremove = 1 ∧ w.shared.pool.maxnum ≤ w.shared.pool.pool.length)
    (found : w.acts id = some a) (moves : Moves w.shared a s' a') :
    StartInv ⟨s', Function.update w.acts id (some a')⟩ := by
  have spent := fun addr (before : Spent w addr) => before.moves kill found moves
  have root : ∀ r, a' = .calling r [] → (∃ q, r = .agent q) ∨ ∃ q, r = .manager q :=
    fun r same => (moves.not_root r same).elim
  have below := moves.not_root
  cases moves with
  | stored => exact inv.stores share found .carried
  | @started addr roomType kind st lives known =>
      have pending := inv.pending id _ addr found .called
      refine inv.changes spent pending.2 ?_ nofun nofun lives
      intro i b other before starts
      exact other (inv.single i id b _ addr before found starts .called)
  | entered lives there =>
      obtain ⟨used, apart⟩ := inv.used there
      exact inv.changes spent used (fun i b _ => apart i b) (fun _ => not_starts_broadcast)
        below lives
  | left lives there =>
      obtain ⟨used, apart⟩ := inv.used there
      exact inv.changes spent used (fun i b _ => apart i b) (fun _ => not_starts_broadcast)
        below lives
  | agent => exact inv.keep spent rfl (fun _ => not_starts_outAgent) root inv.killed
  | agentResumed => exact inv.keep spent rfl (fun _ => not_starts_outAgent) root inv.killed
  | @pool r p out st served =>
      cases served with
      | @removed room roomlist =>
          refine inv.keep spent rfl (fun _ => not_starts_outPool) root ?_
          intro addr dead
          rcases List.mem_cons.mp dead with rfl | earlier
          · exact inv.recycled release found
          · exact inv.killed addr earlier
      | _ => exact inv.keep spent rfl (fun _ => not_starts_outPool) root inv.killed
  | @poolResumed pc v p out st resumed =>
      cases resumed with
      | _ => exact inv.keep spent rfl (fun _ => not_starts_outPool) root inv.killed
  | _ =>
      refine inv.keep spent rfl ?_ root inv.killed
      intro addr starts
      cases starts

omit [DecidableEq R] [Zero R] in
/-- Another request begins. -/
theorem StartInv.begins {w : World R} {id : Nat} {r : Req R} (inv : StartInv w)
    (outside : (∃ q, r = .agent q) ∨ ∃ q, r = .manager q) :
    StartInv ⟨w.shared, Function.update w.acts id (some (.calling r []))⟩ := by
  refine inv.keep (fun addr spent => spent.keep rfl nofun) rfl ?_ ?_ inv.killed
  · intro addr starts
    rcases outside with ⟨q, rfl⟩ | ⟨q, rfl⟩
    · cases starts
    · cases starts
  · intro r' same
    cases same
    exact outside

end RillServer.RoomManager
