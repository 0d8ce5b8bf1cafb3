import RillServer.Session.Closing

/-!
# The life of a key

A login attempt draws a fresh key, the center stores it with the uid, the gate writes it into the
connection table, and logging out hands it back. This module follows each key through the phases
of its life: an activity holds it while the login is under way (`held`), a connection table takes
it over (`bound`), and from the first logout on it is `leaving` for good. A record of the center
whose key is held past the center's admission, or bound, cannot go away: only a logout of the same
key deletes it, and such a logout exists for `leaving` keys only.

The one thing that can go wrong is a login that stores its record while a logout of the same uid
is suspended (`StoresAfterLogouts` excludes it): that logout then deletes the record of another
session.
-/

namespace RillServer.Cluster

open Coroutine

/-- The life of a key. -/
inductive Phase where
  | unborn
  | held (id : Nat)
  | bound (c : Ref)
  | leaving
  deriving DecidableEq

abbrev Phases := Key → Phase

/-- The center has a record with this key under this uid. -/
def HasRecord (users : Center.Users) (uid : Uid) (key : Key) : Prop :=
  ∃ user, users uid = some user ∧ user.key = key

section Claims

variable (s : Shared) (phase : Phases) (id : Nat)

/-- What a request in flight knows about its key. -/
def ReqKey : Req → Prop
  | .center (.logout _ key) => phase key = .leaving
  | .gate _ (.register data) =>
      phase data.key = .held id ∧ HasRecord s.users data.uid data.key
  | _ => True

/-- What a suspended coroutine knows about its key. -/
def PcKey : Pc → Prop
  | .login (.auth a) | .login (.centerLogin a _) => phase a.key = .held id
  | .login (.poolGet a uid) | .login (.agentStart a uid _) | .login (.centerRegister a uid _) =>
      phase a.key = .held id ∧ HasRecord s.users uid a.key
  | .login (.centerRefused a _) => phase a.key = .leaving
  | .center (.logoutKick _ key) => phase key = .leaving
  | .gate (.clearLogout _ data) | .gate (.clearRecycle _ data) => phase data.key = .leaving
  | _ => True

/-- What the coroutine that an answer is for learns from it: a login the center admitted has its
record, and a login the gate refused has been logged out. -/
def RetKey (v : Val) : List Pc → Prop
  | .login (.centerLogin a uid) :: _ => v.truthy = true → HasRecord s.users uid a.key
  | .login (.gateRegister a _ _) :: _ => v.truthy = false → phase a.key = .leaving
  | _ => True

def ActKey : Act → Prop
  | .calling r st => ReqKey s phase id r ∧ ∀ pc ∈ st, PcKey s phase id pc
  | .returning v st => RetKey s phase v st ∧ ∀ pc ∈ st, PcKey s phase id pc

end Claims

/-- What the others may rely on when activity `id` takes a step: keys they hold stay held, keys
that are leaving stay so, and records whose key is not leaving stay. -/
structure Evolves (id : Nat) (s : Shared) (phase : Phases) (s' : Shared) (phase' : Phases) :
    Prop where
  leaving : ∀ k, phase k = .leaving → phase' k = .leaving
  held : ∀ k i, i ≠ id → phase k = .held i → phase' k = .held i
  records : ∀ uid k, phase k ≠ .leaving → HasRecord s.users uid k → HasRecord s'.users uid k

section Rely

variable {id i : Nat} {s s' : Shared} {phase phase' : Phases}

theorem PcKey.evolve (ev : Evolves id s phase s' phase')
    (own : ∀ k, phase k = .held i → phase' k = .held i) {pc : Pc}
    (ok : PcKey s phase i pc) : PcKey s' phase' i pc := by
  have keep : ∀ {k uid}, phase k = .held i ∧ HasRecord s.users uid k →
      phase' k = .held i ∧ HasRecord s'.users uid k := by
    intro k uid known
    exact ⟨own k known.1, ev.records uid k (by rw [known.1]; simp) known.2⟩
  cases pc with
  | login pc => cases pc <;> first | exact own _ ok | exact keep ok | exact ev.leaving _ ok | exact ok
  | center pc => cases pc <;> first | exact ev.leaving _ ok | exact ok
  | gate pc => cases pc <;> first | exact ev.leaving _ ok | exact ok
  | pool pc => exact ok
  | agent pc => exact ok

/-- Activities that do not move keep what they know. -/
theorem ActKey.evolve (ev : Evolves id s phase s' phase') (other : i ≠ id) {a : Act}
    (ok : ActKey s phase i a) : ActKey s' phase' i a := by
  have own : ∀ k, phase k = .held i → phase' k = .held i := fun k => ev.held k i other
  cases a with
  | calling r st =>
      obtain ⟨req, pcs⟩ := ok
      refine ⟨?_, fun pc member => (pcs pc member).evolve ev own⟩
      cases r with
      | center r => cases r <;> first | exact ev.leaving _ req | exact req
      | gate g r =>
          cases r with
          | register data => exact ⟨own _ req.1, ev.records _ _ (by rw [req.1]; simp) req.2⟩
          | closeAgent fd => exact req
      | login | pool | agent | outside => exact req
  | returning v st =>
      obtain ⟨ret, pcs⟩ := ok
      refine ⟨?_, fun pc member => (pcs pc member).evolve ev own⟩
      match st with
      | [] => exact ret
      | .login (.centerLogin a uid) :: _ =>
          intro truth
          have hold : phase a.key = .held i := pcs _ List.mem_cons_self
          exact ev.records _ _ (by rw [hold]; simp) (ret truth)
      | .login (.gateRegister a uid x) :: _ => exact fun falsy => ev.leaving _ (ret falsy)
      | .login (.auth _) :: _ | .login (.poolGet _ _) :: _ | .login (.agentStart _ _ _) :: _
      | .login (.centerRegister _ _ _) :: _ | .login (.watch _ _) :: _
      | .login (.loadFailed _ _) :: _ | .login (.centerRefused _ _) :: _
      | .login (.centerFailed _ _) :: _ | .login (.gateFailed _ _) :: _
      | .center _ :: _ | .gate _ :: _ | .pool _ :: _ | .agent _ :: _ => exact True.intro

end Rely

/-- The record that the next segment of an activity stores, when that segment is one of the
center's `login` that stores a record. -/
def storing (users : Center.Users) : Act → Option (Uid × User)
  | .calling (.center (.login uid data)) _ =>
      if (users uid).isNone then some (uid, data) else none
  | .returning ret (.center (.loginKick uid data) :: _) =>
      if ret.truthy ∧ (users uid).isNone then some (uid, data) else none
  | _ => none

/-- No login stores a record under a uid while a logout of that uid with another key is suspended
in its call to the agent. -/
def StoresAfterLogouts (w : World) : Event Ora Env → Prop
  | .run id _ => ∀ a uid data key, w.acts id = some a →
      storing w.shared.users a = some (uid, data) →
      w.Suspended (.center (.logoutKick uid key)) → data.key = key
  | .arrive _ _ => True

/-- The uid and key of a logout that waits for the agent. -/
def Pc.logsOut : Pc → Option (Uid × Key)
  | .center (.logoutKick uid key) => some (uid, key)
  | _ => none

def Waiting (w : World) (uid : Uid) (key : Key) : Prop :=
  w.Suspended (.center (.logoutKick uid key))

/-- The invariant, with the phases of the keys as ghost state. -/
structure KeyInv (w : World) (phase : Phases) : Prop where
  born : ∀ k, w.shared.keySeq < k → phase k = .unborn
  acts : ∀ i a, w.acts i = some a → ActKey w.shared phase i a
  owned : Center.Owned (Waiting w) w.shared.users
  conns : ∀ c session, w.shared.gates.conn c = some session →
    phase session.key = .bound c ∨ phase session.key = .leaving
  opens : ∀ sock c session, w.shared.gates.connection sock = some c →
    w.shared.gates.conn c = some session →
    (phase session.key = .bound c ∧ HasRecord w.shared.users session.uid session.key) ∨
      Closing w c

/-! ## Answers -/

section Answers

variable {s : Shared} {phase : Phases} {v : Val} {st : List Pc}

theorem RetKey.of_centerLogin {uid : Uid} {data : User}
    (chain : typing.Chain (.center (.login uid data)) st)
    (admitted : v.truthy = true → HasRecord s.users uid data.key) : RetKey s phase v st := by
  cases st with
  | nil => exact True.intro
  | cons pc st =>
      obtain ⟨a, rfl, rfl⟩ := awaits_centerLogin chain.1
      exact admitted

theorem RetKey.of_gateRegister {g : Addr} {data : RegisterData}
    (chain : typing.Chain (.gate g (.register data)) st)
    (refused : v.truthy = false → phase data.key = .leaving) : RetKey s phase v st := by
  cases st with
  | nil => exact True.intro
  | cons pc st =>
      obtain ⟨a, uid, x, rfl, rfl⟩ := awaits_gateRegister chain.1
      exact refused

/-- A login that registers with the gate has handed its key over. -/
theorem PcKey.of_gateRegister {id : Nat} {g : Addr} {data : RegisterData}
    (chain : typing.Chain (.gate g (.register data)) st) : ∀ pc ∈ st, PcKey s phase id pc := by
  cases st with
  | nil => simp
  | cons pc st =>
      obtain ⟨a, uid, x, rfl, -⟩ := awaits_gateRegister chain.1
      rw [chain_login chain.2]
      exact List.forall_mem_singleton.mpr True.intro

/-- Other answers say nothing about a key. -/
theorem RetKey.of_other {r : Req} (chain : typing.Chain r st)
    (notLogin : ∀ uid data, r ≠ .center (.login uid data))
    (notRegister : ∀ g data, r ≠ .gate g (.register data)) : RetKey s phase v st := by
  match st with
  | [] => exact True.intro
  | .login (.centerLogin a uid) :: _ => exact (notLogin _ _ chain.1).elim
  | .login (.gateRegister a uid x) :: _ => exact (notRegister _ _ chain.1).elim
  | .login (.auth _) :: _ | .login (.poolGet _ _) :: _ | .login (.agentStart _ _ _) :: _
  | .login (.centerRegister _ _ _) :: _ | .login (.watch _ _) :: _
  | .login (.loadFailed _ _) :: _ | .login (.centerRefused _ _) :: _
  | .login (.centerFailed _ _) :: _ | .login (.gateFailed _ _) :: _
  | .center _ :: _ | .gate _ :: _ | .pool _ :: _ | .agent _ :: _ => exact True.intro

end Answers

/-! ## Records -/

/-- The first segment of a center command removes a record only as the logout of its key. -/
theorem HasRecord.served {users users' : Center.Users} {r : CenterReq} {out : Center.Out}
    (served : Center.Served users r users' out) {uid : Uid} {k : Key}
    (has : HasRecord users uid k) : HasRecord users' uid k ∨ r = .logout uid k := by
  obtain ⟨user, stored, rfl⟩ := has
  cases served with
  | @stored uid' data free =>
      have other : uid ≠ uid' := by
        intro same
        rw [same, free] at stored
        cases stored
      exact .inl ⟨user, by rw [Function.update_of_ne other]; exact stored, rfl⟩
  | @marked uid' x user' found unset =>
      by_cases here : uid = uid'
      · subst here
        rw [stored] at found
        cases found
        exact .inl ⟨_, Function.update_self .., rfl⟩
      · exact .inl ⟨user, by rw [Function.update_of_ne here]; exact stored, rfl⟩
  | @dropped uid' user' found unset =>
      by_cases here : uid = uid'
      · subst here
        rw [stored] at found
        cases found
        exact .inr rfl
      · exact .inl ⟨user, by rw [Function.update_of_ne here]; exact stored, rfl⟩
  | kicking | refused | unmarked | leaving | absent | foreign | watched =>
      exact .inl ⟨user, stored, rfl⟩

/-- A later segment removes a record only as a logout of its uid. -/
theorem HasRecord.resumed {users users' : Center.Users} {pc : Center.Pc} {v : Val}
    {out : Center.Out} (resumed : Center.Resumed users pc v users' out) {uid : Uid} {k : Key}
    (has : HasRecord users uid k) :
    HasRecord users' uid k ∨ ∃ key, pc = .logoutKick uid key := by
  obtain ⟨user, stored, rfl⟩ := has
  cases resumed with
  | @stored uid' data _ truth free =>
      have other : uid ≠ uid' := by
        intro same
        rw [same, free] at stored
        cases stored
      exact .inl ⟨user, by rw [Function.update_of_ne other]; exact stored, rfl⟩
  | @dropped uid' key _ truth =>
      by_cases here : uid = uid'
      · exact .inr ⟨key, by rw [here]⟩
      · exact .inl ⟨user, by rw [Function.update_of_ne here]; exact stored, rfl⟩
  | failed _ => exact .inl ⟨user, stored, rfl⟩

/-! ## One segment -/

section Evolution

variable {id : Nat} {s s' : Shared} {phase : Phases} {k : Key} {p : Phase}

theorem Evolves.refl (users : s'.users = s.users) : Evolves id s phase s' phase where
  leaving _ left := left
  held _ _ _ hold := hold
  records _ _ _ has := by rw [users]; exact has

/-- An activity may move on a key that no other activity holds, but not bring it back. -/
theorem Evolves.of_move (others : ∀ i, i ≠ id → phase k ≠ .held i)
    (forward : phase k = .leaving → p = .leaving) (users : s'.users = s.users) :
    Evolves id s phase s' (Function.update phase k p) where
  leaving k' left := by
    by_cases here : k' = k
    · subst here
      rw [Function.update_self]
      exact forward left
    · rw [Function.update_of_ne here]
      exact left
  held k' i other hold := by
    by_cases here : k' = k
    · subst here
      exact (others i other hold).elim
    · rw [Function.update_of_ne here]
      exact hold
  records _ _ _ has := by rw [users]; exact has

end Evolution

section Segment

variable {w : World} {phase phase' : Phases} {id : Nat} {o : Ora} {s' : Shared} {a a' : Act}

/-- A `close_agent` that was under way still is, unless this segment resumed it. -/
theorem Closing.after_advance (found : w.acts id = some a)
    (adv : code.advance o w.shared a = some (s', a')) {c : Ref} (closing : Closing w c) :
    (∃ v pc st g fd, a = .returning v (pc :: st) ∧ pc.closes = some (g, fd, c)) ∨
      Closing ⟨s', Function.update w.acts id (some a')⟩ c := by
  obtain ⟨pc, g, fd, susp, closes⟩ := closing
  rcases susp.after_advance found adv with ⟨v, st, resumed⟩ | still
  · exact .inl ⟨v, pc, st, g, fd, resumed, closes⟩
  · exact .inr ⟨pc, g, fd, still, closes⟩

/-- The first segment of a request resumes no `close_agent`. -/
theorem Closing.after_call {r : Req} {st : List Pc} {c : Ref} (closing : Closing w c)
    (found : w.acts id = some (.calling r st))
    (adv : code.advance o w.shared (.calling r st) = some (s', a')) :
    Closing ⟨s', Function.update w.acts id (some a')⟩ c := by
  rcases closing.after_advance found adv with ⟨v, pc, st', g, fd, resumed, -⟩ | still
  · cases resumed
  · exact still

/-- A segment that suspends no logout and changes no record keeps the suspended logouts with their
own records. -/
theorem KeyInv.owned_of_quiet (inv : KeyInv w phase) (found : w.acts id = some a)
    (adv : code.advance o w.shared a = some (s', a')) (users : s'.users = w.shared.users)
    (silent : a'.stopped.bind Pc.logsOut = none) :
    Center.Owned (Waiting ⟨s', Function.update w.acts id (some a')⟩) s'.users := by
  rw [users]
  refine inv.owned.of_sub ?_ fun _ user stored => ⟨user, stored, rfl⟩
  intro uid key waits
  rcases World.Suspended.of_advance found adv waits with ⟨q, st, stopped⟩ | earlier
  · rw [stopped] at silent
    cases silent
  · exact earlier

/-- A segment that leaves the gates alone and resumes no `close_agent`. -/
theorem KeyInv.of_quiet (inv : KeyInv w phase) (found : w.acts id = some a)
    (adv : code.advance o w.shared a = some (s', a')) (gates : s'.gates = w.shared.gates)
    (resumes : a.resumed.bind Pc.closes = none)
    (born : ∀ k, s'.keySeq < k → phase' k = .unborn)
    (bound : ∀ k c, phase k = .bound c → phase' k = .bound c)
    (ev : Evolves id w.shared phase s' phase')
    (owned : Center.Owned (Waiting ⟨s', Function.update w.acts id (some a')⟩) s'.users)
    (mine : ActKey s' phase' id a') :
    KeyInv ⟨s', Function.update w.acts id (some a')⟩ phase' where
  born := born
  acts := Code.acts_of_run inv.acts (fun _ _ other ok => ok.evolve ev other) mine
  owned := owned
  conns c session stored := by
    rw [show (⟨s', _⟩ : World).shared.gates = w.shared.gates from gates] at stored
    rcases inv.conns c session stored with kept | left
    · exact .inl (bound _ _ kept)
    · exact .inr (ev.leaving _ left)
  opens sock c session opened stored := by
    rw [show (⟨s', _⟩ : World).shared.gates = w.shared.gates from gates] at opened stored
    rcases inv.opens sock c session opened stored with ⟨kept, has⟩ | closing
    · exact .inl ⟨bound _ _ kept, ev.records _ _ (by rw [kept]; simp) has⟩
    · rcases closing.after_advance found adv with ⟨v, pc, st, g, fd, rfl, closes⟩ | still
      · rw [show pc.closes = none from resumes] at closes
        cases closes
      · exact .inr still

/-- The part of the shared state that `KeyInv` is about. -/
def keyState (s : Shared) : Key × Center.Users × Gates := (s.keySeq, s.users, s.gates)

/-- A segment that changes neither records, gates nor keys. -/
theorem KeyInv.of_same (inv : KeyInv w phase) (found : w.acts id = some a)
    (adv : code.advance o w.shared a = some (s', a')) (same : keyState s' = keyState w.shared)
    (resumes : a.resumed.bind Pc.closes = none) (silent : a'.stopped.bind Pc.logsOut = none)
    (mine : ActKey w.shared phase id a') :
    KeyInv ⟨s', Function.update w.acts id (some a')⟩ phase := by
  simp only [keyState, Prod.mk.injEq] at same
  obtain ⟨keySeq, users, gates⟩ := same
  have ev : ∀ i, Evolves i w.shared phase s' phase := fun _ => .refl users
  refine inv.of_quiet found adv gates resumes ?_ (fun _ _ kept => kept) (ev id)
    (inv.owned_of_quiet found adv users silent)
    (mine.evolve (ev (id + 1)) (Nat.ne_of_lt (Nat.lt_succ_self id)))
  intro k later
  rw [keySeq] at later
  exact inv.born k later

theorem update_of_held {k k' : Key} {p p' : Phase} (hold : phase k = .held id)
    (before : phase k' = p) (ne : p ≠ .held id) : Function.update phase k p' k' = p := by
  rw [Function.update_of_ne ?_]
  · exact before
  · intro here
    rw [here, hold] at before
    exact ne before.symm

/-- A segment that only moves on a key its activity holds. -/
theorem KeyInv.of_release (inv : KeyInv w phase) (found : w.acts id = some a)
    (adv : code.advance o w.shared a = some (s', a')) (same : s' = w.shared)
    (resumes : a.resumed.bind Pc.closes = none)
    (silent : a'.stopped.bind Pc.logsOut = none) {k : Key}
    (hold : phase k = .held id)
    (mine : ActKey w.shared (Function.update phase k .leaving) id a') :
    KeyInv ⟨s', Function.update w.acts id (some a')⟩ (Function.update phase k .leaving) := by
  subst same
  refine inv.of_quiet found adv rfl resumes ?_ ?_ (.of_move ?_ (fun _ => rfl) rfl)
    (inv.owned_of_quiet found adv rfl silent) mine
  · intro k' later
    exact update_of_held hold (inv.born k' later) Phase.noConfusion
  · intro k' c kept
    exact update_of_held hold kept Phase.noConfusion
  · intro i ne held
    rw [hold] at held
    cases held
    exact ne rfl

/-- `forward.login` draws a key nobody has seen. -/
theorem KeyInv.login (inv : KeyInv w phase) {fd : Fd} {msg : LoginMsg} {source : Addr}
    {st : List Pc} (found : w.acts id = some (.calling (.login fd msg source) st))
    (chain : typing.Chain (.login fd msg source) st)
    (adv : code.advance o w.shared (.calling (.login fd msg source) st) =
      some ({ w.shared with keySeq := w.shared.keySeq + 1 }, .calling
        (.outside (.loginAuth msg.sdkid msg))
        (.login (.auth ⟨fd, msg, source, w.shared.keySeq + 1⟩) :: st))) :
    ∃ phase', KeyInv ⟨{ w.shared with keySeq := w.shared.keySeq + 1 },
      Function.update w.acts id (some (.calling (.outside (.loginAuth msg.sdkid msg))
        (.login (.auth ⟨fd, msg, source, w.shared.keySeq + 1⟩) :: st)))⟩ phase' := by
  have unborn : phase (w.shared.keySeq + 1) = .unborn := inv.born _ (Nat.lt_succ_self _)
  cases chain_login chain
  refine ⟨Function.update phase (w.shared.keySeq + 1) (.held id), ?_⟩
  refine inv.of_quiet found adv rfl rfl ?_ ?_ (.of_move ?_ ?_ rfl)
    (inv.owned_of_quiet found adv rfl rfl) ?_
  · intro k later
    have later : w.shared.keySeq + 1 < k := later
    rw [Function.update_of_ne (Nat.ne_of_gt later)]
    exact inv.born k (Nat.lt_of_succ_lt later)
  · intro k c kept
    rw [Function.update_of_ne ?_]
    · exact kept
    · intro here
      rw [here, unborn] at kept
      cases kept
  · intro i _ held
    rw [unborn] at held
    cases held
  · intro left
    rw [unborn] at left
    cases left
  · refine ⟨True.intro, fun pc member => ?_⟩
    cases List.mem_singleton.mp member
    exact Function.update_self ..

/-- The rest of `forward.login`: a login that gives up releases its key before it logs out. -/
theorem KeyInv.loginBack (inv : KeyInv w phase) {pc : Login.Pc} {v : Val} {out : Login.Out}
    {st : List Pc} (found : w.acts id = some (.returning v (.login pc :: st)))
    (ok : typing.Ok (.returning v (.login pc :: st))) (resumed : Login.Resumed pc v out)
    (adv : code.advance o w.shared (.returning v (.login pc :: st)) =
      some (w.shared, (out.mapPc .login).settle st)) :
    ∃ phase', KeyInv ⟨w.shared,
      Function.update w.acts id (some ((out.mapPc .login).settle st))⟩ phase' := by
  obtain ⟨q, -, -, chain⟩ := ok
  have empty : st = [] := by
    cases pc <;> exact chain_login chain
  subst empty
  obtain ⟨ret, pcs⟩ := inv.acts _ _ found
  have known := pcs _ List.mem_cons_self
  have silent : ((out.mapPc Pc.login).settle []).stopped.bind Pc.logsOut = none := by
    cases out <;> rfl
  have stay : ActKey w.shared phase id ((out.mapPc .login).settle []) →
      ∃ phase', KeyInv ⟨w.shared,
        Function.update w.acts id (some ((out.mapPc .login).settle []))⟩ phase' :=
    fun mine => ⟨phase, inv.of_same found adv rfl rfl silent mine⟩
  have release : ∀ k, phase k = .held id →
      ActKey w.shared (Function.update phase k .leaving) id ((out.mapPc .login).settle []) →
      ∃ phase', KeyInv ⟨w.shared,
        Function.update w.acts id (some ((out.mapPc .login).settle []))⟩ phase' :=
    fun k hold mine => ⟨_, inv.of_release found adv rfl rfl silent hold mine⟩
  cases resumed with
  | failed | noAgent | ended => exact stay ⟨True.intro, by simp⟩
  | authed => exact stay ⟨True.intro, List.forall_mem_singleton.mpr known⟩
  | admitted truth =>
      exact stay ⟨True.intro, List.forall_mem_singleton.mpr ⟨known, ret truth⟩⟩
  | got => exact stay ⟨True.intro, List.forall_mem_singleton.mpr known⟩
  | started _ => exact stay ⟨True.intro, List.forall_mem_singleton.mpr known⟩
  | notStarted _ =>
      refine release _ known.1 ⟨Function.update_self .., ?_⟩
      simp [PcKey]
  | registered _ => exact stay ⟨known, by simp [PcKey]⟩
  | unregistered _ =>
      refine release _ known.1 ⟨True.intro, ?_⟩
      simp [PcKey]
  | bound _ => exact stay ⟨True.intro, by simp [PcKey]⟩
  | unbound falsy => exact stay ⟨ret falsy, by simp [PcKey]⟩
  | recycled => exact stay ⟨known, by simp [PcKey]⟩

/-- The first segment of a center command. -/
theorem KeyInv.center (inv : KeyInv w phase) {r : CenterReq} {users : Center.Users}
    {out : Center.Out} {st : List Pc} (found : w.acts id = some (.calling (.center r) st))
    (good : StoresAfterLogouts w (.run id o)) (chain : typing.Chain (.center r) st)
    (served : Center.Served w.shared.users r users out)
    (adv : code.advance o w.shared (.calling (.center r) st) =
      some ({ w.shared with users }, (out.mapPc .center).settle st)) :
    KeyInv ⟨{ w.shared with users },
      Function.update w.acts id (some ((out.mapPc .center).settle st))⟩ phase := by
  obtain ⟨req, pcs⟩ := inv.acts _ _ found
  have ev : Evolves id w.shared phase { w.shared with users } phase := {
    leaving := fun _ left => left
    held := fun _ _ _ hold => hold
    records := fun uid k staying has => by
      rcases has.served served with kept | rfl
      · exact kept
      · exact (staying req).elim }
  have pcs : ∀ pc ∈ st, PcKey { w.shared with users } phase id pc :=
    fun pc member => (pcs pc member).evolve ev fun _ hold => hold
  refine inv.of_quiet found adv rfl rfl inv.born (fun _ _ kept => kept) ev ?_ ?_
  · refine inv.owned.served served ?_ ?_
    · rintro uid data key rfl free waits
      exact good _ uid data key found (by simp [storing, free]) waits
    · intro uid key waits
      rcases World.Suspended.of_advance found adv waits with ⟨q, st', stopped⟩ | earlier
      · cases out with
        | call q' pc =>
            cases stopped
            exact .inl ⟨_, rfl⟩
        | ret v => cases stopped
      · exact .inr earlier
  · cases served with
    | stored _ => exact ⟨.of_centerLogin chain fun _ => ⟨_, Function.update_self .., rfl⟩, pcs⟩
    | kicking _ => exact ⟨True.intro, List.forall_mem_cons.mpr ⟨True.intro, pcs⟩⟩
    | refused _ => exact ⟨.of_centerLogin chain (by simp [Val.truthy]), pcs⟩
    | leaving _ _ => exact ⟨True.intro, List.forall_mem_cons.mpr ⟨req, pcs⟩⟩
    | marked | unmarked | dropped | absent | foreign | watched =>
        exact ⟨.of_other chain (by simp) (by simp), pcs⟩

/-- The later segment of a center command. A logout that deletes finds its own record. -/
theorem KeyInv.centerBack (inv : KeyInv w phase) {pc : Center.Pc} {v : Val}
    {users : Center.Users} {out : Center.Out} {st : List Pc}
    (found : w.acts id = some (.returning v (.center pc :: st)))
    (good : StoresAfterLogouts w (.run id o)) (ok : typing.Ok (.returning v (.center pc :: st)))
    (resumed : Center.Resumed w.shared.users pc v users out)
    (adv : code.advance o w.shared (.returning v (.center pc :: st)) =
      some ({ w.shared with users }, (out.mapPc .center).settle st)) :
    KeyInv ⟨{ w.shared with users },
      Function.update w.acts id (some ((out.mapPc .center).settle st))⟩ phase := by
  obtain ⟨q, -, -, chain⟩ := ok
  obtain ⟨-, pcs⟩ := inv.acts _ _ found
  have known := pcs _ List.mem_cons_self
  have ev : Evolves id w.shared phase { w.shared with users } phase := {
    leaving := fun _ left => left
    held := fun _ _ _ hold => hold
    records := fun uid k staying has => by
      rcases has.resumed resumed with kept | ⟨key, rfl⟩
      · exact kept
      · obtain ⟨user, stored, rfl⟩ := has
        have same := inv.owned uid key ⟨id, _, found, List.mem_cons_self⟩ user stored
        rw [same] at staying
        exact (staying known).elim }
  have below : ∀ pc ∈ st, PcKey { w.shared with users } phase id pc :=
    fun pc member => (pcs pc (List.mem_cons_of_mem _ member)).evolve ev fun _ hold => hold
  refine inv.of_quiet found adv rfl rfl inv.born (fun _ _ kept => kept)
    ev ?_ ?_
  · refine inv.owned.resumed resumed ?_ ?_
    · rintro uid data key rfl truth free waits
      exact good _ uid data key found (by simp [storing, truth, free]) waits
    · intro uid key waits
      rcases World.Suspended.of_advance found adv waits with ⟨q', st', stopped⟩ | earlier
      · cases resumed <;> cases stopped
      · exact earlier
  · cases resumed with
    | stored _ _ => exact ⟨.of_centerLogin chain fun _ => ⟨_, Function.update_self .., rfl⟩, below⟩
    | dropped _ =>
        exact ⟨.of_other chain (by simp [typing, Pc.serves]) (by simp [typing, Pc.serves]), below⟩
    | failed value =>
        cases pc with
        | loginKick uid data =>
            refine ⟨.of_centerLogin chain ?_, below⟩
            rcases value with rfl | rfl <;> simp [Val.truthy]
        | logoutKick uid key =>
            exact ⟨.of_other chain (by simp [typing, Pc.serves]) (by simp [typing, Pc.serves]), below⟩

/-- The gate's table takes the key over from the login. -/
theorem KeyInv.gateBinds (inv : KeyInv w phase) {g : Addr} {data : RegisterData} {c : Ref}
    {gates : Gates} {st : List Pc}
    (found : w.acts id = some (.calling (.gate g (.register data)) st))
    (chain : typing.Chain (.gate g (.register data)) st)
    (bound : gates = { w.shared.gates with
      conn := Function.update w.shared.gates.conn c (some ⟨data.uid, data.key, some data.agent⟩) })
    (adv : code.advance o w.shared (.calling (.gate g (.register data)) st) =
      some ({ w.shared with gates }, .returning (.bool true) st)) :
    KeyInv ⟨{ w.shared with gates }, Function.update w.acts id (some (.returning (.bool true) st))⟩
      (Function.update phase data.key (.bound c)) := by
  subst bound
  obtain ⟨⟨hold, has⟩, -⟩ := inv.acts _ _ found
  have ev : Evolves id w.shared phase { w.shared with gates := _ }
      (Function.update phase data.key (.bound c)) :=
    .of_move (fun i ne held => ne (Phase.held.inj (held.symm.trans hold)))
      (fun left => by rw [hold] at left; cases left) rfl
  refine {
    born := fun k later => update_of_held hold (inv.born k later) Phase.noConfusion
    acts := Code.acts_of_run inv.acts (fun _ _ other ok => ok.evolve ev other)
      ⟨.of_gateRegister chain (by simp [Val.truthy]), PcKey.of_gateRegister chain⟩
    owned := inv.owned_of_quiet found adv rfl rfl
    conns := ?_
    opens := ?_ }
  · intro c' session stored
    rcases update_eq_some stored with ⟨rfl, new⟩ | ⟨-, earlier⟩
    · cases new
      exact .inl (Function.update_self ..)
    · rcases inv.conns c' session earlier with kept | left
      · exact .inl (update_of_held hold kept Phase.noConfusion)
      · exact .inr (update_of_held hold left Phase.noConfusion)
  · intro sock c' session opened stored
    rcases update_eq_some stored with ⟨rfl, new⟩ | ⟨-, earlier⟩
    · cases new
      exact .inl ⟨Function.update_self .., has⟩
    · rcases inv.opens sock c' session opened earlier with ⟨kept, has'⟩ | closing
      · exact .inl ⟨update_of_held hold kept Phase.noConfusion, has'⟩
      · exact .inr (closing.after_call found adv)

/-- A socket without a session is forgotten. -/
theorem KeyInv.gateForgets (inv : KeyInv w phase) {g : Addr} {fd : Fd} {st : List Pc}
    (found : w.acts id = some (.calling (.gate g (.closeAgent fd)) st))
    (chain : typing.Chain (.gate g (.closeAgent fd)) st)
    (adv : code.advance o w.shared (.calling (.gate g (.closeAgent fd)) st) =
      some ({ w.shared with gates := Gate.forget w.shared.gates g fd },
        .returning (.bool true) st)) :
    KeyInv ⟨{ w.shared with gates := Gate.forget w.shared.gates g fd },
      Function.update w.acts id (some (.returning (.bool true) st))⟩ phase := by
  obtain ⟨-, pcs⟩ := inv.acts _ _ found
  refine {
    born := inv.born
    acts := Code.acts_of_run inv.acts (fun _ _ other ok => ok.evolve (.refl rfl) other)
      ⟨.of_other chain (by simp) (by simp), pcs⟩
    owned := inv.owned_of_quiet found adv rfl rfl
    conns := inv.conns
    opens := ?_ }
  intro sock c session opened stored
  have before := (Gate.connection_of_forget opened).2
  rcases inv.opens sock c session before stored with kept | closing
  · exact .inl kept
  · exact .inr (closing.after_call found adv)

/-- `close_agent` starts to log the session of a socket out. -/
theorem KeyInv.gateCloses (inv : KeyInv w phase) {g : Addr} {fd : Fd} {c : Ref} {session : Session}
    {st : List Pc} (found : w.acts id = some (.calling (.gate g (.closeAgent fd)) st))
    (stored : w.shared.gates.conn c = some session)
    (adv : code.advance o w.shared (.calling (.gate g (.closeAgent fd)) st) =
      some (w.shared, .calling (.center (.logout session.uid session.key))
        (.gate (.closeLogout g fd c) :: st))) :
    KeyInv ⟨w.shared, Function.update w.acts id
      (some (.calling (.center (.logout session.uid session.key))
        (.gate (.closeLogout g fd c) :: st)))⟩
      (Function.update phase session.key .leaving) := by
  obtain ⟨-, pcs⟩ := inv.acts _ _ found
  have mine := inv.conns c session stored
  have notHeld : ∀ i, phase session.key ≠ .held i := by
    intro i held
    rcases mine with kept | left
    · rw [held] at kept
      cases kept
    · rw [held] at left
      cases left
  have ev : Evolves id w.shared phase w.shared (Function.update phase session.key .leaving) :=
    .of_move (fun i _ => notHeld i) (fun _ => rfl) rfl
  have bound : ∀ {k c'}, phase k = .bound c' →
      Function.update phase session.key .leaving k = .bound c' ∨ c' = c := by
    intro k c' kept
    by_cases here : k = session.key
    · subst here
      rcases mine with other | left
      · rw [kept] at other
        exact .inr (Phase.bound.inj other)
      · rw [kept] at left
        cases left
    · exact .inl (by rw [Function.update_of_ne here]; exact kept)
  refine {
    born := ?_
    acts := Code.acts_of_run inv.acts (fun _ _ other ok => ok.evolve ev other)
      ⟨Function.update_self .., List.forall_mem_cons.mpr ⟨True.intro, ?_⟩⟩
    owned := inv.owned_of_quiet found adv rfl rfl
    conns := ?_
    opens := ?_ }
  · intro k later
    have unborn := inv.born k later
    rw [Function.update_of_ne ?_]
    · exact unborn
    · rintro rfl
      rcases mine with kept | left
      · rw [unborn] at kept
        cases kept
      · rw [unborn] at left
        cases left
  · refine fun pc member => (pcs pc member).evolve ev fun k hold => ?_
    rw [Function.update_of_ne ?_]
    · exact hold
    · rintro rfl
      exact notHeld id hold
  · intro c' session' stored'
    rcases inv.conns c' session' stored' with kept | left
    · rcases bound kept with kept' | rfl
      · exact .inl kept'
      · rw [stored] at stored'
        cases stored'
        exact .inr (Function.update_self ..)
    · exact .inr (ev.leaving _ left)
  · intro sock c' session' opened' stored'
    rcases inv.opens sock c' session' opened' stored' with ⟨kept, has⟩ | closing
    · rcases bound kept with kept' | rfl
      · exact .inl ⟨kept', has⟩
      · exact .inr ⟨.gate (.closeLogout g fd c'), g, fd,
          ⟨id, _, Function.update_self .., List.mem_cons_self⟩, rfl⟩
    · exact .inr (closing.after_call found adv)

/-- The first segment of a gate request. -/
theorem KeyInv.gate (inv : KeyInv w phase) {g : Addr} {r : GateReq} {gates : Gates}
    {out : Gate.Out} {st : List Pc} (found : w.acts id = some (.calling (.gate g r) st))
    (chain : typing.Chain (.gate g r) st) (served : Gate.Served w.shared.gates g r gates out)
    (adv : code.advance o w.shared (.calling (.gate g r) st) =
      some ({ w.shared with gates }, (out.mapPc .gate).settle st)) :
    ∃ phase', KeyInv ⟨{ w.shared with gates },
      Function.update w.acts id (some ((out.mapPc .gate).settle st))⟩ phase' := by
  cases served with
  | bound opened => exact ⟨_, inv.gateBinds found chain rfl adv⟩
  | clearing _ =>
      -- the socket is gone, and the login's session goes with it
      obtain ⟨req, -⟩ := inv.acts _ _ found
      refine ⟨_, inv.of_release found adv rfl rfl rfl req.1
        ⟨Function.update_self .., List.forall_mem_cons.mpr ⟨Function.update_self .., ?_⟩⟩⟩
      exact PcKey.of_gateRegister chain
  | forgotten unbound => exact ⟨_, inv.gateForgets found chain adv⟩
  | closing opened stored => exact ⟨_, inv.gateCloses found stored adv⟩

/-- A later segment of `close_agent`: the table it works on stays inside `close_agent` or is not
open afterwards, and no other table is touched. -/
theorem KeyInv.of_close (inv : KeyInv w phase) {v : Val} {pc : Pc} {st : List Pc} {g : Addr}
    {fd : Fd} {c : Ref} (found : w.acts id = some (.returning v (pc :: st)))
    (closes : pc.closes = some (g, fd, c))
    (adv : code.advance o w.shared (.returning v (pc :: st)) = some (s', a'))
    (keySeq : s'.keySeq = w.shared.keySeq) (users : s'.users = w.shared.users)
    (conns : ∀ c' session', s'.gates.conn c' = some session' →
      ∃ session, w.shared.gates.conn c' = some session ∧ session.key = session'.key)
    (opens : ∀ sock c' session, s'.gates.connection sock = some c' →
      s'.gates.conn c' = some session →
      (w.shared.gates.connection sock = some c' ∧ w.shared.gates.conn c' = some session ∧
        c' ≠ c) ∨ Closing ⟨s', Function.update w.acts id (some a')⟩ c')
    (silent : a'.stopped.bind Pc.logsOut = none)
    (mine : ActKey w.shared phase id a') :
    KeyInv ⟨s', Function.update w.acts id (some a')⟩ phase := by
  have ev : ∀ i, Evolves i w.shared phase s' phase := fun _ => .refl users
  exact {
    born := fun k later => inv.born k (by rw [← keySeq]; exact later)
    acts := Code.acts_of_run inv.acts (fun _ _ other ok => ok.evolve (ev id) other)
      (mine.evolve (ev (id + 1)) (Nat.ne_of_lt (Nat.lt_succ_self id)))
    owned := inv.owned_of_quiet found adv users silent
    conns := fun c' session' stored' => by
      obtain ⟨session, stored, same⟩ := conns c' session' stored'
      rw [← same]
      exact inv.conns c' session stored
    opens := fun sock c' session opened' stored' => by
      rcases opens sock c' session opened' stored' with ⟨opened, stored, other⟩ | closing
      · rcases inv.opens sock c' session opened stored with ⟨kept, has⟩ | closing
        · exact .inl ⟨kept, (ev id).records _ _ (by rw [kept]; simp) has⟩
        · rcases closing.after_advance found adv with ⟨v', pc', st', g', fd', same, here⟩ | still
          · cases same
            rw [closes] at here
            cases here
            exact (other rfl).elim
          · exact .inr still
      · exact .inr closing }

theorem KeyInv.gateBack (inv : KeyInv w phase) (tables : GateInv w) {pc : Gate.Pc} {v : Val}
    {gates : Gates} {out : Gate.Out} {st : List Pc}
    (found : w.acts id = some (.returning v (.gate pc :: st)))
    (ok : typing.Ok (.returning v (.gate pc :: st)))
    (resumed : Gate.Resumed w.shared.gates pc v gates out)
    (adv : code.advance o w.shared (.returning v (.gate pc :: st)) =
      some ({ w.shared with gates }, (out.mapPc .gate).settle st)) :
    KeyInv ⟨{ w.shared with gates },
      Function.update w.acts id (some ((out.mapPc .gate).settle st))⟩ phase := by
  obtain ⟨q, answered, waits, chain⟩ := ok
  obtain ⟨-, pcs⟩ := inv.acts _ _ found
  obtain ⟨known, below⟩ := List.forall_mem_cons.mp pcs
  have here : w.Suspended (.gate pc) := ⟨id, _, found, List.mem_cons_self⟩
  have silent : ((out.mapPc Pc.gate).settle st).stopped.bind Pc.logsOut = none := by
    cases out <;> rfl
  have refused : ∀ {g data v'}, pc = .clearLogout g data ∨ pc = .clearRecycle g data →
      ActKey w.shared phase id (.returning v' st) := by
    rintro g data v' (rfl | rfl) <;>
      exact ⟨.of_gateRegister chain fun _ => known, below⟩
  cases resumed with
  | failed =>
      cases pc with
      | closeLogout g fd c =>
          -- the center keeps its errors to itself
          obtain ⟨uid, key, rfl⟩ := waits
          exact (answered rfl).elim
      | closeRecycle g fd c x =>
          cases waits
          cases x with
          | some x => cases answered
          | none =>
              have dead := tables.dead here
              refine inv.of_close found rfl adv rfl rfl (fun _ session stored => ⟨session, stored, rfl⟩)
                (fun sock c' session opened stored => .inl ⟨opened, stored, ?_⟩) silent
                ⟨.of_other chain (by simp [typing, Pc.serves]) (by simp [typing, Pc.serves]), below⟩
              rintro rfl
              exact dead sock opened
      | clearLogout g data =>
          exact inv.of_same found adv rfl rfl silent (refused (.inl rfl))
      | clearRecycle g data =>
          exact inv.of_same found adv rfl rfl silent (refused (.inr rfl))
  | @recycling g fd c _ _ =>
      refine inv.of_close found rfl adv rfl rfl (fun _ session stored => ⟨session, stored, rfl⟩)
        (fun sock c' session opened stored => ?_) silent
        ⟨True.intro, List.forall_mem_cons.mpr ⟨True.intro, below⟩⟩
      by_cases same : c' = c
      · exact .inr ⟨_, g, fd, ⟨id, _, Function.update_self .., List.mem_cons_self⟩, by rw [same]; rfl⟩
      · exact .inl ⟨opened, stored, same⟩
  | @closed g fd c x _ _ =>
      have site := tables.site here rfl
      refine inv.of_close found rfl adv rfl rfl ?_ ?_ silent
        ⟨.of_other chain (by simp [typing, Pc.serves]) (by simp [typing, Pc.serves]), below⟩
      · intro c' session' stored'
        rcases Gate.conn_of_clearAgentField stored' with ⟨rfl, session, stored, rfl⟩ | ⟨-, stored⟩
        · exact ⟨session, stored, rfl⟩
        · exact ⟨session', stored, rfl⟩
      · intro sock c' session opened stored
        obtain ⟨elsewhere, before⟩ := Gate.connection_of_forget opened
        rcases Gate.conn_of_clearAgentField stored with ⟨rfl, -⟩ | ⟨other, kept⟩
        · exact (elsewhere (site.2 before)).elim
        · exact .inl ⟨before, kept, other⟩
  | clearing _ =>
      exact inv.of_same found adv rfl rfl silent
        ⟨True.intro, List.forall_mem_cons.mpr ⟨known, below⟩⟩
  | cleared _ =>
      exact inv.of_same found adv rfl rfl silent (refused (.inr rfl))

theorem KeyInv.advance (inv : KeyInv w phase) (tables : GateInv w)
    (linked : ∀ id a, w.acts id = some a → typing.Ok a) (good : StoresAfterLogouts w (.run id o))
    (found : w.acts id = some a) (adv : code.advance o w.shared a = some (s', a')) :
    ∃ phase', KeyInv ⟨s', Function.update w.acts id (some a')⟩ phase' := by
  have ok := linked id a found
  have mine := inv.acts id a found
  cases moved_of_advance adv with
  | login => exact inv.login found ok adv
  | center served => exact ⟨phase, inv.center found good ok served adv⟩
  | gate served => exact inv.gate found ok served adv
  | pool served =>
      refine ⟨phase, inv.of_same found adv rfl rfl
        (by cases served <;> rfl) ?_⟩
      cases served with
      | launching => exact ⟨True.intro, List.forall_mem_cons.mpr ⟨True.intro, mine.2⟩⟩
      | taken | missing | removed | returned =>
          exact ⟨.of_other ok (by simp) (by simp), mine.2⟩
  | agent served =>
      refine ⟨phase, inv.of_same found adv rfl rfl
        (by cases served <;> rfl) ?_⟩
      cases served with
      | started => exact ⟨True.intro, List.forall_mem_cons.mpr ⟨True.intro, mine.2⟩⟩
      | failed | kicked => exact ⟨.of_other ok (by simp) (by simp), mine.2⟩
  | outside answered =>
      have mine' : ∀ {v}, ActKey w.shared phase id (.returning v _) :=
        ⟨.of_other ok (by simp) (by simp), mine.2⟩
      cases answered <;> exact ⟨phase, inv.of_same found adv rfl rfl
        rfl mine'⟩
  | loginBack resumed => exact inv.loginBack found ok resumed adv
  | centerBack resumed => exact ⟨phase, inv.centerBack found good ok resumed adv⟩
  | gateBack resumed => exact ⟨phase, inv.gateBack tables found ok resumed adv⟩
  | poolBack _ =>
      obtain ⟨q, -, -, chain⟩ := ok
      exact ⟨phase, inv.of_same found adv rfl rfl
        rfl ⟨.of_other chain (by simp [typing, Pc.serves])
          (by simp [typing, Pc.serves]), (List.forall_mem_cons.mp mine.2).2⟩⟩
  | agentBack _ =>
      obtain ⟨q, -, -, chain⟩ := ok
      exact ⟨phase, inv.of_same found adv rfl rfl
        rfl ⟨.of_other chain (by simp [typing, Pc.serves])
          (by simp [typing, Pc.serves]), (List.forall_mem_cons.mp mine.2).2⟩⟩

/-- A new connection has no session. -/
theorem KeyInv.connect (inv : KeyInv w phase) {g : Addr} {fd : Fd} :
    KeyInv ⟨{ w.shared with gates := Gate.connect w.shared.gates g fd }, w.acts⟩ phase where
  born := inv.born
  acts i a found :=
    (inv.acts i a found).evolve (.refl rfl : Evolves (i + 1) w.shared phase _ phase)
      (Nat.ne_of_lt (Nat.lt_succ_self i))
  owned := inv.owned
  conns c session stored := by
    by_cases new : c = w.shared.gates.nextRef
    · subst new
      simp [Gate.connect] at stored
    · simp only [Gate.connect, Function.update_of_ne new] at stored
      exact inv.conns c session stored
  opens sock c session opened stored := by
    by_cases new : c = w.shared.gates.nextRef
    · subst new
      simp [Gate.connect] at stored
    · simp only [Gate.connect, Function.update_of_ne new] at stored
      by_cases here : sock = (g, fd)
      · subst here
        simp only [Gate.connect, Function.update_self, Option.some.injEq] at opened
        exact (new opened.symm).elim
      · simp only [Gate.connect, Function.update_of_ne here] at opened
        exact inv.opens sock c session opened stored

/-- A new activity holds no key yet. -/
theorem KeyInv.start (inv : KeyInv w phase) (fresh : w.acts id = none) {r : Req}
    (free : ∀ id, ReqKey w.shared phase id r) :
    KeyInv ⟨w.shared, Function.update w.acts id (some (.calling r []))⟩ phase where
  born := inv.born
  acts := Code.acts_of_run inv.acts (fun _ _ _ ok => ok) ⟨free id, by simp⟩
  owned := inv.owned.of_sub (fun _ _ waits => waits.of_begin) fun _ user stored =>
    ⟨user, stored, rfl⟩
  conns := inv.conns
  opens sock c session opened stored := by
    rcases inv.opens sock c session opened stored with kept | ⟨pc, g, fd, susp, closes⟩
    · exact .inl kept
    · exact .inr ⟨pc, g, fd, susp.after_begin fresh, closes⟩

end Segment

theorem KeyInv.step {w w' : World} {phase : Phases} {e : Event Ora Env} (inv : KeyInv w phase)
    (tables : GateInv w) (linked : ∀ id a, w.acts id = some a → typing.Ok a)
    (good : StoresAfterLogouts w e) (stepped : code.step w e = some w') :
    ∃ phase', KeyInv w' phase' := by
  rcases Code.step_cases stepped with ⟨id, o, a, s', a', rfl, found, adv, rfl⟩ |
    ⟨id, x, s', -, happened, rfl⟩ | ⟨id, x, s', r, -, fresh, happened, rfl⟩
  · exact inv.advance tables linked good found adv
  · rcases arrive_none happened with ⟨g, fd, -, -, rfl⟩ | ⟨g, fd, msg, -, rfl⟩
    · exact ⟨phase, inv.connect⟩
    · exact ⟨phase, inv⟩
  · obtain ⟨rfl, ⟨fd, msg, g, rfl⟩ | ⟨g, fd, rfl⟩⟩ := arrive_some happened
    · exact ⟨phase, inv.start fresh fun _ => True.intro⟩
    · exact ⟨phase, inv.start fresh fun _ => True.intro⟩

/-- In every world that a guarded run reaches, every key has a place in its life. -/
theorem keyInv_of_reach {maxnum recyremove : Nat} {w : World}
    (reached : code.Reach StoresAfterLogouts (init maxnum recyremove) w) :
    ∃ phase, KeyInv w phase := by
  induction reached with
  | refl =>
      exact ⟨fun _ => .unborn, {
        born := fun _ _ => rfl
        acts := fun _ _ found => by cases found
        owned := fun _ _ waits => (World.not_suspended (fun _ => rfl) _ waits).elim
        conns := fun _ _ stored => by cases stored
        opens := fun _ _ _ opened => by cases opened }⟩
  | tail before good stepped ih =>
      obtain ⟨phase, inv⟩ := ih
      exact inv.step (gateInv_of_reach before) (linked_of_reach before) good stepped

end RillServer.Cluster
