import RillServer.Session.Linked

/-!
# How a login attempt can end

`forward.login` by itself, with every outcome of the calls it makes: each may succeed, return
`false` or raise. What a call does to the center's records and to the pool is what the service
does when the call ends that way; the agent's answer to `kick` inside `dispatch.logout` decides
whether a logout deletes the record.

A login that fails after the center admitted it should leave no record and no agent behind. Its
clean-up is written out in three branches and an error skips all of them, so it does so for some
outcomes only (`leavesNoTrace_iff`).

An attempt begins where no record has a key that is still to be drawn (`Before`); every world the
session services reach is such a place (`beforeOf`).
-/

namespace RillServer.Login

open Coroutine

/-- How a call can end. -/
inductive Ending where
  | succeeds
  | refuses
  | raises
  deriving DecidableEq

def Ending.val : Ending → Val
  | .succeeds => .bool true
  | .refuses => .bool false
  | .raises => .raise

/-- The outcomes of the calls of one login attempt. -/
structure Outcomes where
  auth : Ending
  /-- the account that `login_auth` finds -/
  uid : Uid
  centerLogin : Ending
  poolGet : Ending
  /-- the agent that `CMD.get` hands out -/
  agent : Addr
  agentStart : Ending
  centerRegister : Ending
  gateRegister : Ending
  /-- the agent's `kick`, when the gate's `clearAgent` logs the session out -/
  gateKick : Ending
  /-- the agent's `kick`, when `forward.login` logs the session out -/
  loginKick : Ending
  deriving DecidableEq

/-- What one attempt does: the center's records, the agent it was handed and the agents that were
given back for it. -/
structure Effects where
  users : Center.Users
  fetched : Option Addr
  given : List Addr

/-- `dispatch.logout` from its first to its last segment, with the answer of the agent. -/
def centerLogout (kick : Ending) (users : Center.Users) (uid : Uid) (key : Key) :
    Center.Users × Val :=
  match Center.serve users (.logout uid key) with
  | (users, .ret v) => (users, v)
  | (users, .call _ pc) =>
      match Center.resume users pc kick.val with
      | (users, .ret v) => (users, v)
      | (users, .call _ _) => (users, .nil)

/-- What each call does and answers. -/
def answer (oc : Outcomes) (e : Effects) : Req → Effects × Val
  | .outside (.loginAuth _ _) =>
      match oc.auth with
      | .succeeds => (e, .authed oc.uid)
      | other => (e, other.val)
  | .center (.login uid data) =>
      match oc.centerLogin with
      | .succeeds => ({ e with users := Function.update e.users uid (some data) }, .bool true)
      | other => (e, other.val)
  | .pool .get =>
      match oc.poolGet with
      | .succeeds => ({ e with fetched := some oc.agent }, .addr oc.agent)
      | other => (e, other.val)
  | .agent _ (.start _) => (e, oc.agentStart.val)
  | .center (.register uid agent key) =>
      match oc.centerRegister with
      | .succeeds => ({ e with users := (Center.register e.users uid agent key).1 }, .bool true)
      | other => (e, other.val)
  | .gate _ (.register data) =>
      match oc.gateRegister with
      | .refuses =>
          -- `clearAgent`
          ({ e with
              users := (centerLogout oc.gateKick e.users data.uid data.key).1
              given := data.agent :: e.given }, .bool false)
      | other => (e, other.val)
  | .center (.logout uid key) =>
      let (users, v) := centerLogout oc.loginKick e.users uid key
      ({ e with users }, v)
  | .pool (.recycle (some agent)) => ({ e with given := agent :: e.given }, .nil)
  | .center .watch => (e, .watch)
  | _ => (e, .raise)

/-- Run `forward.login` to its end, at most `n` more calls away. -/
def drive (oc : Outcomes) : Nat → Effects → Out → Option (Effects × Val)
  | _, e, .ret v => some (e, v)
  | 0, _, .call _ _ => none
  | n + 1, e, .call r pc =>
      let (e, v) := answer oc e r
      drive oc n e (resume pc v)

/-- The login service and the center when an attempt begins: no record has a key that is still to
be drawn. -/
structure Before where
  keySeq : Key
  users : Center.Users
  issued : ∀ uid user, users uid = some user → user.key ≤ keySeq

/-- `forward.login` makes at most seven calls. -/
def forwardLogin (oc : Outcomes) (before : Before) (fd : Fd) (msg : LoginMsg) (source : Addr) :
    Option (Effects × Val) :=
  drive oc 7 ⟨before.users, none, []⟩ (serve before.keySeq fd msg source).2

/-- `forward.login` returned a message with result 0. -/
def completed : Val → Bool
  | .reply r => r.result.isNone
  | _ => false

/-- No record carries the attempt's key, the agent it was handed, if any, was given back once, and
a uid that was free can log in. -/
def TraceFree (before : Before) (e : Effects) : Prop :=
  (∀ uid user, e.users uid = some user → user.key ≠ before.keySeq + 1) ∧
    e.given = e.fetched.toList ∧
    ∀ uid data, before.users uid = none → (Center.login e.users uid data).2 = .ret (.bool true)

/-- `forward.login` ends, and leaves no trace unless it ends with result 0. -/
def LeavesNoTrace (oc : Outcomes) (before : Before) (fd : Fd) (msg : LoginMsg) (source : Addr) :
    Prop :=
  ∃ e v, forwardLogin oc before fd msg source = some (e, v) ∧
    (completed v = false → TraceFree before e)

/-- The attempt fails before the center admits it, or it gets its agent started and neither
registration raises; and if the gate refuses, the agent answers one of the two kicks. -/
def Cleans (oc : Outcomes) : Prop :=
  oc.auth ≠ .succeeds ∨ oc.centerLogin ≠ .succeeds ∨
    (oc.poolGet = .succeeds ∧ oc.agentStart = .succeeds ∧
      (oc.centerRegister = .refuses ∨
        oc.centerRegister = .succeeds ∧
          (oc.gateRegister = .succeeds ∨
            oc.gateRegister = .refuses ∧ (oc.gateKick = .succeeds ∨ oc.loginKick = .succeeds))))

/-! ## Where an attempt ends -/

section Attempts

variable (oc : Outcomes) (before : Before) (fd : Fd) (msg : LoginMsg) (source : Addr)

/-- The locals of the attempt. -/
def attempt : Attempt := ⟨fd, msg, source, before.keySeq + 1⟩

/-- The records while the attempt is admitted and has no agent registered. -/
def admittedUsers : Center.Users :=
  Function.update before.users oc.uid (some (attempt before fd msg source).user)

/-- The records once its agent is registered. -/
def registeredUsers : Center.Users :=
  Function.update before.users oc.uid
    (some { (attempt before fd msg source).user with agent := some oc.agent, logined := true })

/-- Every way in which an attempt ends. -/
inductive Ended : Effects → Val → Prop
  | early {v : Val} : oc.auth ≠ .succeeds ∨ oc.centerLogin ≠ .succeeds → completed v = false →
    Ended ⟨before.users, none, []⟩ v
  | noAgent : oc.auth = .succeeds → oc.centerLogin = .succeeds → oc.poolGet ≠ .succeeds →
    Ended ⟨admittedUsers oc before fd msg source, none, []⟩ .raise
  | startRaised : oc.auth = .succeeds → oc.centerLogin = .succeeds → oc.poolGet = .succeeds →
    oc.agentStart = .raises →
    Ended ⟨admittedUsers oc before fd msg source, some oc.agent, []⟩ .raise
  | notStarted {v : Val} : oc.auth = .succeeds → oc.centerLogin = .succeeds →
    oc.poolGet = .succeeds → oc.agentStart = .refuses → completed v = false →
    Ended ⟨Function.update before.users oc.uid none, some oc.agent, []⟩ v
  | registerRaised : oc.auth = .succeeds → oc.centerLogin = .succeeds → oc.poolGet = .succeeds →
    oc.agentStart = .succeeds → oc.centerRegister = .raises →
    Ended ⟨admittedUsers oc before fd msg source, some oc.agent, []⟩ .raise
  | unregistered {v : Val} : oc.auth = .succeeds → oc.centerLogin = .succeeds →
    oc.poolGet = .succeeds → oc.agentStart = .succeeds → oc.centerRegister = .refuses →
    completed v = false →
    Ended ⟨Function.update before.users oc.uid none, some oc.agent, [oc.agent]⟩ v
  | gateRaised : oc.auth = .succeeds → oc.centerLogin = .succeeds → oc.poolGet = .succeeds →
    oc.agentStart = .succeeds → oc.centerRegister = .succeeds → oc.gateRegister = .raises →
    Ended ⟨registeredUsers oc before fd msg source, some oc.agent, []⟩ .raise
  | unbound {v : Val} : oc.auth = .succeeds → oc.centerLogin = .succeeds →
    oc.poolGet = .succeeds → oc.agentStart = .succeeds → oc.centerRegister = .succeeds →
    oc.gateRegister = .refuses → completed v = false →
    Ended ⟨if oc.gateKick = .succeeds ∨ oc.loginKick = .succeeds then
        Function.update before.users oc.uid none
      else registeredUsers oc before fd msg source, some oc.agent, [oc.agent]⟩ v
  | done {e : Effects} {v : Val} : oc.auth = .succeeds → oc.centerLogin = .succeeds →
    oc.poolGet = .succeeds → oc.agentStart = .succeeds → oc.centerRegister = .succeeds →
    oc.gateRegister = .succeeds → completed v = true → Ended e v

variable {oc before fd msg source}

@[simp] theorem attempt_key : (attempt before fd msg source).key = before.keySeq + 1 := rfl

/-- Logging out an attempt without an agent deletes its record. -/
theorem centerLogout_admitted (kick : Ending) :
    centerLogout kick (admittedUsers oc before fd msg source) oc.uid (before.keySeq + 1) =
      (Function.update before.users oc.uid none, .bool true) := by
  simp [centerLogout, Center.serve, Center.logout, admittedUsers, Center.luaDispatch,
    Attempt.user, attempt]

/-- Logging out an attempt with an agent deletes its record if the agent answers. -/
theorem centerLogout_registered (kick : Ending) :
    centerLogout kick (registeredUsers oc before fd msg source) oc.uid (before.keySeq + 1) =
      match kick with
      | .succeeds => (Function.update before.users oc.uid none, .bool true)
      | .refuses => (registeredUsers oc before fd msg source, .bool false)
      | .raises => (registeredUsers oc before fd msg source, .nil) := by
  cases kick <;>
    simp [centerLogout, Center.serve, Center.logout, registeredUsers, Center.luaDispatch,
      Attempt.user, attempt, Center.resume, Center.logoutKicked, Ending.val, Val.truthy]

theorem centerLogout_gone (kick : Ending) (users : Center.Users) (uid : Uid) (key : Key) :
    centerLogout kick (Function.update users uid none) uid key =
      (Function.update users uid none, .bool true) := by
  simp [centerLogout, Center.serve, Center.logout, Center.luaDispatch]

theorem register_admitted :
    (Center.register (admittedUsers oc before fd msg source) oc.uid oc.agent
      (before.keySeq + 1)).1 = registeredUsers oc before fd msg source := by
  simp [Center.register, admittedUsers, registeredUsers, Attempt.user]

variable (before fd msg source)

/-- From the registration with the gate on. -/
theorem drive_gate (auth : oc.auth = .succeeds) (login : oc.centerLogin = .succeeds)
    (get : oc.poolGet = .succeeds) (start : oc.agentStart = .succeeds)
    (register : oc.centerRegister = .succeeds) :
    ∃ e v, drive oc 2 ⟨registeredUsers oc before fd msg source, some oc.agent, []⟩
        (.call (.gate source (.register ((attempt before fd msg source).registerData oc.uid
          oc.agent))) (.gateRegister (attempt before fd msg source) oc.uid oc.agent)) =
        some (e, v) ∧ Ended oc before fd msg source e v := by
  cases gate : oc.gateRegister with
  | raises =>
      refine ⟨_, _, ?_, .gateRaised auth login get start register gate⟩
      simp [drive, answer, gate, Ending.val, resume]
  | refuses =>
      have failed : completed ((attempt before fd msg source).fail .loginRegisterGateFile) = false :=
        rfl
      refine ⟨_, _, ?_, .unbound auth login get start register gate failed⟩
      cases first : oc.gateKick <;> cases second : oc.loginKick <;>
        simp [drive, answer, gate, resume, Val.truthy, Attempt.registerData,
          centerLogout_registered, centerLogout_gone, first, second]
  | succeeds =>
      have passed : completed ((attempt before fd msg source).succeed oc.uid) = true := rfl
      refine ⟨⟨registeredUsers oc before fd msg source, some oc.agent, []⟩, _, ?_,
        .done auth login get start register gate passed⟩
      simp [drive, answer, gate, Ending.val, resume, Val.truthy]

/-- From the registration with the center on. -/
theorem drive_register (auth : oc.auth = .succeeds) (login : oc.centerLogin = .succeeds)
    (get : oc.poolGet = .succeeds) (start : oc.agentStart = .succeeds) :
    ∃ e v, drive oc 3 ⟨admittedUsers oc before fd msg source, some oc.agent, []⟩
        (.call (.center (.register oc.uid oc.agent (before.keySeq + 1)))
          (.centerRegister (attempt before fd msg source) oc.uid oc.agent)) = some (e, v) ∧
      Ended oc before fd msg source e v := by
  cases register : oc.centerRegister with
  | raises =>
      refine ⟨_, _, ?_, .registerRaised auth login get start register⟩
      simp [drive, answer, register, Ending.val, resume]
  | refuses =>
      have failed : completed ((attempt before fd msg source).fail .loginRegisterCenterFail) =
          false := rfl
      refine ⟨_, _, ?_, .unregistered auth login get start register failed⟩
      simp [drive, answer, register, Ending.val, resume, Val.truthy, centerLogout_admitted]
  | succeeds =>
      obtain ⟨e, v, ran, ended⟩ := drive_gate before fd msg source auth login get start register
      refine ⟨e, v, ?_, ended⟩
      rw [← ran, drive]
      simp [answer, register, resume, Val.truthy, register_admitted]
      rfl

/-- From the call to the pool on. -/
theorem drive_get (auth : oc.auth = .succeeds) (login : oc.centerLogin = .succeeds) :
    ∃ e v, drive oc 5 ⟨admittedUsers oc before fd msg source, none, []⟩
        (.call (.pool .get) (.poolGet (attempt before fd msg source) oc.uid)) = some (e, v) ∧
      Ended oc before fd msg source e v := by
  cases get : oc.poolGet with
  | refuses | raises =>
      refine ⟨_, _, ?_, .noAgent auth login (by simp [get])⟩
      simp [drive, answer, get, Ending.val, resume]
  | succeeds =>
      cases start : oc.agentStart with
      | raises =>
          refine ⟨_, _, ?_, .startRaised auth login get start⟩
          simp [drive, answer, get, start, Ending.val, resume]
      | refuses =>
          have failed : completed ((attempt before fd msg source).fail .loginLoadDataFail) = false :=
            rfl
          refine ⟨_, _, ?_, .notStarted auth login get start failed⟩
          simp [drive, answer, get, start, Ending.val, resume, Val.truthy, centerLogout_admitted]
      | succeeds =>
          obtain ⟨e, v, ran, ended⟩ := drive_register before fd msg source auth login get start
          refine ⟨e, v, ?_, ended⟩
          rw [← ran, drive]
          simp [answer, get, resume]
          rw [drive]
          simp [answer, start, Ending.val, resume, Val.truthy]

/-- `forward.login` always ends, in one of these ways. -/
theorem forwardLogin_ends (oc : Outcomes) : ∃ e v, forwardLogin oc before fd msg source = some (e, v) ∧
    Ended oc before fd msg source e v := by
  unfold forwardLogin serve
  cases auth : oc.auth with
  | refuses | raises =>
      refine ⟨_, _, by simp [drive, answer, auth, Ending.val, resume]; rfl, .early (.inl ?_) rfl⟩
      simp [auth]
  | succeeds =>
      cases login : oc.centerLogin with
      | refuses | raises =>
          refine ⟨_, _, by simp [drive, answer, auth, login, Ending.val, resume, Val.truthy]; rfl,
            .early (.inr ?_) rfl⟩
          simp [login]
      | succeeds =>
          obtain ⟨e, v, ran, ended⟩ := drive_get before fd msg source auth login
          refine ⟨e, v, ?_, ended⟩
          rw [← ran, drive]
          simp [answer, auth, resume]
          rw [drive]
          simp [answer, login, resume, Val.truthy, admittedUsers]
          rfl

variable {before fd msg source}

theorem traceFree_before : TraceFree before ⟨before.users, none, []⟩ := by
  refine ⟨?_, rfl, ?_⟩
  · intro uid user stored
    exact Nat.ne_of_lt (Nat.lt_succ_of_le (before.issued uid user stored))
  · intro uid data free
    simp [Center.login, free]

/-- The record was deleted and the agent given back. -/
theorem traceFree_removed (uid : Uid) (x : Addr) :
    TraceFree before ⟨Function.update before.users uid none, some x, [x]⟩ := by
  have gone : ∀ uid', Function.update before.users uid none uid' = none ∨
      Function.update before.users uid none uid' = before.users uid' := by
    intro uid'
    by_cases here : uid' = uid
    · subst here
      exact .inl (Function.update_self ..)
    · exact .inr (Function.update_of_ne here _ _)
  refine ⟨?_, rfl, ?_⟩
  · intro uid' user stored
    have stored : Function.update before.users uid none uid' = some user := stored
    rcases gone uid' with removed | same
    · rw [removed] at stored
      cases stored
    · rw [same] at stored
      exact traceFree_before.1 uid' user stored
  · intro uid' data free
    have absent : Function.update before.users uid none uid' = none := by
      rcases gone uid' with removed | same
      · exact removed
      · rw [same]
        exact free
    simp [Center.login, absent]

/-- A record with the attempt's key is a trace. -/
theorem not_traceFree_of_record {e : Effects} {user : User} (uid : Uid)
    (stored : e.users uid = some user) (own : user.key = before.keySeq + 1) :
    ¬ TraceFree before e :=
  fun free => free.1 uid user stored own

theorem not_traceFree_admitted {fetched : Option Addr} {given : List Addr} :
    ¬ TraceFree before ⟨admittedUsers oc before fd msg source, fetched, given⟩ :=
  not_traceFree_of_record oc.uid (Function.update_self ..) rfl

theorem not_traceFree_registered {fetched : Option Addr} {given : List Addr} :
    ¬ TraceFree before ⟨registeredUsers oc before fd msg source, fetched, given⟩ :=
  not_traceFree_of_record oc.uid (Function.update_self ..) rfl

/-- An attempt that ended is trace-free or complete exactly for the outcomes that `Cleans`
names. -/
theorem traceFree_iff_of_ended {e : Effects} {v : Val} (ended : Ended oc before fd msg source e v) :
    (completed v = false → TraceFree before e) ↔ Cleans oc := by
  cases ended with
  | early failed _ =>
      refine ⟨fun _ => ?_, fun _ _ => traceFree_before⟩
      rcases failed with auth | login
      · exact .inl auth
      · exact .inr (.inl login)
  | noAgent auth login get =>
      refine ⟨fun free => (not_traceFree_admitted (free rfl)).elim, ?_⟩
      simp [Cleans, auth, login, get]
  | startRaised auth login get start =>
      refine ⟨fun free => (not_traceFree_admitted (free rfl)).elim, ?_⟩
      simp [Cleans, auth, login, get, start]
  | notStarted auth login get start failed =>
      refine ⟨fun free => ?_, ?_⟩
      · have given := (free failed).2.1
        cases given
      · simp [Cleans, auth, login, get, start]
  | registerRaised auth login get start register =>
      refine ⟨fun free => (not_traceFree_admitted (free rfl)).elim, ?_⟩
      simp [Cleans, auth, login, get, start, register]
  | unregistered auth login get start register failed =>
      refine ⟨fun _ => ?_, fun _ _ => traceFree_removed oc.uid oc.agent⟩
      simp [Cleans, auth, login, get, start, register]
  | gateRaised auth login get start register gate =>
      refine ⟨fun free => (not_traceFree_registered (free rfl)).elim, ?_⟩
      simp [Cleans, auth, login, get, start, register, gate]
  | unbound auth login get start register gate failed =>
      by_cases kicked : oc.gateKick = .succeeds ∨ oc.loginKick = .succeeds
      · rw [if_pos kicked]
        refine ⟨fun _ => ?_, fun _ _ => traceFree_removed oc.uid oc.agent⟩
        simp [Cleans, auth, login, get, start, register, gate, kicked]
      · rw [if_neg kicked]
        refine ⟨fun free => (not_traceFree_registered (free failed)).elim, ?_⟩
        simp [Cleans, auth, login, get, start, register, gate, kicked]
  | done auth login get start register gate passed =>
      refine ⟨fun _ => ?_, fun _ failed => ?_⟩
      · simp [Cleans, auth, login, get, start, register, gate]
      · rw [passed] at failed
        cases failed

end Attempts

/-- **Login failure and its traces.** A login attempt that does not end with result 0 leaves no
trace exactly for the outcomes that `Cleans` names. -/
theorem leavesNoTrace_iff (oc : Outcomes) (before : Before) (fd : Fd) (msg : LoginMsg)
    (source : Addr) : LeavesNoTrace oc before fd msg source ↔ Cleans oc := by
  obtain ⟨e, v, ran, ended⟩ := forwardLogin_ends before fd msg source oc
  rw [← traceFree_iff_of_ended ended, LeavesNoTrace]
  constructor
  · rintro ⟨e', v', ran', free⟩
    rw [ran] at ran'
    cases ran'
    exact free
  · exact fun free => ⟨e, v, ran, free⟩

/-- The agent is handed out but its `start` raises, as it does when the account has no data. -/
def startRaises : Outcomes where
  auth := .succeeds
  uid := 1
  centerLogin := .succeeds
  poolGet := .succeeds
  agent := 20
  agentStart := .raises
  centerRegister := .succeeds
  gateRegister := .succeeds
  gateKick := .succeeds
  loginKick := .succeeds

/-- Some outcomes leave a record and an agent behind. -/
theorem failed_start_leaves_trace :
    ¬ ∀ oc before fd msg source, LeavesNoTrace oc before fd msg source := by
  intro clean
  obtain ⟨e, v, ran, free⟩ := clean startRaises ⟨1, fun _ => none, fun _ _ stored => by cases stored⟩
    3 ⟨1, "player", "secret", "login", 1⟩ 7
  cases ran
  have given := (free rfl).2.1
  cases given

end RillServer.Login

/-! ## Keys are drawn before they are stored -/

namespace RillServer.Cluster

open Coroutine

section Issued

variable (keySeq : Key)

/-- The keys a suspended coroutine will use have been drawn. -/
def PcIssued : Pc → Prop
  | .login (.auth a) | .login (.centerLogin a _) => a.key ≤ keySeq
  | .center (.loginKick _ data) => data.key ≤ keySeq
  | _ => True

/-- The key of a record that is about to be stored has been drawn. -/
def ActIssued : Act → Prop
  | .calling (.center (.login _ data)) st => data.key ≤ keySeq ∧ ∀ pc ∈ st, PcIssued keySeq pc
  | .calling _ st => ∀ pc ∈ st, PcIssued keySeq pc
  | .returning _ st => ∀ pc ∈ st, PcIssued keySeq pc

end Issued

theorem ActIssued.pcs {keySeq : Key} {a : Act} (ok : ActIssued keySeq a) :
    ∀ pc ∈ a.stack, PcIssued keySeq pc := by
  cases a with
  | calling r st =>
      cases r with
      | center r => cases r <;> first | exact ok.2 | exact ok
      | login | gate | pool | agent | outside => exact ok
  | returning v st => exact ok

theorem PcIssued.mono {keySeq keySeq' : Key} (le : keySeq ≤ keySeq') {pc : Pc}
    (ok : PcIssued keySeq pc) : PcIssued keySeq' pc := by
  cases pc with
  | login pc => cases pc <;> first | exact Nat.le_trans ok le | exact ok
  | center pc => cases pc <;> first | exact Nat.le_trans ok le | exact ok
  | gate | pool | agent => exact ok

theorem ActIssued.mono {keySeq keySeq' : Key} (le : keySeq ≤ keySeq') {a : Act}
    (ok : ActIssued keySeq a) : ActIssued keySeq' a := by
  have pcs : ∀ pc ∈ a.stack, PcIssued keySeq' pc := fun pc member => (ok.pcs pc member).mono le
  cases a with
  | calling r st =>
      cases r with
      | center r => cases r <;> first | exact ⟨Nat.le_trans ok.1 le, pcs⟩ | exact pcs
      | login | gate | pool | agent | outside => exact pcs
  | returning v st => exact pcs

structure KeysIssued (w : World) : Prop where
  records : ∀ uid user, w.shared.users uid = some user → user.key ≤ w.shared.keySeq
  acts : ∀ i a, w.acts i = some a → ActIssued w.shared.keySeq a

/-- The first segment of a center command stores a key that has been drawn. -/
theorem issued_served {users users' : Center.Users} {keySeq : Key} {r : CenterReq}
    {out : Center.Out} {st : List Pc} (served : Center.Served users r users' out)
    (records : ∀ uid user, users uid = some user → user.key ≤ keySeq)
    (mine : ActIssued keySeq (.calling (.center r) st)) :
    (∀ uid user, users' uid = some user → user.key ≤ keySeq) ∧
      ActIssued keySeq ((out.mapPc Pc.center).settle st) := by
  have pcs := mine.pcs
  have update : ∀ {uid : Uid} {new : Option User}, (∀ user, new = some user → user.key ≤ keySeq) →
      ∀ uid' user, Function.update users uid new uid' = some user → user.key ≤ keySeq := by
    intro uid new drawn uid' user stored
    by_cases here : uid' = uid
    · subst here
      rw [Function.update_self] at stored
      exact drawn user stored
    · rw [Function.update_of_ne here] at stored
      exact records uid' user stored
  cases served with
  | stored _ =>
      refine ⟨update ?_, pcs⟩
      rintro user ⟨⟩
      exact mine.1
  | @marked uid x old stored unset =>
      refine ⟨update ?_, pcs⟩
      rintro user ⟨⟩
      exact records uid old stored
  | dropped _ _ => exact ⟨update (by simp), pcs⟩
  | kicking _ => exact ⟨records, List.forall_mem_cons.mpr ⟨mine.1, pcs⟩⟩
  | leaving _ _ => exact ⟨records, List.forall_mem_cons.mpr ⟨True.intro, pcs⟩⟩
  | refused | unmarked | absent | foreign | watched => exact ⟨records, pcs⟩

theorem issued_resumed {users users' : Center.Users} {keySeq : Key} {pc : Center.Pc} {v : Val}
    {out : Center.Out} {st : List Pc} (resumed : Center.Resumed users pc v users' out)
    (records : ∀ uid user, users uid = some user → user.key ≤ keySeq)
    (mine : ActIssued keySeq (.returning v (.center pc :: st))) :
    (∀ uid user, users' uid = some user → user.key ≤ keySeq) ∧
      ActIssued keySeq ((out.mapPc Pc.center).settle st) := by
  obtain ⟨known, below⟩ := List.forall_mem_cons.mp mine
  cases resumed with
  | @stored uid data _ truth free =>
      refine ⟨fun uid' user stored => ?_, below⟩
      by_cases here : uid' = uid
      · subst here
        rw [Function.update_self] at stored
        cases stored
        exact known
      · rw [Function.update_of_ne here] at stored
        exact records uid' user stored
  | @dropped uid key _ truth =>
      refine ⟨fun uid' user stored => ?_, below⟩
      by_cases here : uid' = uid
      · subst here
        simp at stored
      · rw [Function.update_of_ne here] at stored
        exact records uid' user stored
  | failed _ => exact ⟨records, below⟩

/-- One segment: the records, and the activity that moved. -/
theorem KeysIssued.moved {w : World} (inv : KeysIssued w) {a a' : Act} {s' : Shared}
    (mine : ActIssued w.shared.keySeq a) (moved : Moved w.shared a s' a') :
    w.shared.keySeq ≤ s'.keySeq ∧ (∀ uid user, s'.users uid = some user → user.key ≤ s'.keySeq) ∧
      ActIssued s'.keySeq a' := by
  have pcs := mine.pcs
  cases moved with
  | login =>
      refine ⟨Nat.le_succ _, fun uid user stored => Nat.le_succ_of_le (inv.records uid user stored),
        List.forall_mem_cons.mpr ⟨Nat.le_refl _, fun pc member => ?_⟩⟩
      exact (pcs pc member).mono (Nat.le_succ _)
  | center served => exact ⟨Nat.le_refl _, issued_served served inv.records mine⟩
  | gate served =>
      refine ⟨Nat.le_refl _, inv.records, ?_⟩
      cases served <;> first | exact pcs | exact List.forall_mem_cons.mpr ⟨True.intro, pcs⟩
  | pool served =>
      refine ⟨Nat.le_refl _, inv.records, ?_⟩
      cases served <;> first | exact pcs | exact List.forall_mem_cons.mpr ⟨True.intro, pcs⟩
  | agent served =>
      refine ⟨Nat.le_refl _, inv.records, ?_⟩
      cases served <;> first | exact pcs | exact List.forall_mem_cons.mpr ⟨True.intro, pcs⟩
  | outside answered => cases answered <;> exact ⟨Nat.le_refl _, inv.records, pcs⟩
  | loginBack resumed =>
      obtain ⟨known, below⟩ := List.forall_mem_cons.mp pcs
      refine ⟨Nat.le_refl _, inv.records, ?_⟩
      cases resumed with
      | authed => exact ⟨known, List.forall_mem_cons.mpr ⟨known, below⟩⟩
      | failed | noAgent | ended => exact below
      | admitted | got | started | notStarted | registered | unregistered | bound | unbound
      | recycled => exact List.forall_mem_cons.mpr ⟨True.intro, below⟩
  | centerBack resumed => exact ⟨Nat.le_refl _, issued_resumed resumed inv.records mine⟩
  | gateBack resumed =>
      obtain ⟨-, below⟩ := List.forall_mem_cons.mp pcs
      refine ⟨Nat.le_refl _, inv.records, ?_⟩
      cases resumed <;> first | exact below | exact List.forall_mem_cons.mpr ⟨True.intro, below⟩
  | poolBack _ => exact ⟨Nat.le_refl _, inv.records, (List.forall_mem_cons.mp pcs).2⟩
  | agentBack _ => exact ⟨Nat.le_refl _, inv.records, (List.forall_mem_cons.mp pcs).2⟩

theorem KeysIssued.step {w w' : World} {e : Event Ora Env} (inv : KeysIssued w)
    (stepped : code.step w e = some w') : KeysIssued w' := by
  rcases Code.step_cases stepped with ⟨id, o, a, s', a', rfl, found, adv, rfl⟩ |
    ⟨id, x, s', -, happened, rfl⟩ | ⟨id, x, s', r, -, -, happened, rfl⟩
  · obtain ⟨le, records, mine⟩ := inv.moved (inv.acts id a found) (moved_of_advance adv)
    exact ⟨records, Code.acts_of_run inv.acts (fun _ _ _ ok => ok.mono le) mine⟩
  · rcases arrive_none happened with ⟨g, fd, -, -, rfl⟩ | ⟨g, fd, msg, -, rfl⟩
    · exact ⟨inv.records, inv.acts⟩
    · exact inv
  · obtain ⟨rfl, ⟨fd, msg, g, rfl⟩ | ⟨g, fd, rfl⟩⟩ := arrive_some happened
    · exact ⟨inv.records, Code.acts_of_run inv.acts (fun _ _ _ ok => ok) (by simp [ActIssued])⟩
    · exact ⟨inv.records, Code.acts_of_run inv.acts (fun _ _ _ ok => ok) (by simp [ActIssued])⟩

/-- The records of the center in every world reached carry keys that have been drawn. -/
theorem keysIssued_of_reach {maxnum recyremove : Nat} {guard : World → Event Ora Env → Prop}
    {w : World} (reached : code.Reach guard (init maxnum recyremove) w) : KeysIssued w := by
  refine reached.invariant ?_ fun inv _ stepped => inv.step stepped
  constructor
  · intro uid user stored
    cases stored
  · intro i a found
    cases found

/-- A login attempt may begin in every world reached. -/
def beforeOf {maxnum recyremove : Nat} {guard : World → Event Ora Env → Prop} {w : World}
    (reached : code.Reach guard (init maxnum recyremove) w) : Login.Before where
  keySeq := w.shared.keySeq
  users := w.shared.users
  issued := (keysIssued_of_reach reached).records

end RillServer.Cluster
