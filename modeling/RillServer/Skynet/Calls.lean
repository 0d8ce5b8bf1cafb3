import Mathlib.Data.List.AList

/-!
# Outstanding calls of a skynet service

`skynet/lualib/skynet.lua`. A service that calls another one parks the calling coroutine under the
session number of the request (`session_id_coroutine`) and notes whom it waits for
(`watching_session`). A response resumes the coroutine that is parked under its session; an error
fails the calls it names, which is one session or, when a whole service is gone, every call to that
service.

The gate redirects client messages with the socket id in the place of the session number, so a
handler that raises answers with an error whose session is a socket id (`clientError`). It fails
whatever call of the gate has that number (`errorStaysWithClient_iff`).

Between two messages `error_queue` is empty, so it is the argument of `dispatchErrorQueue` here.
Coroutines that sleep are parked under a session but not watched; they are not called by anyone and
an error does not find them.
-/

namespace RillServer.Skynet

/-- Session numbers, and the socket ids that the gate uses in their place. -/
abbrev Session := Nat

/-- The address of a service. -/
abbrev Handle := Nat

variable {Co : Type}

/-- `watching_session` and `session_id_coroutine`. Whatever is watched is parked: `yield_call`
writes both entries, and both go when the coroutine is resumed. -/
structure Calls (Co : Type) where
  watchingSession : AList fun _ : Session => Handle
  sessionIdCoroutine : Session → Option Co
  parked : ∀ s ∈ watchingSession, (sessionIdCoroutine s).isSome

namespace Calls

/-- `yield_call`, up to the yield. -/
def yieldCall (c : Calls Co) (service : Handle) (session : Session) (co : Co) : Calls Co where
  watchingSession := c.watchingSession.insert session service
  sessionIdCoroutine := Function.update c.sessionIdCoroutine session (some co)
  parked s watched := by
    by_cases here : s = session
    · simp [here]
    · rw [Function.update_of_ne here]
      rcases (AList.mem_insert _).mp watched with same | before
      · exact (here same).elim
      · exact c.parked s before

/-- A coroutine is taken out of `session_id_coroutine` and resumed: `yield_call` then clears its
entry of `watching_session` before anything else. -/
def resume (c : Calls Co) (session : Session) : Calls Co where
  watchingSession := c.watchingSession.erase session
  sessionIdCoroutine := Function.update c.sessionIdCoroutine session none
  parked s watched := by
    obtain ⟨other, before⟩ := AList.mem_erase.mp watched
    rw [Function.update_of_ne other]
    exact c.parked s before

/-- A response: the coroutine parked under its session goes on. A response that finds none is an
error of the service and changes nothing. -/
def response (c : Calls Co) (session : Session) : Calls Co × List (Session × Co) :=
  match c.sessionIdCoroutine session with
  | none => (c, [])
  | some co => (c.resume session, [(session, co)])

/-- `_error_dispatch`: the sessions it adds to `error_queue`. -/
def errorDispatch (c : Calls Co) (errorSession : Session) (errorSource : Handle) : List Session :=
  if errorSession = 0 then
    (c.watchingSession.entries.filter fun entry => entry.2 == errorSource).map Sigma.fst
  else if (c.watchingSession.lookup errorSession).isSome then [errorSession] else []

/-- `dispatch_error_queue`, until the queue is empty: each coroutine is resumed with `false`, and
its `yield_call` raises "call failed". -/
def dispatchErrorQueue : List Session → Calls Co → Calls Co × List (Session × Co)
  | [], c => (c, [])
  | session :: queue, c =>
      match c.sessionIdCoroutine session with
      | none => dispatchErrorQueue queue c
      | some co =>
          let (c', failed) := dispatchErrorQueue queue (c.resume session)
          (c', (session, co) :: failed)

/-- A message of type `PTYPE_ERROR` arrives. -/
def error (c : Calls Co) (errorSession : Session) (errorSource : Handle) :
    Calls Co × List (Session × Co) :=
  dispatchErrorQueue (c.errorDispatch errorSession errorSource) c

/-- The call with this session waits for `service` in coroutine `co`. -/
def Pending (c : Calls Co) (session : Session) (service : Handle) (co : Co) : Prop :=
  c.watchingSession.lookup session = some service ∧ c.sessionIdCoroutine session = some co

/-! ## What a message does to a pending call -/

theorem pending_yieldCall (c : Calls Co) (service : Handle) (session : Session) (co : Co) :
    (c.yieldCall service session co).Pending session service co :=
  ⟨AList.lookup_insert _, by simp [yieldCall]⟩

theorem Pending.of_resume {c : Calls Co} {s session : Session} {service : Handle} {co : Co}
    (pending : c.Pending s service co) (other : s ≠ session) :
    (c.resume session).Pending s service co := by
  obtain ⟨watched, parked⟩ := pending
  exact ⟨(AList.lookup_erase_ne other).trans watched, (Function.update_of_ne other _ _).trans parked⟩

/-- Emptying the error queue leaves the calls that are not in it alone. -/
theorem Pending.of_dispatch {c : Calls Co} {queue : List Session} {s : Session} {service : Handle}
    {co : Co} (pending : c.Pending s service co) (other : s ∉ queue) :
    (dispatchErrorQueue queue c).1.Pending s service co ∧
      ∀ co', (s, co') ∉ (dispatchErrorQueue queue c).2 := by
  induction queue generalizing c with
  | nil => exact ⟨pending, by simp [dispatchErrorQueue]⟩
  | cons session queue ih =>
      have ne : s ≠ session := fun same => other (by rw [same]; exact List.mem_cons_self)
      have rest : s ∉ queue := fun member => other (List.mem_cons_of_mem _ member)
      cases found : c.sessionIdCoroutine session with
      | none =>
          simp only [dispatchErrorQueue, found]
          exact ih pending rest
      | some co₁ =>
          obtain ⟨still, silent⟩ := ih (pending.of_resume ne) rest
          simp only [dispatchErrorQueue, found]
          refine ⟨still, fun co' member => ?_⟩
          rcases List.mem_cons.mp member with same | later
          · exact ne (congrArg Prod.fst same)
          · exact silent co' later

/-- Which calls an error names: one session, or every call to a service that is gone. -/
theorem mem_errorDispatch {c : Calls Co} {errorSession : Session} {errorSource : Handle}
    {s : Session} {service : Handle} {co : Co} (pending : c.Pending s service co) :
    s ∈ c.errorDispatch errorSession errorSource ↔
      (errorSession = 0 ∧ service = errorSource) ∨ (errorSession ≠ 0 ∧ s = errorSession) := by
  unfold errorDispatch
  split
  · rename_i zero
    have entry : ∀ service', ⟨s, service'⟩ ∈ c.watchingSession.entries ↔ service' = service := by
      intro service'
      rw [← AList.mem_lookup_iff, pending.1]
      exact ⟨fun same => (Option.some.inj same).symm, fun same => by rw [same]; rfl⟩
    simp only [List.mem_map, List.mem_filter, beq_iff_eq, zero, true_and, ne_eq, not_true_eq_false,
      false_and, or_false]
    constructor
    · rintro ⟨⟨s', service'⟩, ⟨member, down⟩, rfl⟩
      rw [← (entry service').mp member]
      exact down
    · intro down
      exact ⟨⟨s, service⟩, ⟨(entry service).mpr rfl, down⟩, rfl⟩
  · rename_i nonzero
    simp only [nonzero, false_and, ne_eq, not_false_eq_true, true_and, false_or]
    constructor
    · intro member
      split at member
      · exact List.mem_singleton.mp member
      · cases member
    · rintro rfl
      rw [if_pos (by rw [pending.1]; rfl)]
      exact List.mem_singleton.mpr rfl

theorem Pending.of_error {c : Calls Co} {errorSession : Session} {errorSource : Handle}
    {s : Session} {service : Handle} {co : Co} (pending : c.Pending s service co)
    (other : s ∉ c.errorDispatch errorSession errorSource) :
    (c.error errorSession errorSource).1.Pending s service co :=
  (pending.of_dispatch other).1

/-! ## Runs -/

/-- What can happen to the calls of a service. -/
inductive Event (Co : Type) where
  | call (service : Handle) (session : Session) (co : Co)
  | response (session : Session)
  | error (errorSession : Session) (errorSource : Handle)

def step (c : Calls Co) : Event Co → Calls Co
  | .call service session co => c.yieldCall service session co
  | .response session => (c.response session).1
  | .error errorSession errorSource => (c.error errorSession errorSource).1

/-- The event is about the call with this session and service: it has that session number, or it
says that the service is gone. -/
def Event.Concerns (s : Session) (service : Handle) : Event Co → Prop
  | .call _ session _ => session = s
  | .response session => session = s
  | .error errorSession errorSource =>
      errorSession = s ∨ (errorSession = 0 ∧ errorSource = service)

theorem Pending.step {c : Calls Co} {s : Session} {service : Handle} {co : Co} {e : Event Co}
    (pending : c.Pending s service co) (unrelated : ¬ e.Concerns s service) :
    (c.step e).Pending s service co := by
  cases e with
  | call service' session co' =>
      have other : s ≠ session := fun same => unrelated same.symm
      obtain ⟨watched, parked⟩ := pending
      exact ⟨(AList.lookup_insert_ne other).trans watched,
        (Function.update_of_ne other _ _).trans parked⟩
  | response session =>
      have other : s ≠ session := fun same => unrelated same.symm
      simp only [Calls.step, response]
      split
      · exact pending
      · exact pending.of_resume other
  | error errorSession errorSource =>
      apply pending.of_error
      rw [mem_errorDispatch pending]
      rintro (⟨zero, down⟩ | ⟨-, same⟩)
      · exact unrelated (.inr ⟨zero, down.symm⟩)
      · exact unrelated (.inl same.symm)

/-- A call stays pending through any run without an event that concerns it. -/
theorem Pending.run {c : Calls Co} {s : Session} {service : Handle} {co : Co}
    {events : List (Event Co)} (pending : c.Pending s service co)
    (unrelated : ∀ e ∈ events, ¬ e.Concerns s service) :
    (events.foldl Calls.step c).Pending s service co := by
  induction events generalizing c with
  | nil => exact pending
  | cons e events ih =>
      have head := pending.step (unrelated e List.mem_cons_self)
      exact ih head fun e' member => unrelated e' (List.mem_cons_of_mem _ member)

/-! ## Errors of client messages -/

/-- `suspend` in the service that handles a message: when the handler raises, an error with the
message's session goes back to its source, unless the session is 0. -/
def errorReply (session : Session) : Option Session :=
  if session ≠ 0 then some session else none

/-- The handling of a client message from socket `fd` raised in `service`: what the gate, which
redirected the message with `fd` as session and itself as source, does with the answer. -/
def clientError (c : Calls Co) (fd : Session) (service : Handle) :
    Calls Co × List (Session × Co) :=
  match errorReply fd with
  | none => (c, [])
  | some session => c.error session service

/-- No coroutine of the gate that waits for an answer is resumed, and no call is forgotten. -/
def ErrorStaysWithClient (c : Calls Co) (fd : Session) (service : Handle) : Prop :=
  ∀ s callee co, c.Pending s callee co →
    (c.clientError fd service).1.Pending s callee co ∧
      (s, co) ∉ (c.clientError fd service).2

/-- What is watched is pending. -/
theorem pending_of_lookup {c : Calls Co} {s : Session} {service : Handle}
    (watched : c.watchingSession.lookup s = some service) : ∃ co, c.Pending s service co := by
  have member : s ∈ c.watchingSession := by
    rw [← AList.lookup_isSome, watched]
    rfl
  obtain ⟨co, parked⟩ := Option.isSome_iff_exists.mp (c.parked s member)
  exact ⟨co, watched, parked⟩

/-- An error for a pending call fails it. -/
theorem fails_of_pending {c : Calls Co} {fd : Session} {callee : Handle} {co : Co}
    (service : Handle) (pending : c.Pending fd callee co) (nonzero : fd ≠ 0) :
    (fd, co) ∈ (c.clientError fd service).2 := by
  have queue : c.errorDispatch fd service = [fd] := by
    rw [errorDispatch, if_neg nonzero, if_pos (by rw [pending.1]; rfl)]
  have reply : errorReply fd = some fd := if_pos nonzero
  simp only [clientError, reply, error, queue, dispatchErrorQueue, pending.2]
  exact List.mem_cons_self

/-- **Client errors.** The error of a client message leaves the gate's calls alone exactly when no
outstanding call of the gate has the socket id for its session number (socket ids are positive). -/
theorem errorStaysWithClient_iff (c : Calls Co) (fd : Session) (service : Handle) :
    c.ErrorStaysWithClient fd service ↔ fd = 0 ∨ c.watchingSession.lookup fd = none := by
  constructor
  · intro stays
    by_cases zero : fd = 0
    · exact .inl zero
    · refine .inr ?_
      cases watched : c.watchingSession.lookup fd with
      | none => rfl
      | some callee =>
          obtain ⟨co, pending⟩ := pending_of_lookup watched
          exact ((stays fd callee co pending).2 (fails_of_pending service pending zero)).elim
  · intro free s callee co pending
    by_cases zero : fd = 0
    · subst zero
      exact ⟨pending, by simp [clientError, errorReply]⟩
    · have reply : errorReply fd = some fd := if_pos zero
      have other : s ≠ fd := by
        rintro rfl
        rcases free with free | free
        · exact zero free
        · rw [pending.1] at free
          cases free
      have unnamed : s ∉ c.errorDispatch fd service := by
        rw [mem_errorDispatch pending]
        rintro (⟨zero', -⟩ | ⟨-, same⟩)
        · exact zero zero'
        · exact other same
      obtain ⟨still, silent⟩ := pending.of_dispatch unnamed
      simp only [clientError, reply]
      exact ⟨still, silent co⟩

/-- The gate waits for the center (service 2) in call 5, and a message of socket 5 makes the login
service (service 3) raise. -/
theorem client_error_fails_call :
    ¬ ∀ (c : Calls Unit) (fd : Session) (service : Handle), c.ErrorStaysWithClient fd service := by
  intro stays
  have idle : Calls Unit := ⟨∅, fun _ => none, fun s member => (AList.notMem_empty s member).elim⟩
  have pending := pending_yieldCall idle 2 5 ()
  have fails := fails_of_pending 3 pending (by decide)
  exact (stays (idle.yieldCall 2 5 ()) 5 3 5 2 () pending).2 fails

end Calls

end RillServer.Skynet
