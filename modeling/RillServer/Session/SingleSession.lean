import RillServer.Session.Keys

/-!
# One session per uid

A connection that is registered and not inside `close_agent` has a bound key, so the center still
has its record (`KeyInv.opens`). One uid has one record and one key is bound to one table, which
gives at most one such connection per uid (`single_session`).

A logout that deletes the record of another session breaks this: the uid can log in again while
that session goes on (`two_sessions`).
-/

namespace RillServer.Cluster

open Coroutine

/-- At most one connection is registered for a uid, and the center's record of that uid carries
its key. -/
def SingleSession (w : World) : Prop :=
  (∀ sock sock' session session', Registered w sock session → Registered w sock' session' →
      session.uid = session'.uid → sock = sock') ∧
    ∀ sock session, Registered w sock session → HasRecord w.shared.users session.uid session.key

/-- Single sessions in every world that a cluster with these pool settings reaches by steps that
satisfy `guard`. -/
def SingleSessions (guard : World → Event Ora Env → Prop) (maxnum recyremove : Nat) : Prop :=
  ∀ w, code.Reach guard (init maxnum recyremove) w → SingleSession w

theorem KeyInv.bound_of_registered {w : World} {phase : Phases} (inv : KeyInv w phase)
    {sock : Addr × Fd} {session : Session} (registered : Registered w sock session) :
    ∃ c, w.shared.gates.connection sock = some c ∧ phase session.key = .bound c ∧
      HasRecord w.shared.users session.uid session.key := by
  obtain ⟨c, opened, stored, quiet⟩ := registered
  rcases inv.opens sock c session opened stored with ⟨bound, has⟩ | closing
  · exact ⟨c, opened, bound, has⟩
  · exact (quiet closing).elim

/-- **Single session per uid.** As long as no login stores a record over a suspended logout of
another key, a uid has at most one registered connection, and its record carries that
connection's key. -/
theorem single_session (maxnum recyremove : Nat) :
    SingleSessions StoresAfterLogouts maxnum recyremove := by
  intro w reached
  obtain ⟨phase, inv⟩ := keyInv_of_reach reached
  have tables := gateInv_of_reach reached
  refine ⟨?_, fun sock session registered => ?_⟩
  · intro sock sock' session session' registered registered' sameUid
    obtain ⟨c, opened, bound, user, stored, key⟩ := inv.bound_of_registered registered
    obtain ⟨c', opened', bound', user', stored', key'⟩ := inv.bound_of_registered registered'
    have sameKey : session.key = session'.key := by
      rw [sameUid, stored'] at stored
      cases stored
      exact key.symm.trans key'
    have sameConn : c = c' := by
      rw [sameKey, bound'] at bound
      exact (Phase.bound.inj bound).symm
    subst sameConn
    exact tables.inj opened opened'
  · obtain ⟨c, -, -, has⟩ := inv.bound_of_registered registered
    exact has

/-! ## Two sessions -/

/-- Uid 1 logs in on socket `fd` of gate 7, with nothing in its way. -/
def loginOn (id : Nat) (fd : Fd) : List (Event Ora Env) :=
  [Event.arrive id (Env.message 7 fd ⟨1, "player", "secret", "login", 1⟩),
      Event.run id Ora.ok, Event.run id (Ora.uid 1)] ++
    List.replicate 15 (Event.run id Ora.ok)

/-- A disconnect and a kick of socket 1 both get as far as their call to the agent; the disconnect
deletes the record, uid 1 logs in on socket 2, the kick deletes that record too, and uid 1 logs in
on socket 3. -/
def disconnectAndKick : List (Event Ora Env) :=
  [Event.arrive 0 (Env.connect 7 1), Event.arrive 0 (Env.connect 7 2),
      Event.arrive 0 (Env.connect 7 3)] ++ loginOn 0 1 ++
    [Event.arrive 1 (Env.disconnect 7 1), Event.run 1 Ora.ok, Event.run 1 Ora.ok,
      Event.arrive 2 (Env.kick 7 1), Event.run 2 Ora.ok, Event.run 2 Ora.ok, Event.run 1 Ora.ok,
      Event.run 1 Ora.ok] ++
    loginOn 3 2 ++ [Event.run 2 Ora.ok, Event.run 2 Ora.ok] ++ loginOn 4 3

/-- One of the first `n` activities is inside `close_agent` for this table. -/
def closingBelow (n : Nat) (w : World) (c : Ref) : Bool :=
  (List.range n).any fun id =>
    (w.acts id).any fun a => a.stack.any fun pc => pc.closes.any fun site => site.2.2 == c

theorem not_closing_of_runs {maxnum recyremove n : Nat} {w : World} {es : List (Event Ora Env)}
    {c : Ref} (ran : code.runs (init maxnum recyremove) es = some w) (ids : ∀ e ∈ es, e.id < n)
    (checked : closingBelow n w c = false) : ¬ Closing w c := by
  rintro ⟨pc, g, fd, ⟨id, a, found, member⟩, closes⟩
  rcases Nat.lt_or_ge id n with named | unnamed
  · have here : closingBelow n w c = true := by
      simp only [closingBelow, List.any_eq_true, List.mem_range, Option.any_eq_true]
      exact ⟨id, named, a, found, pc, member, _, closes, by simp⟩
    rw [here] at checked
    cases checked
  · have untouched := Code.runs_untouched
      (fun e at' => Nat.ne_of_lt (Nat.lt_of_lt_of_le (ids e at') unnamed)) ran
    rw [found] at untouched
    cases untouched

/-- Without the guard, a disconnect and a kick that overlap let one uid have two sessions. -/
theorem two_sessions : ¬ SingleSessions (fun _ _ => True) 3 0 := by
  intro single
  have ran : (code.runs (init 3 0) disconnectAndKick).map (fun w =>
      (w.shared.gates.connection (7, 2), w.shared.gates.connection (7, 3),
        w.shared.gates.conn 1, w.shared.gates.conn 2, closingBelow 5 w 1, closingBelow 5 w 2)) =
      some (some 1, some 2, some ⟨1, 3, some 1⟩, some ⟨1, 4, some 0⟩, false, false) := by
    rfl
  obtain ⟨w, run, facts⟩ := Option.map_eq_some_iff.mp ran
  simp only [Prod.mk.injEq] at facts
  obtain ⟨second, third, session, session', quiet, quiet'⟩ := facts
  have ids : ∀ e ∈ disconnectAndKick, e.id < 5 := by decide
  have unique := (single w (Code.Reach.refl.of_runs run)).1
  have same : ((7, 2) : Addr × Fd) = (7, 3) :=
    unique _ _ _ _ ⟨1, second, session, not_closing_of_runs run ids quiet⟩
      ⟨2, third, session', not_closing_of_runs run ids quiet'⟩ rfl
  cases same

end RillServer.Cluster
