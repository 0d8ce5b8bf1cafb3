import RillServer.Session.Linked

/-!
# Connections that are being closed

Several coroutines can be inside `close_agent` for one connection table: it suspends twice, and
sockets disconnect while kicks are in progress. `GateInv` says what stays true of the gates'
tables however these coroutines interleave. Its last two parts are what makes a failed
`close_agent` harmless: an open connection with a session still has its agent, so a `close_agent`
that is about to recycle `nil` works on a table no socket leads to any more.
-/

namespace RillServer.Cluster

open Coroutine

/-- The gate, socket and connection table that a coroutine inside `close_agent` works on. -/
def Pc.closes : Pc → Option (Addr × Fd × Ref)
  | .gate (.closeLogout g fd c) => some (g, fd, c)
  | .gate (.closeRecycle g fd c _) => some (g, fd, c)
  | _ => none

/-- Some coroutine is inside `close_agent` for this connection table. -/
def Closing (w : World) (c : Ref) : Prop :=
  ∃ pc g fd, w.Suspended pc ∧ pc.closes = some (g, fd, c)

/-- The connection at a socket is registered for `session` and not inside `close_agent`. -/
def Registered (w : World) (sock : Addr × Fd) (session : Session) : Prop :=
  ∃ c, w.shared.gates.connection sock = some c ∧ w.shared.gates.conn c = some session ∧
    ¬ Closing w c

structure GateInv (w : World) : Prop where
  /-- Different sockets have different tables. -/
  inj : ∀ {sock sock' c}, w.shared.gates.connection sock = some c →
    w.shared.gates.connection sock' = some c → sock = sock'
  fresh : ∀ {sock c}, w.shared.gates.connection sock = some c → c < w.shared.gates.nextRef
  /-- The table a `close_agent` works on is open under its own socket only. -/
  site : ∀ {pc g fd c}, w.Suspended pc → pc.closes = some (g, fd, c) →
    c < w.shared.gates.nextRef ∧
      ∀ {sock}, w.shared.gates.connection sock = some c → sock = (g, fd)
  bound : ∀ {g fd c}, w.Suspended (.gate (.closeLogout g fd c)) → w.shared.gates.conn c ≠ none
  armed : ∀ {sock c session}, w.shared.gates.connection sock = some c →
    w.shared.gates.conn c = some session → session.agent ≠ none
  dead : ∀ {g fd c}, w.Suspended (.gate (.closeRecycle g fd c none)) →
    ∀ sock, w.shared.gates.connection sock ≠ some c

/-- The invariant depends on the gates and on the coroutines inside `close_agent` alone. -/
theorem GateInv.of_sub {w w' : World} (inv : GateInv w)
    (gates : w'.shared.gates = w.shared.gates)
    (suspended : ∀ pc, pc.closes ≠ none → w'.Suspended pc → w.Suspended pc) : GateInv w' where
  inj := by rw [gates]; exact inv.inj
  fresh := by rw [gates]; exact inv.fresh
  site susp closes := by
    rw [gates]
    exact inv.site (suspended _ (by simp [closes]) susp) closes
  bound susp := by
    rw [gates]
    exact inv.bound (suspended _ (by simp [Pc.closes]) susp)
  armed := by rw [gates]; exact inv.armed
  dead susp := by
    rw [gates]
    exact inv.dead (suspended _ (by simp [Pc.closes]) susp)

/-- Forgetting a socket keeps the invariant. -/
theorem GateInv.of_forget {w w' : World} (inv : GateInv w) {g : Addr} {fd : Fd}
    (gates : w'.shared.gates = Gate.forget w.shared.gates g fd)
    (suspended : ∀ pc, pc.closes ≠ none → w'.Suspended pc → w.Suspended pc) : GateInv w' := by
  have less : ∀ {sock c}, w'.shared.gates.connection sock = some c →
      w.shared.gates.connection sock = some c := by
    intro sock c opened
    rw [gates] at opened
    exact (Gate.connection_of_forget opened).2
  have conn : w'.shared.gates.conn = w.shared.gates.conn := by rw [gates]; rfl
  have nextRef : w'.shared.gates.nextRef = w.shared.gates.nextRef := by rw [gates]; rfl
  exact {
    inj := fun one other => inv.inj (less one) (less other)
    fresh := fun opened => by rw [nextRef]; exact inv.fresh (less opened)
    site := fun susp closes => by
      have ⟨old, only⟩ := inv.site (suspended _ (by simp [closes]) susp) closes
      exact ⟨by rw [nextRef]; exact old, fun opened => only (less opened)⟩
    bound := fun susp => by
      rw [conn]
      exact inv.bound (suspended _ (by simp [Pc.closes]) susp)
    armed := fun opened session => inv.armed (less opened) (by rw [← conn]; exact session)
    dead := fun susp sock opened =>
      inv.dead (suspended _ (by simp [Pc.closes]) susp) sock (less opened) }

/-- Writing the session of an open connection keeps the invariant. -/
theorem GateInv.of_bind {w w' : World} (inv : GateInv w) {c : Ref} {session : Session}
    (set : session.agent ≠ none)
    (gates : w'.shared.gates = { w.shared.gates with
      conn := Function.update w.shared.gates.conn c (some session) })
    (suspended : ∀ pc, pc.closes ≠ none → w'.Suspended pc → w.Suspended pc) : GateInv w' where
  inj := by rw [gates]; exact inv.inj
  fresh := by rw [gates]; exact inv.fresh
  site susp closes := by
    rw [gates]
    exact inv.site (suspended _ (by simp [closes]) susp) closes
  bound {g fd c'} susp := by
    have before := inv.bound (suspended _ (by simp [Pc.closes]) susp)
    rw [gates]
    by_cases here : c' = c
    · simp [here]
    · simpa [Function.update_of_ne here] using before
  armed {sock c' session'} opened stored := by
    rw [gates] at opened stored
    by_cases here : c' = c
    · subst here
      simp only [Function.update_self, Option.some.injEq] at stored
      rw [← stored]
      exact set
    · exact inv.armed opened (by simpa [Function.update_of_ne here] using stored)
  dead susp := by
    rw [gates]
    exact inv.dead (suspended _ (by simp [Pc.closes]) susp)

/-- A `close_agent` that enters, or moves on to the pool, keeps the invariant: its table is open
under its own socket only, and it recycles `nil` only when the table is not open at all. -/
theorem GateInv.of_enter {w w' : World} (inv : GateInv w) {pc : Pc} {g : Addr} {fd : Fd} {c : Ref}
    (gates : w'.shared.gates = w.shared.gates) (closes : pc.closes = some (g, fd, c))
    (site : c < w.shared.gates.nextRef ∧
      ∀ {sock}, w.shared.gates.connection sock = some c → sock = (g, fd))
    (bound : w.shared.gates.conn c ≠ none)
    (dead : pc = .gate (.closeRecycle g fd c none) →
      ∀ sock, w.shared.gates.connection sock ≠ some c)
    (suspended : ∀ pc', w'.Suspended pc' → pc' = pc ∨ w.Suspended pc') : GateInv w' where
  inj := by rw [gates]; exact inv.inj
  fresh := by rw [gates]; exact inv.fresh
  site susp closes' := by
    rw [gates]
    rcases suspended _ susp with rfl | earlier
    · rw [closes] at closes'
      cases closes'
      exact site
    · exact inv.site earlier closes'
  bound susp := by
    rw [gates]
    rcases suspended _ susp with rfl | earlier
    · cases closes
      exact bound
    · exact inv.bound earlier
  armed := by rw [gates]; exact inv.armed
  dead susp := by
    rw [gates]
    rcases suspended _ susp with rfl | earlier
    · cases closes
      exact dead rfl
    · exact inv.dead earlier

/-- The last segment of `close_agent` keeps the invariant: the table it clears is not open under
any other socket. -/
theorem GateInv.of_close {w w' : World} (inv : GateInv w) {g : Addr} {fd : Fd} {c : Ref}
    (only : ∀ {sock}, w.shared.gates.connection sock = some c → sock = (g, fd))
    (gates : w'.shared.gates = Gate.forget (Gate.clearAgentField w.shared.gates c) g fd)
    (suspended : ∀ pc, pc.closes ≠ none → w'.Suspended pc → w.Suspended pc) : GateInv w' := by
  have less : ∀ {sock c'}, w'.shared.gates.connection sock = some c' →
      w.shared.gates.connection sock = some c' ∧ c' ≠ c := by
    intro sock c' opened
    rw [gates] at opened
    obtain ⟨elsewhere, before⟩ := Gate.connection_of_forget opened
    refine ⟨before, ?_⟩
    rintro rfl
    exact elsewhere (only before)
  have conn : ∀ {c'}, c' ≠ c → w'.shared.gates.conn c' = w.shared.gates.conn c' := by
    intro c' other
    rw [gates]
    simp [Gate.forget, Gate.clearAgentField, Function.update_of_ne other]
  have nextRef : w'.shared.gates.nextRef = w.shared.gates.nextRef := by rw [gates]; rfl
  exact {
    inj := fun one other => inv.inj (less one).1 (less other).1
    fresh := fun opened => by rw [nextRef]; exact inv.fresh (less opened).1
    site := fun susp closes => by
      have ⟨old, only⟩ := inv.site (suspended _ (by simp [closes]) susp) closes
      exact ⟨by rw [nextRef]; exact old, fun opened => only (less opened).1⟩
    bound := fun {_ _ c'} susp => by
      have before := inv.bound (suspended _ (by simp [Pc.closes]) susp)
      by_cases here : c' = c
      · subst here
        rw [gates]
        simpa [Gate.forget, Gate.clearAgentField] using before
      · rw [conn here]
        exact before
    armed := fun opened session => inv.armed (less opened).1 (by
      rw [← conn (less opened).2]
      exact session)
    dead := fun susp sock opened =>
      inv.dead (suspended _ (by simp [Pc.closes]) susp) sock (less opened).1 }

/-- A segment that does not stop inside `close_agent` suspends nothing there. -/
theorem suspended_of_quiet {w : World} {id : Nat} {o : Ora} {s' : Shared} {a a' : Act}
    (found : w.acts id = some a) (adv : code.advance o w.shared a = some (s', a'))
    (quiet : a'.stopped.bind Pc.closes = none) :
    ∀ pc, pc.closes ≠ none → World.Suspended ⟨s', Function.update w.acts id (some a')⟩ pc →
      w.Suspended pc := by
  intro pc closes susp
  rcases susp.of_advance found adv with ⟨q, st, stopped⟩ | earlier
  · rw [stopped] at quiet
    exact (closes quiet).elim
  · exact earlier

theorem GateInv.advance {w : World} (inv : GateInv w) {id : Nat} {o : Ora} {s' : Shared}
    {a a' : Act} (found : w.acts id = some a)
    (adv : code.advance o w.shared a = some (s', a')) :
    GateInv ⟨s', Function.update w.acts id (some a')⟩ := by
  have quiet := suspended_of_quiet found adv
  have stopped : ∀ {q pc st}, a' = .calling q (pc :: st) → ∀ pc',
      World.Suspended ⟨s', Function.update w.acts id (some a')⟩ pc' →
      pc' = pc ∨ w.Suspended pc' := by
    rintro q pc st rfl pc' susp
    rcases susp.of_advance found adv with ⟨q', st', same⟩ | earlier
    · cases same
      exact .inl rfl
    · exact .inr earlier
  cases moved_of_advance adv with
  | login => exact inv.of_sub rfl (quiet rfl)
  | center served =>
      exact inv.of_sub rfl (quiet (by cases served <;> rfl))
  | gate served =>
      cases served with
      | bound opened => exact inv.of_bind (by simp) rfl (quiet rfl)
      | clearing _ => exact inv.of_sub rfl (quiet rfl)
      | forgotten _ => exact inv.of_forget rfl (quiet rfl)
      | closing opened stored =>
          exact inv.of_enter rfl rfl ⟨inv.fresh opened, fun other => inv.inj other opened⟩
            (by simp [stored]) (by simp) (stopped rfl)
  | pool served => exact inv.of_sub rfl (quiet (by cases served <;> rfl))
  | agent served => exact inv.of_sub rfl (quiet (by cases served <;> rfl))
  | outside answered =>
      cases answered <;> exact inv.of_sub rfl (quiet rfl)
  | loginBack resumed =>
      exact inv.of_sub rfl (quiet (by cases resumed <;> rfl))
  | centerBack resumed =>
      exact inv.of_sub rfl (quiet (by cases resumed <;> rfl))
  | gateBack resumed =>
      cases resumed with
      | failed => exact inv.of_sub rfl (quiet rfl)
      | @recycling g fd c v _ =>
          have here : w.Suspended (.gate (.closeLogout g fd c)) :=
            ⟨id, _, found, List.mem_cons_self⟩
          have bound := inv.bound here
          refine inv.of_enter rfl rfl (inv.site here rfl) bound ?_ (stopped rfl)
          intro unset sock opened
          obtain ⟨session, stored⟩ := Option.ne_none_iff_exists'.mp bound
          simp only [stored, Option.bind_some, Pc.gate.injEq, Gate.Pc.closeRecycle.injEq,
            true_and] at unset
          exact inv.armed opened stored unset
      | @closed g fd c agent v _ =>
          have here : w.Suspended (.gate (.closeRecycle g fd c agent)) :=
            ⟨id, _, found, List.mem_cons_self⟩
          exact inv.of_close (inv.site here rfl).2 rfl (quiet rfl)
      | clearing _ => exact inv.of_sub rfl (quiet rfl)
      | cleared _ => exact inv.of_sub rfl (quiet rfl)
  | poolBack _ => exact inv.of_sub rfl (quiet rfl)
  | agentBack _ => exact inv.of_sub rfl (quiet rfl)

/-- `handler.connect` keeps the invariant: nothing refers to the new table yet. -/
theorem GateInv.connect {w : World} (inv : GateInv w) {s' : Shared} {g : Addr} {fd : Fd}
    (gates : s'.gates = Gate.connect w.shared.gates g fd) : GateInv ⟨s', w.acts⟩ := by
  have split : ∀ {sock c}, s'.gates.connection sock = some c →
      (sock = (g, fd) ∧ c = w.shared.gates.nextRef) ∨
        (w.shared.gates.connection sock = some c ∧ c < w.shared.gates.nextRef) := by
    intro sock c opened
    rw [gates] at opened
    by_cases here : sock = (g, fd)
    · subst here
      simp only [Gate.connect, Function.update_self, Option.some.injEq] at opened
      exact .inl ⟨rfl, opened.symm⟩
    · simp only [Gate.connect, Function.update_of_ne here] at opened
      exact .inr ⟨opened, inv.fresh opened⟩
  have conn : ∀ {c}, c < w.shared.gates.nextRef → s'.gates.conn c = w.shared.gates.conn c := by
    intro c old
    rw [gates]
    exact Function.update_of_ne (Nat.ne_of_lt old) _ _
  have nextRef : s'.gates.nextRef = w.shared.gates.nextRef + 1 := by rw [gates]; rfl
  exact {
    inj := fun {sock sock' c} one other => by
      rcases split one with ⟨rfl, rfl⟩ | ⟨one, old⟩
      · rcases split other with ⟨rfl, -⟩ | ⟨-, old⟩
        · rfl
        · exact absurd old (Nat.lt_irrefl _)
      · rcases split other with ⟨-, rfl⟩ | ⟨other, -⟩
        · exact absurd old (Nat.lt_irrefl _)
        · exact inv.inj one other
    fresh := fun opened => by
      show _ < s'.gates.nextRef
      rw [nextRef]
      rcases split opened with ⟨-, rfl⟩ | ⟨-, old⟩
      · exact Nat.lt_succ_self _
      · exact Nat.lt_succ_of_lt old
    site := fun {pc g' fd' c} susp closes => by
      have ⟨old, only⟩ := inv.site (c := c) susp closes
      refine ⟨?_, fun opened => ?_⟩
      · show _ < s'.gates.nextRef
        rw [nextRef]
        exact Nat.lt_succ_of_lt old
      · rcases split opened with ⟨-, rfl⟩ | ⟨before, -⟩
        · exact absurd old (Nat.lt_irrefl _)
        · exact only before
    bound := fun {g' fd' c} susp => by
      show s'.gates.conn c ≠ none
      rw [conn (inv.site susp rfl).1]
      exact inv.bound susp
    armed := fun {sock c session} opened stored => by
      rcases split opened with ⟨-, rfl⟩ | ⟨before, old⟩
      · have empty : s'.gates.conn w.shared.gates.nextRef = none := by
          rw [gates]
          exact Function.update_self ..
        rw [empty] at stored
        cases stored
      · exact inv.armed before (by rw [← conn old]; exact stored)
    dead := fun {g' fd' c} susp sock opened => by
      rcases split opened with ⟨-, rfl⟩ | ⟨before, -⟩
      · exact absurd (inv.site susp rfl).1 (Nat.lt_irrefl _)
      · exact inv.dead susp sock before }

theorem GateInv.step {w w' : World} {e : Event Ora Env} (inv : GateInv w)
    (stepped : code.step w e = some w') : GateInv w' := by
  rcases Code.step_cases stepped with ⟨id, o, a, s', a', rfl, found, adv, rfl⟩ |
    ⟨id, x, s', -, happened, rfl⟩ | ⟨id, x, s', r, -, -, happened, rfl⟩
  · exact inv.advance found adv
  · rcases arrive_none happened with ⟨g, fd, -, -, rfl⟩ | ⟨g, fd, msg, -, rfl⟩
    · exact inv.connect rfl
    · exact inv
  · obtain ⟨rfl, -⟩ := arrive_some happened
    exact inv.of_sub rfl fun _ _ susp => susp.of_begin

/-- The gates' tables in every world reached. -/
theorem gateInv_of_reach {maxnum recyremove : Nat} {guard : World → Event Ora Env → Prop}
    {w : World} (reached : code.Reach guard (init maxnum recyremove) w) : GateInv w := by
  have idle : ∀ pc, ¬ (init maxnum recyremove).Suspended pc :=
    World.not_suspended fun _ => rfl
  refine reached.invariant ?_ (fun inv _ stepped => inv.step stepped)
  exact {
    inj := fun opened => by cases opened
    fresh := fun opened => by cases opened
    site := fun susp => (idle _ susp).elim
    bound := fun susp => (idle _ susp).elim
    armed := fun opened => by cases opened
    dead := fun susp => (idle _ susp).elim }

end RillServer.Cluster
