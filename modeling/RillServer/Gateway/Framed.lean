import RillServer.Gateway.Server

/-!
# Only frames reach the handler

The flag of a connection is read when a chunk is filtered and again when each of its packets is
dispatched. A request that is accepted changes it in between, so what follows the request in the
same chunk is cut at `"\r\n\r\n"` and then passed to `handler.message` (`request_delivered`).

Whatever is passed is the payload of a frame behind the accepted request, in every run in which the
bytes that follow an accepted request in its chunk are the beginning of a frame header without
`"\r\n\r\n"`, and no frame has a length that is -2 as an `int` (`only_frames`).
-/

namespace RillServer.GateServer

open Netpack

/-- The message was extracted as a frame, and is the payload of one behind the request that was
accepted. -/
structure Message.Framed (m : Message) : Prop where
  flag : m.handshake = false
  accepted : accepts m.request = true
  frame : ∃ rest, m.received = m.request ++ rest ∧ Payload rest m.msg

/-- Only frames reach the handler. -/
def OnlyFrames (guard : Server → Event → Prop) (maxclient : Int) : Prop :=
  ∀ s, Reach guard maxclient s → ∀ m ∈ s.messages, m.Framed

/-- How sockets behave: one that is open is not opened again, only one that is open sends, and it
sends at least one byte. -/
structure Sockets (s : Server) (e : Event) : Prop where
  opened : ∀ fd, e = .opened fd → s.stream fd = none
  data : ∀ fd chunk, e = .data fd chunk → s.stream fd ≠ none ∧ chunk ≠ []

/-- The bytes behind a request are the beginning of a frame header, and hold no other request. -/
structure BeginsFrame (rest : Bytes) : Prop where
  single : getHttpHeader rest = -1
  short : rest.length ≤ headersize
  waits : (readSize rest).size = -1

/-- A chunk with the end of an accepted request holds no more than the beginning of a frame header
behind it, and the frames that follow have no length that is -2 as an `int`. -/
structure SendsFrames (s : Server) (e : Event) : Prop where
  sockets : Sockets s e
  request : ∀ fd chunk received c (n : Nat), e = .data fd chunk → s.stream fd = some received →
    s.connection fd = some c → c.handshake = true → getHttpHeader (received ++ chunk) = n →
    n < maxHeadersize → accepts ((received ++ chunk).take n) = true →
    BeginsFrame ((received ++ chunk).drop n)
  frames : ∀ fd chunk received c, e = .data fd chunk → s.stream fd = some received →
    s.connection fd = some c → c.handshake = false →
    NoWrap ((received ++ chunk).drop (s.request fd).length)

/-! ## The invariant -/

structure ServerInv (s : Server) : Prop where
  drained : s.queue.packs = []
  few : ∀ fd, (s.queue.pending fd).length ≤ 1
  closed : ∀ fd, s.stream fd = none → s.queue.pending fd = []
  asks : ∀ fd c received, s.connection fd = some c → c.isconnect = true → c.handshake = true →
    s.stream fd = some received → Asks received (s.queue.pending fd)
  reads : ∀ fd c received, s.connection fd = some c → c.isconnect = true → c.handshake = false →
    s.stream fd = some received → accepts (s.request fd) = true ∧
      ∃ rest, received = s.request fd ++ rest ∧ Holds rest (s.queue.pending fd)
  framed : ∀ m ∈ s.messages, m.Framed

theorem ServerInv.init (maxclient : Int) : ServerInv (init maxclient) where
  drained := rfl
  few := fun _ => Nat.zero_le _
  closed := fun _ _ => rfl
  asks := nofun
  reads := nofun
  framed := nofun

/-- The entry of one connection goes. -/
theorem ServerInv.remove {s : Server} (inv : ServerInv s) (fd : Fd) : ServerInv (s.remove fd) := by
  have earlier : ∀ {fd' c}, (s.remove fd).connection fd' = some c → s.connection fd' = some c := by
    intro fd' c known
    unfold Server.remove at known
    split at known
    · exact known
    · by_cases here : fd' = fd
      · rw [here] at known
        simp at known
      · simpa only [Function.update_of_ne here] using known
  have same : (s.remove fd).queue = s.queue ∧ (s.remove fd).stream = s.stream ∧
      (s.remove fd).request = s.request ∧ (s.remove fd).messages = s.messages := by
    unfold Server.remove
    split <;> exact ⟨rfl, rfl, rfl, rfl⟩
  obtain ⟨queue, stream, request, messages⟩ := same
  refine ⟨?_, ?_, ?_, ?_, ?_, ?_⟩
  · rw [queue]
    exact inv.drained
  · rw [queue]
    exact inv.few
  · rw [queue, stream]
    exact inv.closed
  · rw [queue, stream]
    intro fd' c received known
    exact inv.asks fd' c received (earlier known)
  · rw [queue, stream, request]
    intro fd' c received known
    exact inv.reads fd' c received (earlier known)
  · rw [messages]
    exact inv.framed

/-- A socket is opened of which nothing is pending. -/
theorem ServerInv.opened {s : Server} (inv : ServerInv s) {fd : Fd} (fresh : s.stream fd = none) :
    ServerInv (s.opened fd) := by
  unfold Server.opened
  split
  · exact inv
  · have idle := inv.closed fd fresh
    refine ⟨inv.drained, inv.few, ?_, ?_, ?_, inv.framed⟩
    · intro fd' none
      by_cases here : fd' = fd
      · rw [here]
        exact idle
      · simp only [Function.update_of_ne here] at none
        exact inv.closed fd' none
    · intro fd' c received known live shakes sent
      by_cases here : fd' = fd
      · subst here
        simp only [Function.update_self, Option.some.injEq] at sent
        rw [idle]
        exact .nothing sent.symm
      · simp only [Function.update_of_ne here] at known sent
        exact inv.asks fd' c received known live shakes sent
    · intro fd' c received known live framed sent
      by_cases here : fd' = fd
      · subst here
        simp only [Function.update_self, Option.some.injEq] at known
        subst known
        cases framed
      · simp only [Function.update_of_ne here] at known sent ⊢
        exact inv.reads fd' c received known live framed sent

/-- A socket is closed. -/
theorem ServerInv.socketClosed {s : Server} (inv : ServerInv s) (fd : Fd) :
    ServerInv { s with
      queue := s.queue.closeUncomplete fd
      stream := Function.update s.stream fd none } := by
  have others : ∀ {fd'}, fd' ≠ fd →
      (s.queue.closeUncomplete fd).pending fd' = s.queue.pending fd' :=
    fun other => Queue.pending_findUncomplete_of_ne s.queue other
  have gone : (s.queue.closeUncomplete fd).pending fd = [] := by
    have one := inv.few fd
    rw [Queue.pending_closeUncomplete]
    cases records : s.queue.pending fd with
    | nil => rfl
    | cons uc ucs =>
        rw [records, List.length_cons] at one
        rw [List.tail_cons]
        exact List.length_eq_zero_iff.mp (by omega)
  refine ⟨inv.drained, ?_, ?_, ?_, ?_, inv.framed⟩
  · intro fd'
    by_cases here : fd' = fd
    · subst here
      simp only [gone]
      exact Nat.zero_le _
    · simp only [others here]
      exact inv.few fd'
  · intro fd' none
    by_cases here : fd' = fd
    · subst here
      exact gone
    · simp only [Function.update_of_ne here] at none
      simp only [others here]
      exact inv.closed fd' none
  · intro fd' c received known live shakes sent
    by_cases here : fd' = fd
    · subst here
      simp at sent
    · simp only [Function.update_of_ne here] at sent
      simp only [others here]
      exact inv.asks fd' c received known live shakes sent
  · intro fd' c received known live framed sent
    by_cases here : fd' = fd
    · subst here
      simp at sent
    · simp only [Function.update_of_ne here] at sent
      simp only [others here]
      exact inv.reads fd' c received known live framed sent

/-! ## A chunk -/

section Chunk

variable {s : Server} {fd : Fd} {flag : Bool} {events : List Netpack.Event}

/-- Packets of a socket without a connection are dropped. -/
theorem dispatch_dropped (unknown : ∀ c, s.connection fd = some c → c.isconnect = false)
    (own : ∀ event ∈ events, event.fd = fd) : events.foldl (Server.dispatch flag) s = s := by
  induction events with
  | nil => rfl
  | cons event events ih =>
      have kept : s.dispatch flag event = s := by
        cases event with
        | closed fd' => rfl
        | message fd' msg =>
            have same : fd' = fd := own _ List.mem_cons_self
            subst same
            simp only [Server.dispatch]
            unfold Server.dispatchMsg
            split
            · rfl
            · rename_i c known
              rw [unknown c known]
              rfl
      rw [List.foldl_cons, kept]
      exact ih fun event member => own event (List.mem_cons_of_mem _ member)

/-- Once a connection is closed, the rest of its packets is dropped. -/
theorem dispatch_closed (own : ∀ event ∈ events, event.fd = fd) :
    events.foldl (Server.dispatch flag) (s.closeclient fd) = s.closeclient fd := by
  refine dispatch_dropped ?_ own
  intro c known
  unfold Server.closeclient Server.remove at known
  split at known
  · rename_i none
    rw [none] at known
    cases known
  · simp at known

/-- The chunk has arrived: what is pending of its socket, and of no other, has changed. -/
structure Arrives (s : Server) (fd : Fd) (received : Bytes) (s' : Server) : Prop where
  drained : s'.queue.packs = []
  few : (s'.queue.pending fd).length ≤ 1
  others : ∀ fd' ≠ fd, s'.queue.pending fd' = s.queue.pending fd' ∧
    s'.connection fd' = s.connection fd' ∧ s'.request fd' = s.request fd'
  stream : s'.stream = Function.update s.stream fd (some received)

/-- The invariant holds again, if it does for the socket. -/
theorem Arrives.inv {received : Bytes} {s' : Server} (arrives : Arrives s fd received s')
    (inv : ServerInv s)
    (asks : ∀ c, s'.connection fd = some c → c.isconnect = true → c.handshake = true →
      Asks received (s'.queue.pending fd))
    (reads : ∀ c, s'.connection fd = some c → c.isconnect = true → c.handshake = false →
      accepts (s'.request fd) = true ∧
        ∃ rest, received = s'.request fd ++ rest ∧ Holds rest (s'.queue.pending fd))
    (framed : ∀ m ∈ s'.messages, m.Framed) : ServerInv s' where
  drained := arrives.drained
  few := by
    intro fd'
    by_cases here : fd' = fd
    · rw [here]
      exact arrives.few
    · rw [(arrives.others fd' here).1]
      exact inv.few fd'
  closed := by
    intro fd' none
    rw [arrives.stream] at none
    by_cases here : fd' = fd
    · subst here
      simp at none
    · rw [Function.update_of_ne here] at none
      rw [(arrives.others fd' here).1]
      exact inv.closed fd' none
  asks := by
    intro fd' c received' known live shakes sent
    rw [arrives.stream] at sent
    by_cases here : fd' = fd
    · subst here
      rw [Function.update_self, Option.some.injEq] at sent
      subst sent
      exact asks c known live shakes
    · obtain ⟨pending, connection, -⟩ := arrives.others fd' here
      rw [Function.update_of_ne here] at sent
      rw [connection] at known
      rw [pending]
      exact inv.asks fd' c received' known live shakes sent
  reads := by
    intro fd' c received' known live shakes sent
    rw [arrives.stream] at sent
    by_cases here : fd' = fd
    · subst here
      rw [Function.update_self, Option.some.injEq] at sent
      subst sent
      exact reads c known live shakes
    · obtain ⟨pending, connection, request⟩ := arrives.others fd' here
      rw [Function.update_of_ne here] at sent
      rw [connection] at known
      rw [pending, request]
      exact inv.reads fd' c received' known live shakes sent
  framed := framed

/-- The packets of a chunk have been dispatched: the connection may have been closed, and what was
passed on is framed. -/
structure Delivers (fd : Fd) (s s' : Server) : Prop where
  queue : s'.queue = s.queue
  stream : s'.stream = s.stream
  request : s'.request = s.request
  others : ∀ fd' ≠ fd, s'.connection fd' = s.connection fd'
  connection : s'.connection fd = s.connection fd ∨ s'.connection fd = none
  messages : ∀ m ∈ s'.messages, m ∈ s.messages ∨ m.Framed

theorem delivers_closeclient : Delivers fd s (s.closeclient fd) := by
  unfold Server.closeclient Server.remove
  split
  · exact ⟨rfl, rfl, rfl, fun _ _ => rfl, .inl rfl, fun _ member => .inl member⟩
  · exact ⟨rfl, rfl, rfl, fun _ other => Function.update_of_ne other _ _,
      .inr (Function.update_self ..), fun _ member => .inl member⟩

/-- Packets of a connection that is behind its handshake. -/
theorem dispatch_frames {c : Connection} {rest : Bytes} (known : s.connection fd = some c)
    (live : c.isconnect = true) (framing : c.handshake = false)
    (sent : s.stream fd = some (s.request fd ++ rest)) (accepted : accepts (s.request fd) = true)
    (good : ∀ event ∈ events,
      event = .closed fd ∨ ∃ packet, event = .message fd packet ∧ Packet rest packet) :
    Delivers fd s (events.foldl (Server.dispatch false) s) := by
  induction events generalizing s with
  | nil => exact ⟨rfl, rfl, rfl, fun _ _ => rfl, .inl rfl, fun _ member => .inl member⟩
  | cons event events ih =>
      obtain ⟨first, later⟩ := List.forall_mem_cons.mp good
      rw [List.foldl_cons]
      rcases first with rfl | ⟨packet, rfl, read⟩
      · exact ih known sent accepted later
      · simp only [Server.dispatch, Server.dispatchMsg, known, live, framing, if_true,
          Bool.false_eq_true, if_false]
        split
        next =>
          have own : ∀ event ∈ events, event.fd = fd := by
            intro event member
            rcases later event member with rfl | ⟨packet', rfl, -⟩ <;> rfl
          rw [dispatch_closed own]
          exact delivers_closeclient
        next short =>
          have delivers := ih (s := { s with messages := s.messages ++
            [⟨fd, packet, false, (s.stream fd).getD [], s.request fd⟩] }) known sent accepted later
          refine ⟨delivers.queue, delivers.stream, delivers.request, delivers.others,
            delivers.connection, ?_⟩
          intro m member
          rcases delivers.messages m member with earlier | framed
          · rcases List.mem_append.mp earlier with before | new
            · exact .inl before
            · obtain rfl := List.mem_singleton.mp new
              refine .inr ⟨rfl, accepted, rest, ?_, read.payload (not_le.mp short)⟩
              rw [sent]
              rfl
          · exact .inr framed

end Chunk

section Data

variable {s : Server} {fd : Fd} {received : Bytes} {queue : Queue} {events : List Netpack.Event}

/-- The state after a chunk was filtered, before its packets are dispatched. -/
def Server.filtered (s : Server) (fd : Fd) (received : Bytes) (queue : Queue) : Server :=
  { s with queue, stream := Function.update s.stream fd (some received) }

theorem arrives_filtered (drained : queue.packs = []) (few : (queue.pending fd).length ≤ 1)
    (others : ∀ fd' ≠ fd, queue.pending fd' = s.queue.pending fd') :
    Arrives s fd received (s.filtered fd received queue) :=
  ⟨drained, few, fun fd' other => ⟨others fd' other, rfl, rfl⟩, rfl⟩

theorem Arrives.delivers {s' s'' : Server} (arrives : Arrives s fd received s')
    (delivers : Delivers fd s' s'') : Arrives s fd received s'' where
  drained := by
    rw [delivers.queue]
    exact arrives.drained
  few := by
    rw [delivers.queue]
    exact arrives.few
  others := by
    intro fd' other
    obtain ⟨pending, connection, request⟩ := arrives.others fd' other
    rw [delivers.queue, delivers.request, delivers.others fd' other]
    exact ⟨pending, connection, request⟩
  stream := delivers.stream.trans arrives.stream

/-- The connection has been closed. -/
theorem Arrives.gone {s' : Server} (arrives : Arrives s fd received s') (inv : ServerInv s)
    (unknown : ∀ c, s'.connection fd = some c → c.isconnect = false)
    (framed : ∀ m ∈ s'.messages, m.Framed) : ServerInv s' := by
  refine arrives.inv inv ?_ ?_ framed
  · intro c known live
    rw [unknown c known] at live
    cases live
  · intro c known live
    rw [unknown c known] at live
    cases live

theorem Arrives.closeclient {s' : Server} (arrives : Arrives s fd received s') (inv : ServerInv s)
    (framed : ∀ m ∈ s'.messages, m.Framed) : ServerInv (s'.closeclient fd) := by
  have delivers : Delivers fd s' (s'.closeclient fd) := delivers_closeclient
  refine (arrives.delivers delivers).gone inv ?_ ?_
  · intro c known
    unfold Server.closeclient Server.remove at known
    split at known
    · rename_i none
      rw [none] at known
      cases known
    · simp at known
  · intro m member
    rcases delivers.messages m member with earlier | framed'
    · exact framed m earlier
    · exact framed'

/-- The chunk belongs to a connection in its handshake. -/
theorem ServerInv.handshake (inv : ServerInv s) {c : Connection}
    (arrives : Arrives s fd received (s.filtered fd received queue))
    (own : ∀ event ∈ events, event.fd = fd) (known : s.connection fd = some c)
    (live : c.isconnect = true) (shakes : c.handshake = true)
    (asked : Asked received fd (queue.pending fd) events)
    (alone : ∀ n : Nat, getHttpHeader received = n → n < maxHeadersize →
      accepts (received.take n) = true → BeginsFrame (received.drop n)) :
    ServerInv (events.foldl (Server.dispatch true) (s.filtered fd received queue)) := by
  cases asked with
  | waits missing asks =>
      refine arrives.inv inv (fun _ _ _ _ => asks) ?_ inv.framed
      intro c' known' _ framing
      have same : c = c' := Option.some.inj (known.symm.trans known')
      rw [← same, shakes] at framing
      cases framing
  | @request n later found rest =>
      have bounds := getHttpHeader_bounds received
      have length : (received.take n).length = n := by
        rw [List.length_take]
        omega
      have own' : ∀ event ∈ later, event.fd = fd :=
        fun event member => own event (List.mem_cons_of_mem _ member)
      have entry : (s.filtered fd received queue).connection fd = some c := known
      rw [List.foldl_cons]
      simp only [Server.dispatch, Server.dispatchMsg, entry, live, shakes, if_true, length]
      split
      next =>
        rw [dispatch_closed own']
        exact arrives.closeclient inv inv.framed
      next short =>
        split
        next accepted =>
          obtain ⟨single, fits, waits⟩ := alone n found (not_le.mp short) accepted
          obtain ⟨rfl, pending⟩ := rest single fits
          have parts : received = received.take n ++ received.drop n :=
            (List.take_append_drop n received).symm
          refine Arrives.inv (s := s) ⟨arrives.drained, arrives.few, ?_, arrives.stream⟩ inv ?_ ?_
            inv.framed
          · intro fd' other
            obtain ⟨kept, connection, request⟩ := arrives.others fd' other
            refine ⟨kept, ?_, ?_⟩
            · exact (Function.update_of_ne other _ _).trans connection
            · exact (Function.update_of_ne other _ _).trans request
          · intro c' known' _ shakes'
            simp only [List.foldl_nil, Function.update_self, Option.some.injEq] at known'
            rw [← known'] at shakes'
            cases shakes'
          · intro c' _ _ _
            simp only [List.foldl_nil, Function.update_self]
            refine ⟨accepted, received.drop n, parts, ?_⟩
            have holds : Holds (received.drop n) (queue.pending fd) := by
              rw [pending]
              split
              next none =>
                rw [none]
                exact .nothing .start
              next => exact .header .start (Nat.zero_le _) waits
            exact holds
        next =>
          rw [dispatch_closed own']
          exact arrives.closeclient inv inv.framed

/-- The chunk belongs to a connection behind its handshake. -/
theorem ServerInv.frames (inv : ServerInv s) {c : Connection} {rest : Bytes}
    (arrives : Arrives s fd received (s.filtered fd received queue))
    (known : s.connection fd = some c) (live : c.isconnect = true) (framing : c.handshake = false)
    (split : received = s.request fd ++ rest) (accepted : accepts (s.request fd) = true)
    (holds : Holds rest (queue.pending fd))
    (good : ∀ event ∈ events,
      event = .closed fd ∨ ∃ packet, event = .message fd packet ∧ Packet rest packet) :
    ServerInv (events.foldl (Server.dispatch false) (s.filtered fd received queue)) := by
  have sent : (s.filtered fd received queue).stream fd =
      some ((s.filtered fd received queue).request fd ++ rest) := by
    rw [Server.filtered, ← split]
    exact Function.update_self ..
  have delivers := dispatch_frames (s := s.filtered fd received queue) known live framing sent
    accepted good
  refine (arrives.delivers delivers).inv inv ?_ ?_ ?_
  · intro c' known' _ shakes
    rcases delivers.connection with same | none
    · rw [same] at known'
      have same' : c = c' := Option.some.inj (known.symm.trans known')
      rw [← same', framing] at shakes
      cases shakes
    · rw [none] at known'
      cases known'
  · intro c' _ _ _
    rw [delivers.queue, delivers.request]
    exact ⟨accepted, rest, split, holds⟩
  · intro m member
    rcases delivers.messages m member with earlier | framed
    · exact inv.framed m earlier
    · exact framed

/-- A chunk arrives. -/
theorem ServerInv.data {s' : Server} {chunk : Bytes} (inv : ServerInv s)
    (safe : SendsFrames s (.data fd chunk)) (stepped : s.data fd chunk = some s') :
    ServerInv s' := by
  obtain ⟨isOpen, nonempty⟩ := safe.sockets.data fd chunk rfl
  obtain ⟨received, sent⟩ := Option.ne_none_iff_exists'.mp isOpen
  unfold Server.data at stepped
  split at stepped
  next => cases stepped
  next queue events filtered =>
    cases stepped
    obtain ⟨drained, few, others, own⟩ := filter_concerns inv.drained (inv.few fd) filtered
    have arrives : Arrives s fd (received ++ chunk) (s.filtered fd (received ++ chunk) queue) :=
      arrives_filtered drained few others
    rw [sent, Option.map_some]
    change ServerInv (events.foldl (Server.dispatch (s.flag fd))
      (s.filtered fd (received ++ chunk) queue))
    by_cases unknown : ∀ c, s.connection fd = some c → c.isconnect = false
    · rw [dispatch_dropped (s := s.filtered fd (received ++ chunk) queue) unknown own]
      exact arrives.gone inv unknown inv.framed
    · simp only [not_forall, Bool.not_eq_false] at unknown
      obtain ⟨c, known, live⟩ := unknown
      have flag : s.flag fd = c.handshake := by
        simp only [Server.flag, known, live, if_true]
      rw [flag] at filtered ⊢
      cases shakes : c.handshake with
      | true =>
          rw [shakes] at filtered
          have asked := filter_asks (inv.asks fd c received known live shakes sent) nonempty
            inv.drained filtered
          apply inv.handshake arrives own known live shakes asked
          intro n found short accepted
          exact safe.request fd chunk received c n rfl sent known shakes found short accepted
      | false =>
          rw [shakes] at filtered
          obtain ⟨accepted, rest, split, holds⟩ := inv.reads fd c received known live shakes sent
          have behind : (received ++ chunk).drop (s.request fd).length = rest ++ chunk := by
            rw [split, List.append_assoc, List.drop_left]
          have wraps := safe.frames fd chunk received c rfl sent known shakes
          rw [behind] at wraps
          obtain ⟨later, good⟩ := filter_reads holds wraps nonempty inv.drained filtered
          refine inv.frames arrives known live shakes ?_ accepted later good
          rw [split, List.append_assoc]

end Data

theorem ServerInv.step {s s' : Server} {e : Event} (inv : ServerInv s) (safe : SendsFrames s e)
    (stepped : step s e = some s') : ServerInv s' := by
  cases e with
  | opened fd =>
      cases stepped
      exact inv.opened (safe.sockets.opened fd rfl)
  | data fd chunk => exact inv.data safe stepped
  | closed fd =>
      cases stepped
      exact inv.socketClosed fd
  | closeclient fd =>
      cases stepped
      exact inv.remove fd
  | closeFd fd =>
      cases stepped
      exact inv.remove fd

/-- **Only frames reach the handler** as long as clients wait with their frames. -/
theorem only_frames (maxclient : Int) : OnlyFrames SendsFrames maxclient := by
  intro s reached
  have inv : ServerInv s := by
    induction reached with
    | refl => exact .init maxclient
    | tail _ stepped ih =>
        obtain ⟨e, safe, step⟩ := stepped
        exact ih.step safe step
  exact inv.framed

/-- A request that opens a WebSocket. -/
def upgrade : Bytes :=
  ascii "GET / HTTP/1.1\r\nUpgrade: websocket\r\nConnection: Upgrade\r\n" ++
    ascii "Sec-WebSocket-Version: 13\r\nSec-WebSocket-Key: x\r\n\r\n"

/-- Another request. -/
def second : Bytes := ascii "GET / HTTP/1.1\r\n\r\n"

/-- A socket sends two requests in one chunk, and the second one is passed on. -/
theorem request_delivered : ¬ ∀ maxclient, OnlyFrames Sockets maxclient := by
  intro only
  have accepted : accepts upgrade = true := by decide +kernel
  have first : getHttpHeader (upgrade ++ second) = upgrade.length := by decide +kernel
  have other : getHttpHeader second = second.length := by decide +kernel
  have short : ¬ upgrade.length ≥ maxHeadersize := by decide +kernel
  have shorter : ¬ second.length ≥ maxPacksize := by decide +kernel
  have nonempty : upgrade ++ second ≠ [] := by decide +kernel
  obtain ⟨queue, filtered⟩ : ∃ queue, filter true 7 .empty (upgrade ++ second) =
      .ok (queue, [.message 7 upgrade, .message 7 second]) :=
    filter_two_requests rfl rfl first other
  have opening : Sockets (init 1) (.opened 7) := ⟨fun _ _ => rfl, nofun⟩
  have sending : Sockets ((init 1).opened 7) (.data 7 (upgrade ++ second)) := by
    refine ⟨nofun, ?_⟩
    intro fd chunk same
    cases same
    exact ⟨by simp [init, Server.opened], nonempty⟩
  have delivered : ∃ s, ((init 1).opened 7).data 7 (upgrade ++ second) = some s ∧
      ⟨7, second, true, upgrade ++ second, upgrade⟩ ∈ s.messages := by
    have flag : ((init 1).opened 7).flag 7 = true := by simp [init, Server.opened, Server.flag]
    have empty : ((init 1).opened 7).queue = Queue.empty := by simp [init, Server.opened]
    simp only [Server.data, flag, empty, filtered]
    refine ⟨_, rfl, ?_⟩
    simp [init, Server.opened, Server.dispatch, Server.dispatchMsg, short, accepted, shorter]
  obtain ⟨s, stepped, member⟩ := delivered
  have reached : Reach Sockets 1 s := by
    refine .tail (.tail .refl ⟨.opened 7, opening, rfl⟩) ⟨.data 7 (upgrade ++ second), sending, ?_⟩
    exact stepped
  have flag := (only 1 s reached _ member).flag
  cases flag

end RillServer.GateServer
