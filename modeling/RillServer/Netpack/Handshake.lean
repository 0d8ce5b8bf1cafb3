import Mathlib.Data.List.Infix
import RillServer.Netpack.Decode
import RillServer.Netpack.Faults

/-!
# A request is extracted wherever it is cut

The chunks of a request go through the filter with the flag of the handshake, among chunks of other
sockets, which may be any. The request is delivered once, by the chunk that ends it, unless the
filter fails before at a chunk of another socket (`handshake_any_segmentation`).
-/

namespace RillServer.Netpack

/-- `"\r\n\r\n"`. -/
def crlfcrlf : Bytes := [13, 10, 13, 10]

/-- A request that fits in a header: it ends with the first `"\r\n\r\n"`. -/
structure Request where
  bytes : Bytes
  short : bytes.length ≤ headersize
  ends : crlfcrlf <:+ bytes
  first : ∀ p, p <+: bytes → p ≠ bytes → ¬ crlfcrlf <:+: p

/-- `get_http_header` finds no end exactly when there is none. -/
theorem getHttpHeader_eq_iff (bytes : Bytes) :
    getHttpHeader bytes = -1 ↔ ¬ crlfcrlf <:+: bytes := by
  induction bytes with
  | nil => exact iff_of_true rfl (by simp [crlfcrlf])
  | cons b bytes ih =>
    have here : (b :: bytes).take 4 = [13, 10, 13, 10] ↔ crlfcrlf <+: b :: bytes := by
      rw [List.prefix_iff_eq_take, eq_comm]
      rfl
    rw [getHttpHeader_cons, List.infix_cons_iff, ← here, not_or, ← ih]
    by_cases starts : (b :: bytes).take 4 = [13, 10, 13, 10]
    · rw [if_pos starts]
      exact iff_of_false (by decide) (fun both => both.1 starts)
    · rw [if_neg starts, and_iff_right starts]
      rcases getHttpHeader_bounds bytes with missing | ⟨found, inside⟩
      · rw [missing]
        exact iff_of_true rfl rfl
      · rw [if_neg (by omega)]
        exact iff_of_false (by omega) (by omega)

namespace Request

variable (r : Request)

theorem missing {p : Bytes} (initial : p <+: r.bytes) (proper : p ≠ r.bytes) :
    getHttpHeader p = -1 :=
  (getHttpHeader_eq_iff p).mpr (r.first p initial proper)

theorem ne_nil : r.bytes ≠ [] := by
  intro none
  have ends := r.ends.length_le
  rw [none] at ends
  exact absurd ends (by decide)

theorem found : getHttpHeader r.bytes = r.bytes.length := by
  rcases List.eq_nil_or_concat r.bytes with none | ⟨front, last, whole⟩
  · exact absurd none r.ne_nil
  · rw [List.concat_eq_append] at whole
    have initial : front <+: r.bytes := ⟨[last], whole.symm⟩
    have shorter : front ≠ r.bytes := by
      intro same
      have lengths := congrArg List.length whole
      rw [← same, List.length_append, List.length_singleton] at lengths
      omega
    have known : getHttpHeader r.bytes ≠ -1 := by
      rw [Ne, getHttpHeader_eq_iff, not_not]
      exact r.ends.isInfix
    rw [whole] at known ⊢
    rcases getHttpHeader_snoc (r.missing initial shorter) last with missing | found
    · exact absurd missing known
    · rw [found, List.length_append]
      rfl

/-- The records of a socket that has received the first bytes of a request. -/
def pendingAfter (bytes : Bytes) : List Uncomplete :=
  if bytes = [] ∨ bytes = r.bytes then [] else [.header bytes]

/-- What was delivered of it. -/
def delivered (fd : Fd) (bytes : Bytes) : List Event :=
  if bytes = r.bytes then [.message fd r.bytes] else []

theorem pendingAfter_part {bytes : Bytes} (some : bytes ≠ []) (proper : bytes ≠ r.bytes) :
    r.pendingAfter bytes = [.header bytes] :=
  if_neg (not_or.mpr ⟨some, proper⟩)

theorem pendingAfter_whole : r.pendingAfter r.bytes = [] := if_pos (.inr rfl)

theorem delivered_part (fd : Fd) {bytes : Bytes} (proper : bytes ≠ r.bytes) :
    r.delivered fd bytes = [] :=
  if_neg proper

theorem delivered_whole (fd : Fd) : r.delivered fd r.bytes = [.message fd r.bytes] := if_pos rfl

theorem short_of_prefix {bytes : Bytes} (initial : bytes <+: r.bytes) :
    bytes.length ≤ headersize :=
  initial.length_le.trans r.short

/-! ## One chunk -/

section Chunk

variable {r} {fd : Fd} {q : Queue} {header chunk : Bytes}

theorem fresh_part (initial : chunk <+: r.bytes) (proper : chunk ≠ r.bytes) :
    filterFresh true fd q chunk = .ok ((q.log []).saveUncomplete fd (.header chunk), .queue) := by
  have fits : chunk.take headersize = chunk := List.take_of_length_le (r.short_of_prefix initial)
  unfold filterFresh
  simp only [nextHead_handshake, r.missing initial proper, if_true, savedHeader_handshake, fits]

theorem fresh_whole : filterFresh true fd q r.bytes = .ok (q.log [], .data fd r.bytes) := by
  unfold filterFresh
  have first : (r.bytes.length : Int) ≠ -1 := by omega
  have second : (r.bytes.length : Int) ≠ -3 := by omega
  simp only [nextHead_handshake, r.found, if_neg first, if_neg second, Bool.true_eq_false,
    and_false, if_false, List.drop_zero, malloc_natCast, if_true, List.take_length, decodeWsmaskData]

/-- The loop stays within the header, as the request does. -/
theorem fillHeader_ok (initial : header ++ chunk <+: r.bytes) (some : chunk ≠ []) :
    ∃ fill, fillHeader true header chunk = .ok fill := by
  cases ran : fillHeader true header chunk with
  | ok fill => exact ⟨fill, rfl⟩
  | error fault =>
    obtain rfl := fillHeader_fault ran
    have length := r.short_of_prefix initial
    have pos := List.length_pos_iff.mpr some
    rw [List.length_append] at length
    obtain ⟨-, full | ⟨long, -⟩⟩ := fillHeader_request_overflow_iff.mp ran
    · omega
    · rw [List.length_append] at long
      omega

theorem header_missing (initial : header ++ chunk <+: r.bytes) (some : chunk ≠ []) :
    header ≠ r.bytes ∧ getHttpHeader header = -1 := by
  have earlier : header <+: r.bytes := (List.prefix_append header chunk).trans initial
  have proper : header ≠ r.bytes := by
    intro same
    have length := initial.length_le
    have pos := List.length_pos_iff.mpr some
    rw [List.length_append, same] at length
    omega
  exact ⟨proper, r.missing earlier proper⟩

theorem header_part (initial : header ++ chunk <+: r.bytes) (some : chunk ≠ [])
    (proper : header ++ chunk ≠ r.bytes) :
    ∃ reads, filterHeader true fd q header chunk =
      .ok ((q.log reads).saveUncomplete fd (.header (header ++ chunk)), .queue) := by
  obtain ⟨fill, ran⟩ := fillHeader_ok initial some
  have none := r.missing initial proper
  refine ⟨fill.reads, ?_⟩
  rcases fillHeader_asks (header_missing initial some).2 some ran with
    ⟨-, size, left⟩ | ⟨n, found, -⟩
  · simp only [filterHeader, ran, size, left, if_true]
  · rw [none] at found
    omega

theorem header_whole (whole : header ++ chunk = r.bytes) (some : chunk ≠ []) :
    ∃ reads, filterHeader true fd q header chunk = .ok (q.log reads, .data fd r.bytes) := by
  have initial : header ++ chunk <+: r.bytes := ⟨[], (List.append_nil _).trans whole⟩
  obtain ⟨fill, ran⟩ := fillHeader_ok initial some
  refine ⟨fill.reads, ?_⟩
  rcases fillHeader_asks (header_missing initial some).2 some ran with
    ⟨none, -⟩ | ⟨n, found, head, left, rest⟩
  · rw [whole, r.found] at none
    omega
  · rw [whole] at found left rest
    obtain rfl : r.bytes.length = n := by
      rw [r.found] at found
      exact Int.ofNat_inj.mp found
    have first : (r.bytes.length : Int) ≠ -1 := by omega
    have second : (r.bytes.length : Int) ≠ -3 := by omega
    simp only [filterHeader, ran, head, left, rest, if_neg first, if_neg second, malloc_natCast,
      if_true, List.take_length, List.drop_length, fillBody, Nat.sub_self, List.length_nil,
      Nat.lt_irrefl, if_false, List.take_nil, List.drop_nil, decodeWsmaskData, List.append_nil]

end Chunk

/-- A socket has sent the first bytes of the request, and nothing but these. -/
structure Asking (r : Request) (fd : Fd) (q : Queue) (bytes : Bytes) : Prop where
  pending : q.pending fd = r.pendingAfter bytes
  drained : q.packs = []

variable {r} {fd : Fd} {q q' : Queue} {bytes chunk : Bytes} {events : List Event}

/-- One chunk of the request. -/
theorem filterData_request (asking : Asking r fd q bytes) (some : chunk ≠ [])
    (initial : bytes ++ chunk <+: r.bytes) :
    ∃ q' reply, filterData true fd q chunk = .ok (q', reply) ∧
      reply.events = r.delivered fd (bytes ++ chunk) ∧ Asking r fd q' (bytes ++ chunk) := by
  have pending := asking.pending
  have drained := asking.drained
  have more : bytes ++ chunk ≠ [] := by simp [some]
  have idle : (q.findUncomplete fd).2.pending fd = [] := by
    rw [Queue.pending_findUncomplete, pending, pendingAfter]
    split <;> rfl
  have saved : ∀ reads, (((q.findUncomplete fd).2.log reads).saveUncomplete fd
      (.header (bytes ++ chunk))).pending fd = [.header (bytes ++ chunk)] := by
    intro reads
    rw [Queue.pending_saveUncomplete, Queue.pending_log, idle]
  by_cases nothing : bytes = []
  · subst nothing
    rw [filterData_fresh (by rw [pending]; exact if_pos (.inl rfl))]
    rw [List.nil_append] at initial more saved ⊢
    by_cases whole : chunk = r.bytes
    · subst whole
      refine ⟨_, _, fresh_whole, (r.delivered_whole fd).symm, ?_, drained⟩
      rw [r.pendingAfter_whole]
      exact idle
    · refine ⟨_, _, fresh_part initial whole, (r.delivered_part fd whole).symm, ?_, drained⟩
      rw [r.pendingAfter_part more whole]
      exact saved []
  · rw [r.pendingAfter_part nothing (header_missing initial some).1] at pending
    rw [filterData_header pending]
    by_cases whole : bytes ++ chunk = r.bytes
    · obtain ⟨reads, ran⟩ := header_whole (q := (q.findUncomplete fd).2) whole some
      rw [whole]
      refine ⟨_, _, ran, (r.delivered_whole fd).symm, ?_, drained⟩
      rw [r.pendingAfter_whole]
      exact idle
    · obtain ⟨reads, ran⟩ := header_part (q := (q.findUncomplete fd).2) initial some whole
      refine ⟨_, _, ran, (r.delivered_part fd whole).symm, ?_, drained⟩
      rw [r.pendingAfter_part more whole]
      exact saved reads

theorem filter_request (asking : Asking r fd q bytes) (some : chunk ≠ [])
    (initial : bytes ++ chunk <+: r.bytes) :
    ∃ q', filter true fd q chunk = .ok (q', r.delivered fd (bytes ++ chunk)) ∧
      Asking r fd q' (bytes ++ chunk) := by
  obtain ⟨q₁, reply, ran, events, asking⟩ :=
    filterData_request (q := { q with reads := [] }) ⟨asking.pending, asking.drained⟩ some initial
  obtain ⟨q', filtered, empty, pending, -⟩ := filter_of_filterData ran
  refine ⟨q', ?_, (pending fd).trans asking.pending, empty⟩
  rw [filtered, events, asking.drained, List.map_nil, List.append_nil]

/-- A chunk of another socket. -/
theorem filter_other {handshake : Bool} {other : Fd} (asking : Asking r fd q bytes)
    (different : other ≠ fd) (filtered : filter handshake other q chunk = .ok (q', events)) :
    eventsOf fd events = [] ∧ Asking r fd q' bytes := by
  cases ran : filterData handshake other { q with reads := [] } chunk with
  | error fault =>
    simp only [filter, ran] at filtered
    cases filtered
  | ok result =>
    obtain ⟨q₁, reply⟩ := result
    obtain ⟨edits, answers⟩ := filterData_concerns ran
    obtain ⟨q₂, same, empty, pending, -⟩ := filter_of_filterData ran
    rw [filtered] at same
    cases same
    refine ⟨?_, ?_, empty⟩
    · obtain ⟨packs, queued, own⟩ := edits.packs
      have before : Queue.packs { q with reads := [] } = [] := asking.drained
      rw [Queue.packs_findUncomplete, before, List.nil_append] at queued
      rw [eventsOf, List.filter_eq_nil_iff]
      intro event member
      rw [decide_eq_true_iff]
      rcases List.mem_append.mp member with answer | packed
      · rw [answers event answer]
        exact different
      · obtain ⟨pack, inside, rfl⟩ := List.mem_map.mp packed
        rw [queued] at inside
        show pack.id ≠ fd
        rw [own pack inside]
        exact different
    · rw [pending, edits.take.pending_of_ne different.symm]
      exact asking.pending

end Request

/-! ## Any chunks -/

section Run

variable {r : Request} {fd : Fd}

theorem received_own (call : Call) (calls : List Call) :
    received call.fd (call :: calls) = call.chunk ++ received call.fd calls := by
  simp [received]

theorem received_other {call : Call} (other : call.fd ≠ fd) (calls : List Call) :
    received fd (call :: calls) = received fd calls := by
  simp [received, other]

/-- A socket sends these chunks of the request. -/
def Sends (r : Request) (fd : Fd) (calls : List Call) (bytes : Bytes) : Prop :=
  (∀ call ∈ calls, call.fd = fd → call.handshake = true ∧ call.chunk ≠ []) ∧
    bytes ++ received fd calls <+: r.bytes

theorem filter_sends {q : Queue} {bytes : Bytes} {call : Call} {calls : List Call}
    (asking : Request.Asking r fd q bytes) (sends : Sends r fd (call :: calls) bytes) :
    (call.fd ≠ fd ∧ ∃ fault, filter call.handshake call.fd q call.chunk = .error fault) ∨
      ∃ q' events more, filter call.handshake call.fd q call.chunk = .ok (q', events) ∧
        r.delivered fd bytes ++ eventsOf fd events = r.delivered fd (bytes ++ more) ∧
        received fd (call :: calls) = more ++ received fd calls ∧
        Request.Asking r fd q' (bytes ++ more) ∧ Sends r fd calls (bytes ++ more) := by
  obtain ⟨own, initial⟩ := sends
  obtain ⟨first, later⟩ := List.forall_mem_cons.mp own
  by_cases mine : call.fd = fd
  · obtain ⟨flag, some⟩ := first mine
    subst mine
    rw [received_own, ← List.append_assoc] at initial
    have upTo := (List.prefix_append _ _).trans initial
    obtain ⟨q', filtered, asking⟩ := Request.filter_request asking some upTo
    refine .inr ⟨q', _, call.chunk, by rw [flag]; exact filtered, ?_, received_own call calls,
      asking, later, initial⟩
    rw [r.delivered_part _ (Request.header_missing upTo some).1, List.nil_append]
    unfold Request.delivered eventsOf
    split
    · simp [Event.fd]
    · rfl
  · cases filtered : filter call.handshake call.fd q call.chunk with
    | error fault => exact .inl ⟨mine, fault, rfl⟩
    | ok result =>
      obtain ⟨q', events⟩ := result
      obtain ⟨nothing, asking⟩ := Request.filter_other asking mine filtered
      rw [received_other mine] at initial
      refine .inr ⟨q', events, [], rfl, ?_, received_other mine calls, ?_, later, ?_⟩
      · rw [nothing, List.append_nil, List.append_nil]
      · rwa [List.append_nil]
      · rwa [List.append_nil]

/-- What was delivered when some chunks have gone through. -/
theorem run_sends {q q' : Queue} {bytes : Bytes} {calls : List Call} {events : List Event}
    (asking : Request.Asking r fd q bytes) (sends : Sends r fd calls bytes)
    (ran : run q calls = .ok (q', events)) :
    r.delivered fd bytes ++ eventsOf fd events = r.delivered fd (bytes ++ received fd calls) := by
  induction calls generalizing q bytes events with
  | nil =>
    cases ran
    simp [eventsOf, received]
  | cons call calls ih =>
    rcases filter_sends asking sends with
      ⟨-, fault, failed⟩ | ⟨q₁, first, more, filtered, now, split, asking, sends⟩
    · rw [run_cons_error failed] at ran
      cases ran
    · rw [run_cons filtered] at ran
      cases rest : run q₁ calls with
      | error fault =>
        rw [rest] at ran
        cases ran
      | ok result =>
        rw [rest] at ran
        cases ran
        rw [eventsOf_append, ← List.append_assoc, now, ih asking sends rest, split,
          List.append_assoc]

/-- The chunks go through, unless one of another socket does not. -/
theorem run_sends_ok {q : Queue} {bytes : Bytes} {calls : List Call}
    (asking : Request.Asking r fd q bytes) (sends : Sends r fd calls bytes) :
    (∃ result, run q calls = .ok result) ∨
      ∃ before call after q' events fault, calls = before ++ call :: after ∧ call.fd ≠ fd ∧
        run q before = .ok (q', events) ∧
        filter call.handshake call.fd q' call.chunk = .error fault := by
  induction calls generalizing q bytes with
  | nil => exact .inl ⟨_, rfl⟩
  | cons call calls ih =>
    rcases filter_sends asking sends with
      ⟨other, fault, failed⟩ | ⟨q₁, first, more, filtered, -, -, asking, sends⟩
    · exact .inr ⟨[], call, calls, q, [], fault, rfl, other, rfl, failed⟩
    · rcases ih asking sends with
        ⟨result, ran⟩ | ⟨before, call', after, q', events, fault, split, other, ran, failed⟩
      · refine .inl ⟨(result.1, first ++ result.2), ?_⟩
        rw [run_cons filtered, ran]
        rfl
      · refine .inr ⟨call :: before, call', after, q', first ++ events, fault, ?_, other, ?_,
          failed⟩
        · rw [split]
          rfl
        · rw [run_cons filtered, ran]
          rfl

/-- A chunk of a run that goes through does not fail. -/
theorem not_fails_of_run {q : Queue} {calls : List Call} {result : Queue × List Event}
    (ran : run q calls = .ok result) : ∀ before call after, calls = before ++ call :: after →
      ∀ q' events, run q before = .ok (q', events) →
        ¬ ∃ fault, filter call.handshake call.fd q' call.chunk = .error fault := by
  induction calls generalizing q result with
  | nil =>
    intro before call after split
    simp at split
  | cons first calls ih =>
    cases filtered : filter first.handshake first.fd q first.chunk with
    | error fault =>
      rw [run_cons_error filtered] at ran
      cases ran
    | ok filteredResult =>
      rw [run_cons filtered] at ran
      refine (each_call_cons (P := fun q' call =>
        ¬ ∃ fault, filter call.handshake call.fd q' call.chunk = .error fault) filtered).mpr ⟨?_, ?_⟩
      · rw [filtered]
        exact fun failed => by obtain ⟨fault, same⟩ := failed; cases same
      · cases later : run filteredResult.1 calls with
        | error fault =>
          rw [later] at ran
          cases ran
        | ok rest => exact ih later

/-- All chunks go through, and the one message of the socket is the request, which comes with the
chunk that ends it. -/
def Extracted (r : Request) (fd : Fd) (q : Queue) (calls : List Call) : Prop :=
  (∀ before after q' events, calls = before ++ after → run q before = .ok (q', events) →
    eventsOf fd events = if received fd before = r.bytes then [.message fd r.bytes] else []) ∧
  ∃ q' events, run q calls = .ok (q', events) ∧ eventsOf fd events = [.message fd r.bytes]

/-- No chunk of another socket makes a write go beyond a header, or asks for memory of a negative
size. -/
def OthersHarmless (fd : Fd) (q : Queue) (calls : List Call) : Prop :=
  ∀ before call after, calls = before ++ call :: after →
    ∀ q' events, run q before = .ok (q', events) → call.fd ≠ fd →
      ¬ Overruns call.handshake (q'.pending call.fd).head? call.chunk ∧
        ¬ Negates call.handshake (q'.pending call.fd).head? call.chunk

/-- **A request is extracted wherever it is cut**, if and only if the chunks of the other sockets are
harmless. -/
theorem handshake_any_segmentation (r : Request) (fd : Fd) {q : Queue} {calls : List Call}
    (idle : q.pending fd = []) (drained : q.packs = [])
    (own : ∀ call ∈ calls, call.fd = fd → call.handshake = true ∧ call.chunk ≠ [])
    (cut : received fd calls = r.bytes) :
    Extracted r fd q calls ↔ OthersHarmless fd q calls := by
  have asking : Request.Asking r fd q [] := ⟨idle.trans (if_pos (.inl rfl)).symm, drained⟩
  have upTo : ∀ before after q' events, calls = before ++ after → run q before = .ok (q', events) →
      eventsOf fd events = r.delivered fd (received fd before) := by
    intro before after q' events split ran
    have sends : Sends r fd before [] := by
      subst split
      refine ⟨fun call member => own call (List.mem_append_left after member), ?_⟩
      rw [List.nil_append, ← cut]
      refine ⟨received fd after, ?_⟩
      simp [received]
    have delivered := run_sends asking sends ran
    rwa [r.delivered_part fd r.ne_nil.symm, List.nil_append, List.nil_append] at delivered
  constructor
  · intro extracted before call after split q' events ran other
    obtain ⟨-, q'', all, whole, -⟩ := extracted
    have fine := not_fails_of_run whole before call after split q' events ran
    rw [filter_error_iff, not_or] at fine
    exact fine
  · intro harmless
    have sends : Sends r fd calls [] := ⟨own, [], by rw [List.append_nil, List.nil_append, cut]⟩
    rcases run_sends_ok asking sends with
      ⟨⟨q', events⟩, ran⟩ | ⟨before, call, after, q', events, fault, split, other, ran, failed⟩
    · refine ⟨upTo, q', events, ran, ?_⟩
      rw [upTo calls [] q' events (List.append_nil calls).symm ran, cut]
      exact r.delivered_whole fd
    · obtain ⟨room, positive⟩ := harmless before call after split q' events ran other
      rcases filter_error_iff.mp ⟨fault, failed⟩ with overruns | negates
      · exact (room overruns).elim
      · exact (positive negates).elim

/-- `"\r\n\r\n"` -/
def shortest : Request where
  bytes := [13, 10, 13, 10]
  short := by decide
  ends := by decide
  first p initial := (by decide : ∀ p ∈ ([13, 10, 13, 10] : Bytes).inits,
    p ≠ [13, 10, 13, 10] → ¬ crlfcrlf <:+: p) p ((List.mem_inits p _).mpr initial)

/-- It comes in two chunks, with the beginning of a frame of another socket between them. -/
theorem handshake_two_chunks :
    Extracted shortest 1 .empty
      [⟨1, true, [13, 10, 13]⟩, ⟨2, false, [0x82]⟩, ⟨1, true, [10]⟩] := by
  refine (handshake_any_segmentation shortest 1 rfl rfl (by decide) rfl).mpr ?_
  obtain ⟨result, ran⟩ : ∃ result, run .empty
      [⟨1, true, [13, 10, 13]⟩, ⟨2, false, [0x82]⟩, ⟨1, true, [10]⟩] = .ok result := ⟨_, rfl⟩
  intro before call after split q' events ran' _
  have fine := not_fails_of_run ran before call after split q' events ran'
  rw [filter_error_iff, not_or] at fine
  exact fine

/-- Another socket announces a frame of 2 ^ 32 - 1 bytes and sends more than 1014 of them before. -/
theorem handshake_lost :
    ¬ ∀ (r : Request) (fd : Fd) (q : Queue) (calls : List Call), q.pending fd = [] → q.packs = [] →
      (∀ call ∈ calls, call.fd = fd → call.handshake = true ∧ call.chunk ≠ []) →
      received fd calls = r.bytes → Extracted r fd q calls := by
  intro extracted
  let huge : Call := ⟨2, false, [0x82, 0x7F, 0, 0, 0, 0, 0xFF, 0xFF, 0xFF, 0xFF] ++
    List.replicate 1015 0⟩
  have own : ∀ call ∈ [huge, ⟨1, true, [13, 10, 13, 10]⟩], call.fd = 1 →
      call.handshake = true ∧ call.chunk ≠ [] := by
    intro call member mine
    rcases List.mem_cons.mp member with rfl | last
    · cases mine
    · rw [List.mem_singleton.mp last]
      exact ⟨rfl, List.cons_ne_nil _ _⟩
  obtain ⟨-, q', events, ran, -⟩ :=
    extracted shortest 1 .empty [huge, ⟨1, true, [13, 10, 13, 10]⟩] rfl rfl own rfl
  have failed : run .empty [huge, ⟨1, true, [13, 10, 13, 10]⟩] = .error .headerOverflow :=
    run_cons_error (filter_huge 2 rfl)
  rw [failed] at ran
  cases ran

end Run

end RillServer.Netpack
