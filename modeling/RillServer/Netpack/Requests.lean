import RillServer.Netpack.Reading

/-!
# What the filter extracts in the handshake

With the flag of the handshake the filter cuts a stream at every `"\r\n\r\n"`. The first packet of a
connection is its first request (`filter_asks`); in either mode a chunk concerns its own socket only
(`filter_concerns`).
-/

namespace RillServer.Netpack

/-! ## Other sockets -/

/-- What the filter does to a queue for one socket: it takes out a record, queues packets, and saves
at most one record in the end. -/
inductive Edits (fd : Fd) : Queue → Queue → Prop
  | done {q : Queue} : Edits fd q q
  | save {q : Queue} (uc : Uncomplete) : Edits fd q (q.saveUncomplete fd uc)
  | log {q q' : Queue} (reads : List Nat) : Edits fd (q.log reads) q' → Edits fd q q'
  | push {q q' : Queue} (buffer : Bytes) : Edits fd (q.pushData fd buffer) q' → Edits fd q q'
  | take {q q' : Queue} : Edits fd (q.findUncomplete fd).2 q' → Edits fd q q'

section Edits

variable {fd : Fd} {q q' : Queue}

theorem Edits.pending_of_ne (edits : Edits fd q q') {fd' : Fd} (other : fd' ≠ fd) :
    q'.pending fd' = q.pending fd' := by
  induction edits with
  | done => rfl
  | save uc => exact Queue.pending_saveUncomplete_of_ne _ uc other
  | log reads _ ih => exact ih
  | push buffer _ ih => exact ih
  | take _ ih => exact ih.trans (Queue.pending_findUncomplete_of_ne _ other)

theorem Edits.packs (edits : Edits fd q q') :
    ∃ packs, q'.packs = q.packs ++ packs ∧ ∀ pack ∈ packs, pack.id = fd := by
  induction edits with
  | done => exact ⟨[], (List.append_nil _).symm, nofun⟩
  | save uc => exact ⟨[], (List.append_nil _).symm, nofun⟩
  | log reads _ ih => exact ih
  | take _ ih => exact ih
  | push buffer _ ih =>
      obtain ⟨packs, queued, own⟩ := ih
      refine ⟨⟨fd, buffer⟩ :: packs, ?_, ?_⟩
      · rw [queued, Queue.packs_pushData, List.append_assoc]
        rfl
      · intro pack member
        rcases List.mem_cons.mp member with rfl | later
        · rfl
        · exact own pack later

theorem Edits.length_pending (edits : Edits fd q q') :
    (q'.pending fd).length ≤ (q.pending fd).length + 1 := by
  induction edits with
  | done => exact Nat.le_succ _
  | save uc =>
      rw [Queue.pending_saveUncomplete]
      exact Nat.le_refl _
  | log reads _ ih => exact ih
  | push buffer _ ih => exact ih
  | take _ ih =>
      rw [Queue.pending_findUncomplete, List.length_tail] at ih
      omega

variable {handshake : Bool} {reply : Reply}

theorem pushMore_edits {buffer : Bytes} (ran : pushMore handshake fd q buffer = .ok q') :
    Edits fd q q' := by
  induction size : buffer.length using Nat.strongRecOn generalizing buffer q with
  | ind size ih =>
      rw [pushMore_eq] at ran
      simp only at ran
      refine .log (nextHead invalidOrClose handshake buffer).reads ?_
      split at ran
      · split at ran
        · cases ran
        · cases ran
          exact .save _
      · split at ran
        · cases ran
          exact .save _
        · split at ran
          · cases ran
          · rename_i packSize got
            split at ran
            · rename_i more
              refine .push _ (ih _ ?_ ran rfl)
              obtain ⟨positive, shorter⟩ := nextHead_pos got
              simp only [List.length_drop] at more ⊢
              omega
            · cases ran
              exact .push _ .done

/-- One call of `filter_data_`: the reply is about the socket, too. -/
structure Concerns (fd : Fd) (q q' : Queue) (reply : Reply) : Prop where
  edits : Edits fd q q'
  reply : ∀ event ∈ reply.events, event.fd = fd

theorem concerns_saved (uc : Uncomplete) : Concerns fd q (q.saveUncomplete fd uc) .queue :=
  ⟨.save uc, nofun⟩

theorem concerns_data (buffer : Bytes) : Concerns fd q q (.data fd buffer) where
  edits := .done
  reply := by
    intro event member
    obtain rfl := List.mem_singleton.mp member
    rfl

theorem concerns_close : Concerns fd q (q.closeUncomplete fd) (.close fd) where
  edits := .take .done
  reply := by
    intro event member
    obtain rfl := List.mem_singleton.mp member
    rfl

theorem concerns_more {packet buffer : Bytes}
    (ran : (pushMore handshake fd (q.pushData fd packet) buffer).map (·, Reply.more) =
      .ok (q', reply)) : Concerns fd q q' reply := by
  cases pushed : pushMore handshake fd (q.pushData fd packet) buffer with
  | error fault =>
      rw [pushed] at ran
      cases ran
  | ok q₁ =>
      rw [pushed] at ran
      cases ran
      exact ⟨.push packet (pushMore_edits pushed), nofun⟩

theorem Concerns.log (reads : List Nat) (concerns : Concerns fd (q.log reads) q' reply) :
    Concerns fd q q' reply :=
  ⟨.log reads concerns.edits, concerns.reply⟩

theorem fillBody_concerns {size : Nat} {read : Bytes} {mask : Option Mask} {hasunmaskSize : Nat}
    {buffer : Bytes}
    (ran : fillBody handshake fd q size read mask hasunmaskSize buffer = .ok (q', reply)) :
    Concerns fd q q' reply := by
  unfold fillBody at ran
  simp only at ran
  split at ran
  · cases ran
    exact concerns_saved _
  · split at ran
    · cases ran
      exact concerns_data _
    · exact concerns_more ran

theorem filterHeader_concerns {header buffer : Bytes}
    (ran : filterHeader handshake fd q header buffer = .ok (q', reply)) :
    Concerns fd q q' reply := by
  unfold filterHeader at ran
  split at ran
  · cases ran
  · rename_i fill filled
    simp only at ran
    apply Concerns.log fill.reads
    split at ran
    · cases ran
      exact concerns_saved _
    · split at ran
      · cases ran
        exact concerns_close
      · split at ran
        · cases ran
        · exact fillBody_concerns ran

theorem filterFresh_concerns {buffer : Bytes}
    (ran : filterFresh handshake fd q buffer = .ok (q', reply)) : Concerns fd q q' reply := by
  unfold filterFresh at ran
  simp only at ran
  apply Concerns.log (nextHead invalid handshake buffer).reads
  split at ran
  · split at ran
    · cases ran
    · cases ran
      exact concerns_saved _
  · split at ran
    · cases ran
      exact concerns_close
    · split at ran
      · cases ran
        exact concerns_saved _
      · split at ran
        · cases ran
        · split at ran
          · cases ran
            exact concerns_data _
          · exact concerns_more ran

theorem filterData_concerns {buffer : Bytes}
    (ran : filterData handshake fd q buffer = .ok (q', reply)) :
    Concerns fd (q.findUncomplete fd).2 q' reply := by
  cases pending : q.pending fd with
  | nil =>
      rw [filterData_fresh pending] at ran
      exact filterFresh_concerns ran
  | cons uc ucs =>
      cases uc with
      | header header =>
          rw [filterData_header pending] at ran
          exact filterHeader_concerns ran
      | body size read mask hasunmaskSize =>
          rw [filterData_body pending] at ran
          exact fillBody_concerns ran

end Edits

/-- A chunk leaves other sockets alone, leaves at most one record of its own, and every event is one
of its socket. -/
theorem filter_concerns {handshake : Bool} {fd : Fd} {q q' : Queue} {chunk : Bytes}
    {events : List Event} (drained : q.packs = []) (few : (q.pending fd).length ≤ 1)
    (filtered : filter handshake fd q chunk = .ok (q', events)) :
    q'.packs = [] ∧ (q'.pending fd).length ≤ 1 ∧
      (∀ fd' ≠ fd, q'.pending fd' = q.pending fd') ∧ ∀ event ∈ events, event.fd = fd := by
  cases ran : filterData handshake fd { q with reads := [] } chunk with
  | error fault =>
      simp only [filter, ran] at filtered
      cases filtered
  | ok result =>
      obtain ⟨q₁, reply⟩ := result
      obtain ⟨edits, answers⟩ := filterData_concerns ran
      obtain ⟨q₂, same, empty, kept, -⟩ := filter_of_filterData ran
      rw [filtered] at same
      cases same
      refine ⟨empty, ?_, ?_, ?_⟩
      · have longer := edits.length_pending
        rw [Queue.pending_findUncomplete, List.length_tail] at longer
        have before : (Queue.pending { q with reads := [] } fd).length ≤ 1 := few
        rw [kept]
        omega
      · intro fd' other
        exact (kept fd').trans (edits.take.pending_of_ne other)
      · obtain ⟨packs, queued, own⟩ := edits.packs
        intro event member
        rcases List.mem_append.mp member with answer | packed
        · exact answers event answer
        · obtain ⟨pack, inside, rfl⟩ := List.mem_map.mp packed
          have before : Queue.packs { q with reads := [] } = [] := drained
          rw [queued, Queue.packs_findUncomplete, before, List.nil_append] at inside
          exact own pack inside

/-! ## The first request -/

theorem strnposLoop_succ (needle : Bytes) (rounds i : Nat) (haystack : Bytes) :
    strnposLoop needle rounds (i + 1) haystack =
      if strnposLoop needle rounds i haystack < 0 then -1
      else strnposLoop needle rounds i haystack + 1 := by
  induction rounds generalizing i haystack with
  | zero => rfl
  | succ rounds ih =>
      unfold strnposLoop
      split
      · rw [if_neg (by omega)]
        rfl
      · exact ih _ _

/-- The end of the first `"\r\n\r\n"` is found byte by byte. -/
theorem getHttpHeader_cons (b : UInt8) (bytes : Bytes) :
    getHttpHeader (b :: bytes) =
      if (b :: bytes).take 4 = [13, 10, 13, 10] then 4
      else if getHttpHeader bytes < 0 then -1 else getHttpHeader bytes + 1 := by
  have position : websocketStrnpos (b :: bytes) [13, 10, 13, 10] =
      if (b :: bytes).take 4 = [13, 10, 13, 10] then 0
      else if websocketStrnpos bytes [13, 10, 13, 10] < 0 then -1
      else websocketStrnpos bytes [13, 10, 13, 10] + 1 := by
    unfold websocketStrnpos
    simp only [List.length_cons, List.length_nil, Nat.zero_add, Nat.reduceAdd]
    by_cases few : bytes.length + 1 < 4
    · have other : (b :: bytes).take 4 ≠ [13, 10, 13, 10] := by
        intro same
        have lengths := congrArg List.length same
        simp only [List.length_take, List.length_cons, List.length_nil] at lengths
        omega
      rw [if_pos few, if_neg other, if_pos (show bytes.length < 4 by omega), if_pos (by decide)]
    · rw [if_neg few, show bytes.length + 1 - 4 + 1 = (bytes.length - 3) + 1 by omega, strnposLoop,
        show ([13, 10, 13, 10] : Bytes).length = 4 from rfl]
      by_cases here : (b :: bytes).take 4 = [13, 10, 13, 10]
      · rw [if_pos here, if_pos here]
        rfl
      · rw [if_neg here, if_neg here, strnposLoop_succ, List.tail_cons]
        by_cases three : bytes.length < 4
        · rw [if_pos three, show bytes.length - 3 = 0 by omega]
          rfl
        · rw [if_neg three, show bytes.length - 4 + 1 = bytes.length - 3 by omega]
  unfold getHttpHeader
  simp only [position]
  rcases websocketStrnpos_nonneg_or bytes [13, 10, 13, 10] with missing | found
  · rw [missing]
    split <;> rfl
  · split
    · rfl
    · rw [if_neg (by omega), if_neg (by omega), if_neg (by omega)]
      omega

theorem getHttpHeader_bounds (bytes : Bytes) :
    getHttpHeader bytes = -1 ∨ 4 ≤ getHttpHeader bytes ∧ getHttpHeader bytes ≤ bytes.length := by
  induction bytes with
  | nil => exact .inl rfl
  | cons b bytes ih =>
      rw [getHttpHeader_cons, List.length_cons]
      split
      next here =>
        have lengths := congrArg List.length here
        simp only [List.length_take, List.length_cons, List.length_nil] at lengths
        exact .inr ⟨by omega, by omega⟩
      next =>
        rcases ih with missing | found
        · rw [missing]
          exact .inl rfl
        · rw [if_neg (by omega)]
          exact .inr ⟨by omega, by omega⟩

/-- Bytes that come later do not change the end of the first request. -/
theorem getHttpHeader_append {bytes : Bytes} (found : 0 ≤ getHttpHeader bytes) (more : Bytes) :
    getHttpHeader (bytes ++ more) = getHttpHeader bytes := by
  induction bytes with
  | nil => exact absurd found (by decide)
  | cons b bytes ih =>
      have enough : 4 ≤ (b :: bytes).length := by
        rcases getHttpHeader_bounds (b :: bytes) with missing | ⟨_, _⟩ <;> omega
      have same : (b :: (bytes ++ more)).take 4 = (b :: bytes).take 4 := by
        rw [← List.cons_append]
        exact List.take_append_of_le_length enough
      rw [List.cons_append, getHttpHeader_cons, same, getHttpHeader_cons b bytes]
      rw [getHttpHeader_cons] at found
      split at found
      next here => rw [if_pos here, if_pos here]
      next there =>
        rw [if_neg there, if_neg there]
        split at found
        next => exact absurd found (by decide)
        next inside => rw [ih (by omega)]

/-- A request is complete with its last byte. -/
theorem getHttpHeader_snoc {bytes : Bytes} (missing : getHttpHeader bytes = -1) (b : UInt8) :
    getHttpHeader (bytes ++ [b]) = -1 ∨ getHttpHeader (bytes ++ [b]) = bytes.length + 1 := by
  induction bytes with
  | nil =>
      refine .inl ?_
      rw [List.nil_append, getHttpHeader_cons]
      simp [getHttpHeader, websocketStrnpos]
  | cons a bytes ih =>
      rw [getHttpHeader_cons] at missing
      rw [List.cons_append, getHttpHeader_cons]
      split at missing
      next => exact absurd missing (by decide)
      next there =>
        have earlier : getHttpHeader bytes = -1 := by
          split at missing
          next negative =>
            rcases getHttpHeader_bounds bytes with none | ⟨_, _⟩ <;> omega
          next => omega
        split
        next here =>
          have lengths := congrArg List.length here
          simp only [List.length_take, List.length_cons, List.length_append, List.length_nil]
            at lengths
          have three : bytes.length = 2 := by
            by_contra longer
            apply there
            rw [← here, ← List.cons_append]
            refine (List.take_append_of_le_length ?_).symm
            rw [List.length_cons]
            omega
          rw [List.length_cons, three]
          exact .inr rfl
        next =>
          rcases ih earlier with none | found
          · rw [none]
            exact .inl rfl
          · rw [found, if_neg (by omega), List.length_cons]
            exact .inr (by push_cast; ring)

/-! ## A chunk of the handshake -/

/-- The records of a socket whose first request has not ended. -/
inductive Asks (received : Bytes) : List Uncomplete → Prop
  | nothing : received = [] → Asks received []
  | part : getHttpHeader received = -1 → Asks received [.header received]
  /-- the next byte would be written behind the header -/
  | full {header : Bytes} : headersize ≤ header.length → Asks received [.header header]

/-- What a chunk brings that ends with these bytes: nothing yet, or the first request. What follows
a request stays pending unless it holds another one or is too long. -/
inductive Asked (bytes : Bytes) (fd : Fd) (ucs : List Uncomplete) : List Event → Prop
  | waits : getHttpHeader bytes = -1 → Asks bytes ucs → Asked bytes fd ucs []
  | request {n : Nat} {later : List Event} : getHttpHeader bytes = n →
    (getHttpHeader (bytes.drop n) = -1 → (bytes.drop n).length ≤ headersize →
      later = [] ∧ ucs = if bytes.drop n = [] then [] else [.header (bytes.drop n)]) →
    Asked bytes fd ucs (.message fd (bytes.take n) :: later)

section Handshake

variable {bytes : Bytes} {fd : Fd} {q q' : Queue} {reply : Reply}

theorem nextHead_handshake (throwAway : Int → Bool) (buffer : Bytes) :
    nextHead throwAway true buffer =
      { reads := [], head := { size := getHttpHeader buffer }, buffer } := rfl

theorem pushMore_saved (missing : getHttpHeader bytes = -1) (short : bytes.length ≤ headersize) :
    pushMore true fd q bytes = .ok ((q.log []).saveUncomplete fd (.header bytes)) := by
  have fits : ¬ bytes.length > headersize := by omega
  rw [pushMore_eq]
  simp only [nextHead_handshake, missing, if_true, savedHeader, true_and, if_neg fits]

/-- The first request of the bytes, and what follows it. -/
theorem asked_request {n : Nat} (found : getHttpHeader bytes = n) (idle : q.pending fd = [])
    (drained : q.packs = [])
    (ran : (if (bytes.drop n).length = 0 then .ok (q, .data fd (bytes.take n))
      else (pushMore true fd (q.pushData fd (bytes.take n)) (bytes.drop n)).map (·, Reply.more)) =
        .ok (q', reply)) :
    Asked bytes fd (q'.pending fd) (reply.events ++ q'.packs.map Pack.event) := by
  split at ran
  next last =>
    cases ran
    rw [drained]
    refine .request found fun _ _ => ⟨rfl, ?_⟩
    rw [if_pos (List.length_eq_zero_iff.mp last), idle]
  next more =>
    cases pushed : pushMore true fd (q.pushData fd (bytes.take n)) (bytes.drop n) with
    | error fault =>
        rw [pushed] at ran
        cases ran
    | ok q₁ =>
        rw [pushed] at ran
        cases ran
        obtain ⟨packs, queued, -⟩ := (pushMore_edits pushed).packs
        rw [Queue.packs_pushData, drained, List.nil_append] at queued
        rw [queued]
        refine .request found fun missing short => ?_
        have some : bytes.drop n ≠ [] := fun none => more (by rw [none]; rfl)
        rw [pushMore_saved missing short] at pushed
        cases pushed
        have nothing : packs = [] := by
          simpa [drained] using queued
        rw [nothing, if_neg some]
        refine ⟨rfl, ?_⟩
        rw [Queue.pending_saveUncomplete, Queue.pending_log, Queue.pending_pushData, idle]

theorem savedHeader_asks {header : Bytes} (missing : getHttpHeader bytes = -1)
    (saved : savedHeader true bytes = .ok header) : Asks bytes [.header header] := by
  simp only [savedHeader, true_and] at saved
  split at saved
  next long =>
    cases saved
    refine .full ?_
    rw [List.length_take]
    omega
  next =>
    cases saved
    exact .part missing

/-- The first chunk of a connection. -/
theorem filterFresh_asks (idle : q.pending fd = []) (drained : q.packs = [])
    (ran : filterFresh true fd q bytes = .ok (q', reply)) :
    Asked bytes fd (q'.pending fd) (reply.events ++ q'.packs.map Pack.event) := by
  unfold filterFresh at ran
  simp only [nextHead_handshake, Bool.true_eq_false, and_false, if_false, List.drop_zero] at ran
  rcases getHttpHeader_bounds bytes with missing | ⟨found, inside⟩
  · rw [if_pos missing] at ran
    split at ran
    next => cases ran
    next header saved =>
      cases ran
      rw [Queue.packs_saveUncomplete, Queue.packs_log, drained]
      refine .waits missing ?_
      rw [Queue.pending_saveUncomplete, Queue.pending_log, idle]
      exact savedHeader_asks missing saved
  · obtain ⟨n, size⟩ := Int.eq_ofNat_of_zero_le (show 0 ≤ getHttpHeader bytes by omega)
    rw [if_neg (by omega), if_neg (by omega), size] at ran
    simp only [malloc_natCast] at ran
    apply asked_request (q := q.log []) size idle drained
    rw [← ran]
    have same : (bytes.drop n).length = 0 ↔ bytes.length = n := by
      rw [List.length_drop]
      omega
    simp only [same]
    rfl

/-- The loop that fills a pending request. -/
theorem fillHeader_asks {header chunk : Bytes} {fill : Fill} (missing : getHttpHeader header = -1)
    (nonempty : chunk ≠ []) (ran : fillHeader true header chunk = .ok fill) :
    (getHttpHeader (header ++ chunk) = -1 ∧ fill.head.size = -1 ∧ fill.header = header ++ chunk) ∨
      ∃ n : Nat, getHttpHeader (header ++ chunk) = n ∧ fill.head = { size := n } ∧
        fill.header = (header ++ chunk).take n ∧ fill.buffer = (header ++ chunk).drop n := by
  induction chunk generalizing header fill with
  | nil => exact absurd rfl nonempty
  | cons b rest ih =>
      have room : header.length < headersize := by
        by_contra full
        rw [fillHeader, if_pos (by omega)] at ran
        cases ran
      have scan : pendingHead true (header ++ [b]) =
          { reads := [], head := { size := getHttpHeader (header ++ [b]) }
            buffer := header ++ [b] } := by
        have fits : ¬ (header ++ [b]).length > headersize := by
          rw [List.length_append, List.length_singleton]
          omega
        simp only [pendingHead, true_and, if_neg fits, nextHead_handshake]
      have longer : header ++ b :: rest = (header ++ [b]) ++ rest := by
        rw [List.append_assoc]
        rfl
      rw [longer]
      rcases getHttpHeader_snoc missing b with none | found
      · rcases fillHeader_cases scan ran with ⟨stops, head, left, buffer⟩ |
          ⟨-, more, fill', later, head, left, buffer⟩
        · rcases stops with nonneg | rfl
          · simp only [none] at nonneg
            omega
          · rw [List.append_nil, head, left]
            exact .inl ⟨none, none, rfl⟩
        · rw [head, left, buffer]
          exact ih none more later
      · have inside : (header ++ [b]).length = header.length + 1 := by simp
        refine .inr ⟨header.length + 1, ?_, ?_⟩
        · rw [getHttpHeader_append (by omega), found]
          rfl
        · rcases fillHeader_cases scan ran with ⟨-, head, left, buffer⟩ | ⟨negative, -⟩
          · rw [head, left, buffer, found]
            exact ⟨rfl, (List.take_left' inside).symm, (List.drop_left' inside).symm⟩
          · simp only [found] at negative
            omega

/-- A chunk when the beginning of a request is pending. -/
theorem filterHeader_asks {header chunk : Bytes} (missing : getHttpHeader header = -1)
    (nonempty : chunk ≠ []) (idle : q.pending fd = []) (drained : q.packs = [])
    (ran : filterHeader true fd q header chunk = .ok (q', reply)) :
    Asked (header ++ chunk) fd (q'.pending fd) (reply.events ++ q'.packs.map Pack.event) := by
  unfold filterHeader at ran
  split at ran
  next => cases ran
  next fill filled =>
    simp only [if_true] at ran
    rcases fillHeader_asks missing nonempty filled with ⟨none, size, left⟩ |
      ⟨n, found, head, left, buffer⟩
    · rw [if_pos size] at ran
      cases ran
      rw [Queue.packs_saveUncomplete, Queue.packs_log, drained]
      refine .waits none ?_
      rw [Queue.pending_saveUncomplete, Queue.pending_log, idle, left]
      exact .part none
    · have bounds := getHttpHeader_bounds (header ++ chunk)
      have whole : ((header ++ chunk).take n).length = n := by
        rw [List.length_take]
        omega
      simp only [head, left, buffer, malloc_natCast, List.take_take, Nat.min_self] at ran
      rw [if_neg (by omega), if_neg (by omega)] at ran
      unfold fillBody at ran
      simp only [whole, Nat.sub_self, Nat.not_lt_zero, if_false, List.take_zero, List.drop_zero,
        decodeWsmaskData, List.append_nil] at ran
      exact asked_request (q := q.log fill.reads) found idle drained ran

theorem filterData_asks {received chunk : Bytes} (asks : Asks received (q.pending fd))
    (nonempty : chunk ≠ []) (drained : q.packs = [])
    (ran : filterData true fd q chunk = .ok (q', reply)) :
    Asked (received ++ chunk) fd (q'.pending fd) (reply.events ++ q'.packs.map Pack.event) := by
  generalize records : q.pending fd = ucs at asks
  have idle : (q.findUncomplete fd).2.pending fd = [] := by
    rw [Queue.pending_findUncomplete, records]
    cases asks <;> rfl
  cases asks with
  | nothing none =>
      rw [filterData_fresh records] at ran
      rw [none, List.nil_append]
      exact filterFresh_asks idle drained ran
  | part missing =>
      rw [filterData_header records] at ran
      exact filterHeader_asks missing nonempty idle drained ran
  | full long =>
      rw [filterData_header records] at ran
      obtain ⟨b, rest, rfl⟩ := List.exists_cons_of_ne_nil nonempty
      unfold filterHeader fillHeader at ran
      rw [if_pos long] at ran
      cases ran

/-- **The first packet of a connection is its first request.** -/
theorem filter_asks {received chunk : Bytes} {events : List Event}
    (asks : Asks received (q.pending fd)) (nonempty : chunk ≠ []) (drained : q.packs = [])
    (filtered : filter true fd q chunk = .ok (q', events)) :
    Asked (received ++ chunk) fd (q'.pending fd) events := by
  cases ran : filterData true fd { q with reads := [] } chunk with
  | error fault =>
      simp only [filter, ran] at filtered
      cases filtered
  | ok result =>
      obtain ⟨q₁, reply⟩ := result
      obtain ⟨q₂, same, -, kept, -⟩ := filter_of_filterData ran
      rw [filtered] at same
      cases same
      rw [kept]
      exact filterData_asks (q := { q with reads := [] }) asks nonempty drained ran

/-- Two requests in one chunk are two packets. -/
theorem filter_two_requests {first second : Bytes} (idle : q.pending fd = [])
    (drained : q.packs = []) (found : getHttpHeader (first ++ second) = first.length)
    (other : getHttpHeader second = second.length) :
    ∃ q', filter true fd q (first ++ second) =
      .ok (q', [.message fd first, .message fd second]) := by
  have known : ∀ n : Nat, (n : Int) ≠ -1 ∧ (n : Int) ≠ -3 := fun n => ⟨by omega, by omega⟩
  have some : second.length ≠ 0 := by
    have bounds := getHttpHeader_bounds second
    omega
  have more : (first ++ second).length ≠ first.length := by
    rw [List.length_append]
    omega
  have pushed : ∀ q, pushMore true fd q second = .ok ((q.log []).pushData fd second) := by
    intro q
    rw [pushMore_eq]
    simp only [nextHead_handshake, other, if_neg (known _).1, Bool.true_eq_false, and_false,
      if_false, List.drop_zero, malloc_natCast, List.take_length, List.drop_length, List.length_nil,
      gt_iff_lt, Nat.lt_irrefl, decodeWsmaskData]
  have ran : filterData true fd { q with reads := [] } (first ++ second) =
      .ok (((((Queue.findUncomplete { q with reads := [] } fd).2.log []).pushData fd first).log
        []).pushData fd second, .more) := by
    rw [filterData_fresh (q := { q with reads := [] }) idle]
    unfold filterFresh
    simp only [nextHead_handshake, found, if_neg (known _).1, if_neg (known _).2,
      Bool.true_eq_false, and_false, if_false, List.drop_zero, malloc_natCast, if_neg more,
      List.take_left, List.drop_left, decodeWsmaskData, pushed]
    rfl
  obtain ⟨q', filtered, -⟩ := filter_of_filterData ran
  refine ⟨q', filtered.trans ?_⟩
  have before : Queue.packs { q with reads := [] } = [] := drained
  simp only [Queue.packs_pushData, Queue.packs_log, Queue.packs_findUncomplete, before,
    List.nil_append, Reply.events]
  rfl

end Handshake

end RillServer.Netpack
