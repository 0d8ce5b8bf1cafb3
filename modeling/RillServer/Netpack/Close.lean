import RillServer.Netpack.Decode

/-!
# Close frames

A close frame ends a stream of data frames. Whether the gate hears of it depends on where the stream
is cut: at the start of a chunk its first two bytes close the socket, behind a data frame of the
same chunk `push_more` throws them away, and behind a single saved byte the rest of the frame is
appended to the saved header, which holds `HEADERSIZE` bytes. The gate hears of it once, and no byte of it is
taken for another header, exactly when the last chunk is the close frame or, where it fits into the
header, the close frame without its first byte (`reportsClose_iff`).
-/

namespace RillServer.Netpack

/-- A close frame: any mask and payload. -/
structure CloseFrame extends Frame where
  close : opcode = 8

/-- Chunks of one socket, of which `before` bytes have arrived: what the gate gets to see, and the
places in the stream at which `read_size` looked for a header. -/
def feed (fd : Fd) : Nat → Queue → List Bytes → Except Fault (List Event × List Nat)
  | _, _, [] => .ok ([], [])
  | before, q, chunk :: chunks =>
      match filter false fd q chunk with
      | .error fault => .error fault
      | .ok (q, events) =>
          (feed fd (before + chunk.length) q chunks).map fun (later, starts) =>
            (events ++ later, q.reads.map (fun d => before + chunk.length - d) ++ starts)

/-- `feed` is `run` on the chunks of one socket. -/
theorem feed_eq_run (fd : Fd) (before : Nat) (q : Queue) (chunks : List Bytes) :
    (feed fd before q chunks).map Prod.fst =
      (run q (chunks.map fun chunk => ⟨fd, false, chunk⟩)).map Prod.snd := by
  induction chunks generalizing before q with
  | nil => rfl
  | cons chunk chunks ih =>
      simp only [feed, List.map_cons, run]
      cases filter false fd q chunk with
      | error fault => rfl
      | ok result =>
          have later := ih (before + chunk.length) result.1
          simp only
          revert later
          generalize feed fd (before + chunk.length) result.1 chunks = fed
          generalize run result.1 (chunks.map fun chunk => ⟨fd, false, chunk⟩) = ran
          intro later
          cases fed <;> cases ran <;> simp_all [Except.map]

/-- The gate hears of each payload and then of the close, and no header is looked for inside the
close frame. `position` is where the close frame starts. -/
def ClosesOnce (fd : Fd) (fs : List DataFrame) (c : CloseFrame) (position : Nat)
    (outcome : Except Fault (List Event × List Nat)) : Prop :=
  ∃ starts, outcome = .ok ((fs.map fun f => Event.message fd f.payload) ++ [.closed fd], starts) ∧
    ∀ p ∈ starts, p ≤ position ∨ position + c.encode.length ≤ p

/-- The last chunk is the close frame, or its rest after the first byte, short enough for the
header that the first byte is saved in. -/
def CutBeforeClose (c : CloseFrame) (chunks : List Bytes) : Prop :=
  chunks.getLast? = some c.encode ∨
    chunks.getLast? = some c.encode.tail ∧ c.encode.length ≤ headersize

/-! ## Where headers are looked for -/

theorem length_mem_skipHeads (throwAway : Int → Bool) (buffer : Bytes) :
    buffer.length ∈ (skipHeads throwAway buffer).reads := by
  rcases buffer with _ | ⟨b₀, _ | ⟨b₁, rest⟩⟩
  · exact List.mem_singleton_self _
  · exact List.mem_singleton_self _
  · rw [skipHeads]
    simp only
    split <;> simp

theorem reads_of_pushMore {handshake : Bool} {fd : Fd} {q q' : Queue} {buffer : Bytes}
    (ran : pushMore handshake fd q buffer = .ok q') :
    ∀ d ∈ q.reads ++ (nextHead invalidOrClose handshake buffer).reads, d ∈ q'.reads := by
  induction size : buffer.length using Nat.strongRecOn generalizing q buffer with
  | ind size ih =>
      rw [pushMore_eq] at ran
      simp only at ran
      split at ran
      · split at ran
        · cases ran
        · cases ran
          exact fun d member => member
      · split at ran
        · cases ran
          exact fun d member => member
        · split at ran
          · cases ran
          next packSize found =>
            split at ran
            next more =>
              intro d member
              obtain ⟨positive, shorter⟩ := nextHead_pos found
              rw [List.length_drop, List.length_drop] at more
              refine ih _ ?_ ran rfl d ?_
              · rw [List.length_drop, List.length_drop]
                omega
              · exact List.mem_append_left _ member
            next =>
              cases ran
              exact fun d member => member

theorem length_mem_filterFresh {fd : Fd} {q q' : Queue} {reply : Reply} {buffer : Bytes}
    (ran : filterFresh false fd q buffer = .ok (q', reply)) : buffer.length ∈ q'.reads := by
  have looked : buffer.length ∈ (q.log (nextHead invalid false buffer).reads).reads := by
    rw [Queue.reads_log]
    exact List.mem_append_right _ (length_mem_skipHeads invalid buffer)
  unfold filterFresh at ran
  simp only at ran
  split at ran
  · split at ran
    · cases ran
    · cases ran
      exact looked
  · split at ran
    · cases ran
      exact looked
    · split at ran
      · cases ran
        exact looked
      · split at ran
        · cases ran
        · split at ran
          · cases ran
            exact looked
          next found _ =>
            generalize pushed : pushMore _ _ _ _ = outcome at ran
            cases outcome with
            | error fault => cases ran
            | ok later =>
                cases ran
                exact reads_of_pushMore pushed _ (List.mem_append_left _ looked)

/-! ## A chunk that reaches the close frame -/

/-- The data frames of a chunk are pushed, and `push_more` goes on with what follows them. -/
theorem pushMore_through (fd : Fd) (q : Queue) (fs : List DataFrame) {extra : Bytes}
    (some : extra ≠ []) :
    ∃ q', pushMore false fd q (encodeAll fs ++ extra) = pushMore false fd q' extra ∧
      q'.packs = q.packs ++ packsOf fd fs ∧ q'.pending fd = q.pending fd ∧
      ∀ d ∈ q'.reads, d ∈ q.reads ∨ extra.length ≤ d := by
  induction fs generalizing q with
  | nil => exact ⟨q, rfl, by simp [packsOf], rfl, fun d member => .inl member⟩
  | cons f fs ih =>
      obtain ⟨q', goes, packs, pending, reads⟩ :=
        ih ((q.log [(f.encode ++ (encodeAll fs ++ extra)).length]).pushData fd f.payload)
      refine ⟨q', ?_, ?_, by simpa using pending, ?_⟩
      · rw [encodeAll_cons, List.append_assoc, pushMore_frame, if_pos, goes]
        exact List.length_pos_iff.mpr (by simp [some])
      · rw [packs]
        simp [packsOf]
      · intro d member
        rcases reads d member with before | far
        · rw [Queue.reads_pushData, Queue.reads_log, List.mem_append, List.mem_singleton] at before
          rcases before with old | rfl
          · exact .inl old
          · right
            simp only [List.length_append]
            omega
        · exact .inr far

/-- A chunk that ends the data frames and goes on behind them. -/
theorem filterData_through {fd : Fd} {q : Queue} {fs : List DataFrame} {bytes extra : Bytes}
    (awaits : Awaits (q.pending fd) fs bytes) (data : bytes ≠ []) (some : extra ≠ [])
    (drained : q.packs = []) (unread : q.reads = []) :
    ∃ q', filterData false fd q (bytes ++ extra) =
        (pushMore false fd q' extra).map (·, .more) ∧
      q'.packs = packsOf fd fs ∧ q'.pending fd = [] ∧ ∀ d ∈ q'.reads, extra.length ≤ d := by
  generalize records : q.pending fd = ucs at awaits
  cases awaits with
  | done => exact absurd rfl data
  | @frame f fs n inside =>
      obtain ⟨reads, far, ran⟩ := filterData_frame records inside (encodeAll fs ++ extra)
      obtain ⟨q', goes, packs, pending, later⟩ :=
        pushMore_through fd (((q.findUncomplete fd).2.log reads).pushData fd f.payload) fs some
      refine ⟨q', ?_, ?_, ?_, ?_⟩
      · rw [List.append_assoc, ran, deliver, if_neg (by simp [some]), goes]
      · simp [packs, drained, packsOf]
      · simp [pending, records, tail_heldAfter]
      · intro d member
        rcases later d member with before | behind
        · rw [Queue.reads_pushData, Queue.reads_log, Queue.reads_findUncomplete, unread,
            List.nil_append] at before
          rw [far d before]
          simp only [List.length_append]
          omega
        · exact behind

theorem nextHead_singleton {throwAway : Int → Bool} (keep : throwAway (-1) = false) (b : UInt8) :
    nextHead throwAway false [b] = { reads := [1], head := { size := -1 }, buffer := [b] } :=
  nextHead_of_keep throwAway [b] keep (show (-1 : Int) ≤ maxPacksize by decide)

/-- The first byte of a frame alone is saved. -/
theorem pushMore_singleton (fd : Fd) (q : Queue) (b : UInt8) :
    pushMore false fd q [b] = .ok ((q.log [1]).saveUncomplete fd (.header [b])) := by
  rw [pushMore_eq, nextHead_singleton rfl]
  rfl

theorem filterFresh_singleton (fd : Fd) (q : Queue) (b : UInt8) :
    filterFresh false fd q [b] = .ok ((q.log [1]).saveUncomplete fd (.header [b]), .queue) := by
  unfold filterFresh
  rw [nextHead_singleton rfl]
  rfl

theorem encode_close (c : CloseFrame) :
    c.encode = c.firstByte :: c.secondByte :: (c.extendedLength ++ c.maskBytes ++ c.body) := by
  simp [Frame.encode, Frame.header]

/-- At the start of a chunk two bytes of a close frame are enough. -/
theorem filterFresh_close (fd : Fd) (q : Queue) (c : CloseFrame) (b : UInt8) (buffer : Bytes) :
    filterFresh false fd q (c.firstByte :: b :: buffer) =
      .ok ((q.log [buffer.length + 2]).closeUncomplete fd, .close fd) := by
  have close := readSize_of_close c.toFrame c.close b buffer
  have scan := nextHead_of_keep invalid (c.firstByte :: b :: buffer)
    (by rw [close]; rfl) (by rw [close]; decide)
  unfold filterFresh
  simp only [scan, close]
  rfl

/-- Behind a data frame two bytes of a close frame are thrown away. -/
theorem skipHeads_close (c : CloseFrame) (b : UInt8) (buffer : Bytes) :
    skipHeads invalidOrClose (c.firstByte :: b :: buffer) =
      { skipHeads invalidOrClose buffer with
        reads := (buffer.length + 2) :: (skipHeads invalidOrClose buffer).reads } := by
  have close := readSize_of_close c.toFrame c.close b buffer
  have thrown : invalidOrClose (readSize (c.firstByte :: b :: buffer)).size = true := by
    rw [close]
    rfl
  rw [skipHeads]
  simp only [if_pos thrown]

theorem pushMore_close_reads {fd : Fd} {q q' : Queue} (c : CloseFrame) {b : UInt8}
    {buffer : Bytes} (ran : pushMore false fd q (c.firstByte :: b :: buffer) = .ok q') :
    buffer.length ∈ q'.reads := by
  apply reads_of_pushMore ran
  have looked := length_mem_skipHeads invalidOrClose buffer
  simp [nextHead, skipHeads_close, looked]

theorem pushMore_close_whole (fd : Fd) (q : Queue) (c : CloseFrame) (b : UInt8) :
    pushMore false fd q [c.firstByte, b] =
      .ok ((q.log [2, 0]).saveUncomplete fd (.header [])) := by
  rw [pushMore_eq]
  simp only [nextHead, skipHeads_close]
  rfl

/-- Behind its first byte, the rest of a chunk is added to the close frame. -/
theorem filterHeader_close (fd : Fd) (q : Queue) (c : CloseFrame) {chunk : Bytes}
    (some : chunk ≠ []) :
    filterHeader false fd q [c.firstByte] chunk =
      if chunk.length + 1 ≤ headersize then
        .ok ((q.log (List.replicate chunk.length (1 + chunk.length))).closeUncomplete fd, .close fd)
      else .error .headerOverflow := by
  have size : ∀ p, p ≠ [] → (readSize ([c.firstByte] ++ p)).size = -3 := by
    intro p nonempty
    cases p with
    | nil => exact absurd rfl nonempty
    | cons b p =>
        rw [List.singleton_append, readSize_of_close c.toFrame c.close]
  have waits : ∀ p, p ≠ [] → p <+: chunk → Waits ([c.firstByte] ++ p) :=
    fun p nonempty _ => .inr (size p nonempty)
  unfold filterHeader
  by_cases fits : chunk.length + 1 ≤ headersize
  · have filled := fillHeader_waits some (by rw [List.length_singleton]; omega) waits
    simp only [filled, size chunk some, if_pos fits, List.length_singleton]
    rfl
  · have overflow :=
      fillHeader_overflow (by simp [headersize]) (by rw [List.length_singleton]; omega) waits
    simp only [overflow, if_neg fits]

/-! ## Where the last chunk begins -/

section Cut

variable {c : CloseFrame} {chunk : Bytes} {chunks : List Bytes}

theorem cutBeforeClose_cons (more : chunks ≠ []) :
    CutBeforeClose c (chunk :: chunks) ↔ CutBeforeClose c chunks := by
  unfold CutBeforeClose
  cases chunks with
  | nil => exact absurd rfl more
  | cons next chunks => rw [List.getLast?_cons_cons]

/-- The last chunk is no longer than all of them. -/
theorem not_cutBeforeClose (short : chunks.flatten.length + 1 < c.encode.length) :
    ¬ CutBeforeClose c chunks := by
  have bound : ∀ last, chunks.getLast? = some last → last.length ≤ chunks.flatten.length :=
    fun last final => (List.sublist_flatten_of_mem (List.mem_of_getLast? final)).length_le
  intro cut
  rcases cut with whole | ⟨tail, -⟩
  · have := bound _ whole
    omega
  · have := bound _ tail
    rw [List.length_tail] at this
    omega

theorem cutBeforeClose_singleton : CutBeforeClose c [chunk] ↔
    chunk = c.encode ∨ chunk = c.encode.tail ∧ c.encode.length ≤ headersize := by
  simp [CutBeforeClose]

/-- Where less than all but one byte of the close frame is behind a chunk, the chunk must be the
last. -/
theorem cutBeforeClose_iff_last (short : chunks.flatten.length + 1 < c.encode.length) :
    CutBeforeClose c (chunk :: chunks) ↔ chunks = [] ∧ CutBeforeClose c [chunk] := by
  by_cases last : chunks = []
  · simp [last]
  · rw [cutBeforeClose_cons last]
    simp [last, not_cutBeforeClose short]

theorem two_le_length_close (c : CloseFrame) : 2 ≤ c.encode.length := by
  have := c.two_le_length_header
  rw [Frame.length_encode]
  omega

end Cut

/-! ## One chunk after the other -/

section Feed

variable {fd : Fd} {q q' : Queue} {c : CloseFrame} {before position : Nat} {chunk : Bytes}
  {chunks : List Bytes}

theorem feed_of_filter {events : List Event}
    (filtered : filter false fd q chunk = .ok (q', events)) :
    feed fd before q (chunk :: chunks) =
      (feed fd (before + chunk.length) q' chunks).map fun (later, starts) =>
        (events ++ later, q'.reads.map (fun d => before + chunk.length - d) ++ starts) := by
  rw [feed, filtered]

theorem feed_of_error {fault : Fault} (failed : filter false fd q chunk = .error fault) :
    feed fd before q (chunk :: chunks) = .error fault := by
  rw [feed, failed]

/-- A chunk that delivers data frames, and looks for headers outside the close frame, leaves the
rest to the chunks behind it. -/
theorem closesOnce_cons {fs done left : List DataFrame}
    (filtered : filter false fd q chunk = .ok (q', (packsOf fd done).map Pack.event))
    (split : fs = done ++ left)
    (outside : ∀ d ∈ q'.reads, before + chunk.length - d ≤ position) :
    ClosesOnce fd fs c position (feed fd before q (chunk :: chunks)) ↔
      ClosesOnce fd left c position (feed fd (before + chunk.length) q' chunks) := by
  have events : (fs.map fun f => Event.message fd f.payload) =
      (packsOf fd done).map Pack.event ++ left.map fun f => Event.message fd f.payload := by
    rw [split, List.map_append, packsOf, List.map_map]
    rfl
  unfold ClosesOnce
  rw [feed_of_filter filtered, events, List.append_assoc]
  cases feed fd (before + chunk.length) q' chunks with
  | error fault => simp [Except.map]
  | ok result =>
      obtain ⟨later, starts⟩ := result
      simp only [Except.map, Except.ok.injEq, Prod.mk.injEq, List.append_cancel_left_eq]
      constructor
      · intro closes
        obtain ⟨_, ⟨same, rfl⟩, outer⟩ := closes
        exact ⟨starts, ⟨same, rfl⟩, fun p member => outer p (List.mem_append_right _ member)⟩
      · intro closes
        obtain ⟨_, ⟨same, rfl⟩, outer⟩ := closes
        refine ⟨_, ⟨same, rfl⟩, fun p member => ?_⟩
        rcases List.mem_append.mp member with here | there
        · obtain ⟨d, looked, rfl⟩ := List.mem_map.mp here
          exact .inl (outside d looked)
        · exact outer p there

/-- The part of `ClosesOnce` that is about headers. -/
def LooksOutside (c : CloseFrame) (position : Nat)
    (outcome : Except Fault (List Event × List Nat)) : Prop :=
  ∃ events starts, outcome = .ok (events, starts) ∧
    ∀ p ∈ starts, p ≤ position ∨ position + c.encode.length ≤ p

theorem ClosesOnce.looksOutside {fs : List DataFrame}
    {outcome : Except Fault (List Event × List Nat)}
    (closes : ClosesOnce fd fs c position outcome) :
    LooksOutside c position outcome := by
  obtain ⟨starts, ran, outer⟩ := closes
  exact ⟨_, starts, ran, outer⟩

/-- Headers are looked for outside the close frame in each chunk and behind it. -/
theorem LooksOutside.cons {events : List Event}
    (filtered : filter false fd q chunk = .ok (q', events))
    (looks : LooksOutside c position (feed fd before q (chunk :: chunks))) :
    (∀ d ∈ q'.reads, before + chunk.length - d ≤ position ∨
        position + c.encode.length ≤ before + chunk.length - d) ∧
      LooksOutside c position (feed fd (before + chunk.length) q' chunks) := by
  obtain ⟨all, starts, ran, outer⟩ := looks
  rw [feed_of_filter filtered] at ran
  cases later : feed fd (before + chunk.length) q' chunks with
  | error fault =>
      rw [later] at ran
      cases ran
  | ok result =>
      rw [later] at ran
      simp only [Except.map, Except.ok.injEq, Prod.mk.injEq] at ran
      obtain ⟨-, rfl⟩ := ran
      refine ⟨fun d looked => ?_, result.1, result.2, rfl, fun p member => ?_⟩
      · exact outer _ (List.mem_append_left _ (List.mem_map_of_mem looked))
      · exact outer p (List.mem_append_right _ member)

theorem LooksOutside.filtered
    (looks : LooksOutside c position (feed fd before q (chunk :: chunks))) :
    ∃ q₁ q₂ reply events, filterData false fd { q with reads := [] } chunk = .ok (q₁, reply) ∧
      filter false fd q chunk = .ok (q₂, events) ∧
      events = reply.events ++ q₁.packs.map Pack.event ∧ q₂.reads = q₁.reads := by
  cases ran : filterData false fd { q with reads := [] } chunk with
  | error fault =>
      obtain ⟨_, _, fed, -⟩ := looks
      rw [feed, filter, ran] at fed
      cases fed
  | ok result =>
      obtain ⟨q₂, filtered, -, -, reads⟩ := filter_of_filterData ran
      exact ⟨result.1, q₂, result.2, _, rfl, filtered, rfl, reads⟩

/-- A chunk that begins inside the close frame, with nothing pending, is read as a header. -/
theorem not_looksOutside_of_fresh (idle : q.pending fd = []) (behind : position < before)
    (inside : before < position + c.encode.length) :
    ¬ LooksOutside c position (feed fd before q (chunk :: chunks)) := by
  intro looks
  obtain ⟨q₁, q₂, reply, events, ran, filtered, -, reads⟩ := looks.filtered
  rw [filterData_fresh (show Queue.pending { q with reads := [] } fd = [] from idle)] at ran
  have looked : chunk.length ∈ q₂.reads := by
    rw [reads]
    exact length_mem_filterFresh ran
  have := (looks.cons filtered).1 _ looked
  omega

/-- Once the socket is closed, there must be nothing more of the close frame. -/
theorem closesOnce_of_closed (filtered : filter false fd q chunk = .ok (q', [.closed fd]))
    (idle : q'.pending fd = []) (outside : ∀ d ∈ q'.reads, before + chunk.length - d ≤ position)
    (behind : position < before + chunk.length)
    (total : before + chunk.length + chunks.flatten.length = position + c.encode.length)
    (nonempty : ∀ chunk ∈ chunks, chunk ≠ []) :
    ClosesOnce fd [] c position (feed fd before q (chunk :: chunks)) ↔ chunks = [] := by
  cases chunks with
  | nil =>
      refine ⟨fun _ => rfl, fun _ => ?_⟩
      rw [feed_of_filter filtered]
      refine ⟨_, rfl, fun p member => ?_⟩
      rw [List.append_nil] at member
      obtain ⟨d, looked, rfl⟩ := List.mem_map.mp member
      exact .inl (outside d looked)
  | cons next chunks =>
      have some : 0 < next.length := List.length_pos_iff.mpr (nonempty next (by simp))
      rw [List.flatten_cons, List.length_append] at total
      refine ⟨fun closes => ?_, fun none => by cases none⟩
      have later := (closes.looksOutside.cons filtered).2
      exact absurd later (not_looksOutside_of_fresh idle behind (by omega))

/-! ## The two paths to a close frame -/

/-- The first byte of the close frame is saved: the next chunk closes the socket. -/
theorem closesOnce_after_first (pending : q.pending fd = [.header [c.firstByte]])
    (drained : q.packs = []) (nonempty : ∀ chunk ∈ chunks, chunk ≠ [])
    (rest : chunks.flatten = c.encode.tail) :
    ClosesOnce fd [] c position (feed fd (position + 1) q chunks) ↔ CutBeforeClose c chunks := by
  have long := two_le_length_close c
  have total := congrArg List.length rest
  rw [List.length_tail] at total
  cases chunks with
  | nil =>
      rw [List.flatten_nil, List.length_nil] at total
      omega
  | cons chunk chunks =>
      rw [List.flatten_cons, List.length_append] at total
      have some : chunk ≠ [] := nonempty chunk (by simp)
      have length : 0 < chunk.length := List.length_pos_iff.mpr some
      have ran : filterData false fd { q with reads := [] } chunk =
          filterHeader false fd (Queue.findUncomplete { q with reads := [] } fd).2 [c.firstByte]
            chunk :=
        filterData_header pending
      rw [filterHeader_close _ _ _ some] at ran
      by_cases fits : chunk.length + 1 ≤ headersize
      · rw [if_pos fits] at ran
        obtain ⟨q', filtered, -, records, reads⟩ := filter_of_filterData ran
        have closed : filter false fd q chunk = .ok (q', [.closed fd]) := by
          have none : Queue.packs { q with reads := [] } = [] := drained
          simpa [Reply.events, none] using filtered
        have idle : q'.pending fd = [] := by
          have before : Queue.pending { q with reads := [] } fd = [.header [c.firstByte]] := pending
          simp [records, before]
        have outside : ∀ d ∈ q'.reads, position + 1 + chunk.length - d ≤ position := by
          intro d looked
          obtain ⟨-, rfl⟩ : chunk ≠ [] ∧ d = 1 + chunk.length := by simpa [reads] using looked
          omega
        rw [closesOnce_of_closed closed idle outside (by omega) (by omega)
          (fun chunk member => nonempty chunk (by simp [member])),
          cutBeforeClose_iff_last (by omega)]
        refine ⟨fun last => ⟨last, ?_⟩, fun both => both.1⟩
        subst last
        rw [List.flatten_cons, List.flatten_nil, List.append_nil] at rest
        exact cutBeforeClose_singleton.mpr (.inr ⟨rest, by simp at total; omega⟩)
      · rw [if_neg fits] at ran
        have failed : filter false fd q chunk = .error .headerOverflow := by rw [filter, ran]
        rw [cutBeforeClose_iff_last (by omega)]
        constructor
        · intro closes
          obtain ⟨starts, fed, -⟩ := closes
          rw [feed_of_error failed] at fed
          cases fed
        · intro last
          obtain ⟨rfl, whole⟩ := last
          simp only [List.flatten_nil, List.length_nil] at total
          rcases cutBeforeClose_singleton.mp whole with all | ⟨-, short⟩
          · have := congrArg List.length all
            omega
          · omega

/-- The first byte of the close frame at the end of a chunk is saved. -/
theorem filter_first_byte {fs : List DataFrame} {bytes : Bytes}
    (awaits : Awaits (q.pending fd) fs bytes) (drained : q.packs = []) (b : UInt8) :
    ∃ q', filter false fd q (bytes ++ [b]) = .ok (q', (packsOf fd fs).map Pack.event) ∧
      q'.pending fd = [.header [b]] ∧ q'.packs = [] ∧ ∀ d ∈ q'.reads, 1 ≤ d := by
  have empty : Queue.packs { q with reads := [] } = [] := drained
  by_cases data : bytes = []
  · subst data
    obtain ⟨none, rfl⟩ := awaits.eq_nil
    have idle : Queue.pending { q with reads := [] } fd = [] := none
    have ran : filterData false fd { q with reads := [] } [b] = _ := filterData_fresh idle
    rw [filterFresh_singleton] at ran
    obtain ⟨q', filtered, clean, records, reads⟩ := filter_of_filterData ran
    refine ⟨q', ?_, ?_, clean, ?_⟩
    · simpa [Reply.events, empty, packsOf] using filtered
    · simp [records, idle]
    · simp [reads]
  · obtain ⟨q₁, ran, packs, idle, far⟩ :=
      filterData_through (q := { q with reads := [] }) awaits data (List.cons_ne_nil b []) empty rfl
    rw [pushMore_singleton] at ran
    obtain ⟨q', filtered, clean, records, reads⟩ := filter_of_filterData ran
    refine ⟨q', ?_, ?_, clean, ?_⟩
    · simpa [Reply.events, packs] using filtered
    · simp [records, idle]
    · intro d looked
      rw [reads, Queue.reads_saveUncomplete, Queue.reads_log, List.mem_append,
        List.mem_singleton] at looked
      rcases looked with before | rfl
      · simpa using far d before
      · exact Nat.le_refl 1

/-- Two bytes of the close frame behind data frames: they are thrown away. -/
theorem not_closesOnce_of_through {fs : List DataFrame} {bytes extra : Bytes} {b : UInt8}
    (awaits : Awaits (q.pending fd) fs bytes) (data : bytes ≠ []) (drained : q.packs = [])
    (rest : c.encode = (c.firstByte :: b :: extra) ++ chunks.flatten)
    (nonempty : ∀ chunk ∈ chunks, chunk ≠ []) :
    ¬ ClosesOnce fd fs c (before + bytes.length)
      (feed fd before q ((bytes ++ c.firstByte :: b :: extra) :: chunks)) := by
  intro closes
  have looks := closes.looksOutside
  obtain ⟨q₁, q₂, reply, events, ran, filtered, value, reads⟩ := looks.filtered
  obtain ⟨q₃, through, packs, -, -⟩ :=
    filterData_through (q := { q with reads := [] }) awaits data
      (List.cons_ne_nil c.firstByte (b :: extra)) drained rfl
  rw [through] at ran
  cases pushed : pushMore false fd q₃ (c.firstByte :: b :: extra) with
  | error fault =>
      rw [pushed] at ran
      cases ran
  | ok q₄ =>
      rw [pushed] at ran
      obtain ⟨rfl, rfl⟩ : q₄ = q₁ ∧ Reply.more = reply := by simpa [Except.map] using ran
      have looked : extra.length ∈ q₂.reads := by
        rw [reads]
        exact pushMore_close_reads c pushed
      have start := (looks.cons filtered).1 _ looked
      have total := congrArg List.length rest
      simp only [List.length_append, List.length_cons] at start total
      -- the header behind the two bytes is inside the close frame, unless there are no more
      obtain rfl : extra = [] := List.length_eq_zero_iff.mp (by omega)
      have last : chunks = [] := by
        apply List.eq_nil_iff_forall_not_mem.mpr
        intro chunk member
        have short := (List.sublist_flatten_of_mem member).length_le
        exact nonempty chunk member (List.length_eq_zero_iff.mp (by omega))
      subst last
      rw [pushMore_close_whole, Except.ok.injEq] at pushed
      obtain ⟨starts, fed, -⟩ := closes
      rw [feed_of_filter filtered, value, ← pushed] at fed
      have counts := congrArg (fun outcome => outcome.map fun result => result.1.length) fed
      simp [feed, Except.map, Reply.events, packs, packsOf] at counts

/-- A chunk that starts with two bytes of the close frame closes the socket. -/
theorem filter_close {b : UInt8} {extra : Bytes} (idle : q.pending fd = [])
    (drained : q.packs = []) :
    ∃ q', filter false fd q (c.firstByte :: b :: extra) = .ok (q', [.closed fd]) ∧
      q'.pending fd = [] ∧ ∀ d ∈ q'.reads, d = extra.length + 2 := by
  have records : Queue.pending { q with reads := [] } fd = [] := idle
  have empty : Queue.packs { q with reads := [] } = [] := drained
  have ran : filterData false fd { q with reads := [] } (c.firstByte :: b :: extra) = _ :=
    filterData_fresh records
  rw [filterFresh_close] at ran
  obtain ⟨q', filtered, -, later, reads⟩ := filter_of_filterData ran
  refine ⟨q', ?_, ?_, ?_⟩
  · simpa [Reply.events, empty] using filtered
  · simp [later, records]
  · simp [reads]

/-- The chunk that holds the first byte of the close frame. -/
theorem closesOnce_of_reach {fs : List DataFrame} {bytes extra : Bytes}
    (awaits : Awaits (q.pending fd) fs bytes) (drained : q.packs = [])
    (nonempty : ∀ chunk ∈ chunks, chunk ≠ []) (some : extra ≠ [])
    (rest : c.encode = extra ++ chunks.flatten) :
    ClosesOnce fd fs c (before + bytes.length) (feed fd before q ((bytes ++ extra) :: chunks)) ↔
      CutBeforeClose c ((bytes ++ extra) :: chunks) := by
  have long := two_le_length_close c
  have total := congrArg List.length rest
  rw [List.length_append] at total
  have bytesOf := encode_close c
  rw [rest] at bytesOf
  match extra with
  | [] => exact absurd rfl some
  | [b] =>
      obtain ⟨rfl, -⟩ := List.cons.inj bytesOf
      obtain ⟨q', filtered, pending, empty, far⟩ := filter_first_byte awaits drained c.firstByte
      have behind : chunks ≠ [] := by
        intro none
        rw [none, List.flatten_nil, List.length_nil, List.length_singleton] at total
        omega
      have outside : ∀ d ∈ q'.reads,
          before + (bytes ++ [c.firstByte]).length - d ≤ before + bytes.length := by
        intro d looked
        have := far d looked
        rw [List.length_append, List.length_singleton]
        omega
      have tail : chunks.flatten = c.encode.tail := by
        rw [rest]
        rfl
      rw [closesOnce_cons filtered (List.append_nil fs).symm outside, cutBeforeClose_cons behind,
        List.length_append, List.length_singleton, ← Nat.add_assoc]
      exact closesOnce_after_first pending empty nonempty tail
  | b :: b' :: extra =>
      obtain ⟨rfl, -⟩ := List.cons.inj bytesOf
      simp only [List.length_cons] at total
      rw [cutBeforeClose_iff_last (by omega)]
      by_cases data : bytes = []
      · subst data
        obtain ⟨idle, rfl⟩ := awaits.eq_nil
        obtain ⟨q', closed, records, reads⟩ := filter_close (c := c) idle drained
        rw [List.nil_append, closesOnce_of_closed closed records (by
            intro d looked
            rw [reads d looked]
            simp only [List.length_cons, List.length_nil]
            omega) (by simp) (by simp only [List.length_cons, List.length_nil]; omega) nonempty]
        refine ⟨fun last => ⟨last, cutBeforeClose_singleton.mpr (.inl ?_)⟩, fun both => both.1⟩
        rw [rest, last, List.flatten_nil, List.append_nil]
      · refine ⟨fun closes => absurd closes ?_, ?_⟩
        · exact not_closesOnce_of_through awaits data drained rest nonempty
        · intro last
          obtain ⟨rfl, whole⟩ := last
          have dataLength : 0 < bytes.length := List.length_pos_iff.mpr data
          rw [List.flatten_nil, List.length_nil] at total
          rcases cutBeforeClose_singleton.mp whole with all | ⟨tail, -⟩
          · have := congrArg List.length all
            simp only [List.length_append, List.length_cons] at this
            omega
          · have := congrArg List.length tail
            simp only [List.length_append, List.length_cons, List.length_tail] at this
            omega

/-- A close frame behind data frames, wherever the stream is cut. -/
theorem closesOnce_iff {fs : List DataFrame} {bytes : Bytes}
    (awaits : Awaits (q.pending fd) fs bytes) (drained : q.packs = [])
    (nonempty : ∀ chunk ∈ chunks, chunk ≠ []) (stream : chunks.flatten = bytes ++ c.encode) :
    ClosesOnce fd fs c (before + bytes.length) (feed fd before q chunks) ↔
      CutBeforeClose c chunks := by
  have long := two_le_length_close c
  induction chunks generalizing q fs bytes before with
  | nil =>
      have := congrArg List.length stream
      simp only [List.flatten_nil, List.length_nil, List.length_append] at this
      omega
  | cons chunk chunks ih =>
      obtain ⟨some, others⟩ := List.forall_mem_cons.mp nonempty
      rw [List.flatten_cons] at stream
      rcases cut_cases stream.symm with ⟨extra, more, rfl, rest⟩ | ⟨missing, rfl, rest⟩
      · exact closesOnce_of_reach awaits drained others more rest
      · -- the chunk ends before the close frame, or just there
        obtain ⟨q', done, left, filtered, split, later, empty, -⟩ :=
          filter_frames awaits some drained
        have behind : chunks ≠ [] := by
          intro none
          subst none
          have := congrArg List.length rest
          simp only [List.flatten_nil, List.length_nil, List.length_append] at this
          omega
        have outside : ∀ d ∈ q'.reads,
            before + chunk.length - d ≤ before + (chunk ++ missing).length := by
          intro d _
          rw [List.length_append]
          omega
        have position : before + (chunk ++ missing).length =
            before + chunk.length + missing.length := by
          rw [List.length_append, Nat.add_assoc]
        rw [closesOnce_cons filtered split outside, cutBeforeClose_cons behind, position]
        exact ih later empty others rest

end Feed

/-- The gate hears of a close frame behind any data frames, once and after them, and no header is
looked for inside it, exactly when the stream is cut just before it or just behind its first byte,
and not again. -/
theorem reportsClose_iff (fd : Fd) (q : Queue) (fs : List DataFrame) (c : CloseFrame)
    (chunks : List Bytes) (drained : q.packs = []) (idle : q.pending fd = [])
    (nonempty : ∀ chunk ∈ chunks, chunk ≠ [])
    (stream : chunks.flatten = encodeAll fs ++ c.encode) :
    ClosesOnce fd fs c (encodeAll fs).length (feed fd 0 q chunks) ↔ CutBeforeClose c chunks := by
  have awaits : Awaits (q.pending fd) fs (encodeAll fs) := by
    rw [idle]
    exact .start fs
  rw [← closesOnce_iff awaits drained nonempty stream, Nat.zero_add]

/-- The text `hi`. -/
def hiFrame : DataFrame where
  opcode := 1
  lengthField := .seven
  mask := none
  payload := [104, 105]
  fits := by decide
  notContinuation := by decide
  notClose := by decide
  short := by decide

/-- The shortest close frame. -/
def shortClose : CloseFrame where
  opcode := 8
  lengthField := .seven
  mask := none
  payload := []
  fits := by decide
  close := rfl

theorem close_alone_reported :
    ClosesOnce 1 [hiFrame] shortClose 4 (feed 1 0 .empty [[0x81, 2], [104, 105], [0x88, 0]]) :=
  (reportsClose_iff 1 .empty [hiFrame] shortClose [[0x81, 2], [104, 105], [0x88, 0]] rfl rfl
    (by decide) (by decide)).mpr (.inl rfl)

/-- In one chunk with a data frame the close frame is not reported. -/
theorem close_behind_data_lost :
    ¬ ∀ (fd : Fd) (fs : List DataFrame) (c : CloseFrame) (chunks : List Bytes),
      (∀ chunk ∈ chunks, chunk ≠ []) → chunks.flatten = encodeAll fs ++ c.encode →
        ClosesOnce fd fs c (encodeAll fs).length (feed fd 0 .empty chunks) := by
  intro always
  have closes : ClosesOnce 1 [hiFrame] shortClose (0 + (encodeAll [hiFrame]).length)
      (feed 1 0 .empty [[0x81, 2, 104, 105, 0x88, 0]]) := by
    rw [Nat.zero_add]
    exact always 1 [hiFrame] shortClose _ (by decide) (by decide)
  have awaits : Awaits (Queue.empty.pending 1) [hiFrame] (encodeAll [hiFrame]) := .start _
  have cut := (closesOnce_iff awaits rfl (by decide) (by decide)).mp closes
  rcases cutBeforeClose_singleton.mp cut with whole | ⟨tail, -⟩
  · exact absurd whole (by decide)
  · exact absurd tail (by decide)

end RillServer.Netpack
