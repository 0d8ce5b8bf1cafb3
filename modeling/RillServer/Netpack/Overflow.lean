import RillServer.Netpack.Lengths
import RillServer.Netpack.Requests

/-!
# Writes to a pending header

A header that is not complete is kept in `uc->header`, which has `HEADERSIZE` bytes. Two writes go
beyond it. The loop of `filter_data_` that takes a pending header byte by byte tests its length
after the byte was written, and only in the handshake; a frame that is closing, or whose length is
negative as an `int`, does not end the loop. And the rest of a chunk is saved as a header whenever
`read_size` gives `-1`, which is also what a length of 2 ^ 32 - 1 is read as.

`Overruns` are the chunks that make one of them go beyond the header (`header_room_iff`).
-/

namespace RillServer.Netpack

/-- Behind frames that it holds whole, a buffer has a frame whose length is read as `-1`, more than
`HEADERSIZE` bytes before its end. -/
inductive Wraps : (Int → Bool) → Bytes → Prop
  | here {throwAway : Int → Bool} {buffer : Bytes} :
    (nextHead throwAway false buffer).head.size = -1 →
    headersize < (nextHead throwAway false buffer).buffer.length → Wraps throwAway buffer
  | later {throwAway : Int → Bool} {buffer : Bytes} {n : Nat} :
    (nextHead throwAway false buffer).head.size = n →
    (nextHead throwAway false buffer).head.packHeadLength + n <
      (nextHead throwAway false buffer).buffer.length →
    Wraps invalidOrClose ((nextHead throwAway false buffer).buffer.drop
      ((nextHead throwAway false buffer).head.packHeadLength + n)) →
    Wraps throwAway buffer

/-- A pending header is completed by these bytes and not by fewer. -/
structure Completes (header taken : Bytes) : Prop where
  some : taken ≠ []
  whole : 0 ≤ (nextHead invalid false (header ++ taken)).head.size
  fewer : ∀ p, p <+: taken → p ≠ [] → p ≠ taken →
    (nextHead invalid false (header ++ p)).head.size < 0

/-- The chunks that make a write go beyond a header, with what is pending for the socket. -/
inductive Overruns : Bool → Option Uncomplete → Bytes → Prop
  /-- the header is full -/
  | full {handshake : Bool} {header chunk : Bytes} : chunk ≠ [] → headersize ≤ header.length →
    Overruns handshake (some (.header header)) chunk
  /-- a request does not end within the header -/
  | request {header chunk : Bytes} : chunk ≠ [] → headersize < (header ++ chunk).length →
    getHttpHeader ((header ++ chunk).take headersize) < 0 →
    Overruns true (some (.header header)) chunk
  /-- a close frame, or a length that is negative as an `int` -/
  | negative {header chunk : Bytes} : chunk ≠ [] →
    (nextHead invalid false (header ++ chunk)).head.size < 0 →
    headersize < (nextHead invalid false (header ++ chunk)).buffer.length →
    Overruns false (some (.header header)) chunk
  /-- behind a packet whose header was pending -/
  | afterHeader {header taken left : Bytes} {n : Nat} : Completes header taken →
    (nextHead invalid false (header ++ taken)).head.size = n → n < left.length →
    Wraps invalidOrClose (left.drop n) → Overruns false (some (.header header)) (taken ++ left)
  /-- behind a packet a part of which was pending -/
  | afterBody {size : Nat} {read chunk : Bytes} {mask : Option Mask} {hasunmaskSize : Nat} :
    size - read.length < chunk.length → Wraps invalidOrClose (chunk.drop (size - read.length)) →
    Overruns false (some (.body size read mask hasunmaskSize)) chunk
  /-- nothing was pending -/
  | fresh {chunk : Bytes} : Wraps invalid chunk → Overruns false none chunk

/-! ## Headers that are saved -/

theorem ok_ne_error {α : Type} {result : α} {fault : Fault} : Except.ok result ≠ .error fault :=
  fun same => by cases same

theorem savedHeader_handshake (buffer : Bytes) :
    savedHeader true buffer = .ok (buffer.take headersize) := by
  unfold savedHeader
  by_cases long : buffer.length > headersize
  · rw [if_pos ⟨rfl, long⟩]
  · rw [if_neg (fun both => long both.2), if_neg long, List.take_of_length_le (by omega)]

theorem savedHeader_error_iff {buffer : Bytes} :
    savedHeader false buffer = .error .headerOverflow ↔ headersize < buffer.length := by
  unfold savedHeader
  by_cases long : buffer.length > headersize
  · rw [if_neg (by simp), if_pos long]
    exact iff_of_true rfl long
  · rw [if_neg (by simp), if_neg long]
    exact iff_of_false ok_ne_error long

theorem savedHeader_error {handshake : Bool} {buffer : Bytes} {fault : Fault}
    (failed : savedHeader handshake buffer = .error fault) : fault = .headerOverflow := by
  unfold savedHeader at failed
  split at failed
  · cases failed
  · split at failed
    · cases failed
      rfl
    · cases failed

theorem malloc_error {size : Int} {fault : Fault} (failed : malloc size = .error fault) :
    fault = .negativeSize := by
  unfold malloc at failed
  split at failed
  · cases failed
    rfl
  · cases failed

theorem malloc_neg {size : Int} {fault : Fault} (failed : malloc size = .error fault) :
    size < 0 := by
  by_contra nonneg
  rw [malloc, if_neg nonneg] at failed
  cases failed

/-! ## Frames behind one another -/

section PushMore

variable {fd : Fd}

/-- In the handshake `push_more` fails nowhere. -/
theorem pushMore_handshake (fd : Fd) (q : Queue) (buffer : Bytes) :
    ∃ q', pushMore true fd q buffer = .ok q' := by
  induction size : buffer.length using Nat.strongRecOn generalizing buffer q with
  | ind size ih =>
    rw [pushMore_eq]
    simp only [nextHead_handshake, savedHeader_handshake, Bool.true_eq_false, and_false, if_false,
      List.drop_zero]
    rcases getHttpHeader_bounds buffer with missing | ⟨found, inside⟩
    · rw [if_pos missing]
      exact ⟨_, rfl⟩
    · obtain ⟨n, value⟩ := Int.eq_ofNat_of_zero_le (show 0 ≤ getHttpHeader buffer by omega)
      rw [if_neg (by omega), value]
      simp only [malloc_natCast]
      split
      · exact ih _ (by rw [List.length_drop]; omega) _ _ rfl
      · exact ⟨_, rfl⟩

/-- Behind the packet that was found. -/
def WrapsBehind (scan : Scan) : Prop :=
  ∃ n : Nat, scan.head.size = n ∧ scan.head.packHeadLength + n < scan.buffer.length ∧
    Wraps invalidOrClose (scan.buffer.drop (scan.head.packHeadLength + n))

theorem wraps_iff {throwAway : Int → Bool} {buffer : Bytes} {scan : Scan}
    (next : nextHead throwAway false buffer = scan) :
    Wraps throwAway buffer ↔
      (scan.head.size = -1 ∧ headersize < scan.buffer.length) ∨ WrapsBehind scan := by
  subst next
  constructor
  · intro wraps
    cases wraps with
    | here waits long => exact .inl ⟨waits, long⟩
    | later size inside behind => exact .inr ⟨_, size, inside, behind⟩
  · intro cases
    rcases cases with ⟨waits, long⟩ | ⟨n, size, inside, behind⟩
    · exact .here waits long
    · exact .later size inside behind

theorem not_wrapsBehind_of_neg {scan : Scan} (negative : scan.head.size < 0) :
    ¬ WrapsBehind scan := by
  intro wraps
  obtain ⟨n, size, -⟩ := wraps
  omega

theorem wrapsBehind_iff {scan : Scan} (nonneg : 0 ≤ scan.head.size) :
    WrapsBehind scan ↔
      ((scan.buffer.drop scan.head.packHeadLength).drop scan.head.size.toNat).length > 0 ∧
        Wraps invalidOrClose
          ((scan.buffer.drop scan.head.packHeadLength).drop scan.head.size.toNat) := by
  rw [List.drop_drop, List.length_drop]
  constructor
  · intro wraps
    obtain ⟨n, size, inside, behind⟩ := wraps
    rw [size, Int.toNat_natCast]
    exact ⟨by omega, behind⟩
  · intro wraps
    exact ⟨scan.head.size.toNat, by omega, by omega, wraps.2⟩

/-- The rest of a chunk is saved as a header. -/
theorem saved_overflow_iff {α : Type} {scan : Scan} (waits : scan.head.size = -1)
    (save : Bytes → α) :
    (match savedHeader false scan.buffer with
      | .error fault => .error fault
      | .ok header => .ok (save header)) = Except.error Fault.headerOverflow ↔
    (scan.head.size = -1 ∧ headersize < scan.buffer.length) ∨ WrapsBehind scan := by
  rw [or_iff_left (not_wrapsBehind_of_neg (by omega)), and_iff_right waits, ← savedHeader_error_iff]
  cases header : savedHeader false scan.buffer with
  | error fault =>
    rw [savedHeader_error header]
    exact iff_of_true rfl rfl
  | ok header => exact iff_of_false ok_ne_error ok_ne_error

/-- A packet of which the buffer does not hold all has nothing behind it. -/
theorem not_wrapsBehind_of_short {scan : Scan}
    (short : ((scan.buffer.drop scan.head.packHeadLength).length : Int) < scan.head.size) :
    ¬ WrapsBehind scan := by
  intro wraps
  obtain ⟨n, size, inside, -⟩ := wraps
  rw [List.length_drop] at short
  omega

/-- `push_more` writes beyond a header exactly when a length is read as `-1` early enough. -/
theorem pushMore_overflow_iff (q : Queue) (buffer : Bytes) :
    pushMore false fd q buffer = .error .headerOverflow ↔ Wraps invalidOrClose buffer := by
  induction length : buffer.length using Nat.strongRecOn generalizing buffer q with
  | ind whole ih =>
    rw [pushMore_eq]
    generalize next : nextHead invalidOrClose false buffer = scan
    rw [wraps_iff next]
    simp only
    by_cases waits : scan.head.size = -1
    · rw [if_pos waits]
      exact saved_overflow_iff waits _
    · rw [if_neg waits, or_iff_right fun both => waits both.1]
      by_cases short : ((scan.buffer.drop scan.head.packHeadLength).length : Int) < scan.head.size
      · rw [if_pos ⟨short, trivial⟩]
        exact iff_of_false ok_ne_error (not_wrapsBehind_of_short short)
      · rw [if_neg (fun both => short both.1)]
        cases got : malloc scan.head.size with
        | error fault =>
          rw [malloc_error got]
          exact iff_of_false (fun same => by cases same) (not_wrapsBehind_of_neg (malloc_neg got))
        | ok packSize =>
          obtain ⟨nonneg, rfl⟩ := malloc_eq_ok got
          rw [wrapsBehind_iff nonneg]
          simp only
          by_cases more :
              ((scan.buffer.drop scan.head.packHeadLength).drop scan.head.size.toNat).length > 0
          · have shorter : ((scan.buffer.drop scan.head.packHeadLength).drop
                scan.head.size.toNat).length < whole := by
              rw [← next] at got
              obtain ⟨positive, le⟩ := nextHead_pos got
              rw [next] at positive le
              simp only [List.length_drop] at more ⊢
              omega
            rw [if_pos more, and_iff_right more]
            exact ih _ shorter _ _ rfl
          · rw [if_neg more]
            exact iff_of_false ok_ne_error (fun both => more both.1)

end PushMore

/-! ## Frame headers that are pending -/

theorem readMask_append_of_long {isMask : Bool} {packSize : Int} {offset : Nat} {bytes : Bytes}
    (long : 4 ≤ bytes.length) (more : Bytes) :
    readMask isMask packSize offset (bytes ++ more) = readMask isMask packSize offset bytes := by
  rcases bytes with _ | ⟨m₀, _ | ⟨m₁, _ | ⟨m₂, _ | ⟨m₃, bytes⟩⟩⟩⟩
  · exact absurd long (by simp)
  · exact absurd long (by simp)
  · exact absurd long (by simp)
  · exact absurd long (by simp)
  · rfl

theorem readLength_append_of_long {isMask : Bool} {length : UInt8} {bytes : Bytes}
    (long : 12 ≤ bytes.length) (more : Bytes) :
    readLength isMask length (bytes ++ more) = readLength isMask length bytes := by
  have longer : ¬ (bytes ++ more).length < 8 := by
    rw [List.length_append]
    omega
  unfold readLength
  rw [if_neg longer, if_neg (show ¬ bytes.length < 8 by omega),
    if_neg (show ¬ (bytes ++ more).length < 2 by omega), if_neg (show ¬ bytes.length < 2 by omega),
    List.take_append_of_le_length (by omega), List.take_append_of_le_length (by omega),
    List.drop_append_of_le_length (by omega), List.drop_append_of_le_length (by omega),
    readMask_append_of_long (by omega), readMask_append_of_long (by rw [List.length_drop]; omega),
    readMask_append_of_long (by rw [List.length_drop]; omega)]

/-- Fourteen bytes are a whole header, whatever its length is read as. -/
theorem readSize_append_of_long {bytes : Bytes} (long : 14 ≤ bytes.length) (more : Bytes) :
    readSize (bytes ++ more) = readSize bytes := by
  rcases bytes with _ | ⟨b₀, _ | ⟨b₁, bytes⟩⟩
  · exact absurd long (by simp)
  · exact absurd long (by simp)
  · simp only [List.length_cons] at long
    simp only [List.cons_append, readSize,
      readLength_append_of_long (show 12 ≤ bytes.length by omega)]

/-- The loop that throws pairs of bytes away may be interrupted for more bytes. -/
theorem skipHeads_append (bytes more : Bytes) :
    (skipHeads invalid (bytes ++ more)).head =
        (skipHeads invalid ((skipHeads invalid bytes).buffer ++ more)).head ∧
      (skipHeads invalid (bytes ++ more)).buffer =
        (skipHeads invalid ((skipHeads invalid bytes).buffer ++ more)).buffer := by
  induction size : bytes.length using Nat.strongRecOn generalizing bytes with
  | ind size ih =>
    rcases bytes with _ | ⟨b₀, _ | ⟨b₁, rest⟩⟩
    · exact ⟨rfl, rfl⟩
    · exact ⟨rfl, rfl⟩
    · by_cases thrown : invalid (readSize (b₀ :: b₁ :: rest)).size = true
      · have known : (readSize (b₀ :: b₁ :: rest)).size ≠ -1 := by
          intro waits
          rw [waits] at thrown
          exact absurd thrown (by decide)
        have same : readSize (b₀ :: b₁ :: (rest ++ more)) = readSize (b₀ :: b₁ :: rest) :=
          readSize_append_of_ne known more
        have whole : (skipHeads invalid (b₀ :: b₁ :: (rest ++ more))).head =
              (skipHeads invalid (rest ++ more)).head ∧
            (skipHeads invalid (b₀ :: b₁ :: (rest ++ more))).buffer =
              (skipHeads invalid (rest ++ more)).buffer := by
          rw [skipHeads]
          simp only [same, thrown, if_true, and_self]
        have part : (skipHeads invalid (b₀ :: b₁ :: rest)).buffer =
            (skipHeads invalid rest).buffer := by
          rw [skipHeads]
          simp only [thrown, if_true]
        rw [List.cons_append, List.cons_append, part, whole.1, whole.2]
        simp only [List.length_cons] at size
        exact ih rest.length (by omega) rest rfl
      · have kept := skipHeads_of_keep (Bool.eq_false_iff.mpr thrown)
        rw [kept]
        exact ⟨rfl, rfl⟩

theorem nextHead_append (bytes more : Bytes) :
    (nextHead invalid false (bytes ++ more)).head =
        (nextHead invalid false ((nextHead invalid false bytes).buffer ++ more)).head ∧
      (nextHead invalid false (bytes ++ more)).buffer =
        (nextHead invalid false ((nextHead invalid false bytes).buffer ++ more)).buffer := by
  obtain ⟨head, buffer⟩ := skipHeads_append bytes more
  have clamped := congrArg Head.clamp head
  exact ⟨clamped, buffer⟩

/-- What is left after the loop is not thrown away. -/
theorem nextHead_kept (bytes : Bytes) :
    (nextHead invalid false bytes).head =
        (readSize (nextHead invalid false bytes).buffer).clamp ∧
      invalid (readSize (nextHead invalid false bytes).buffer).size = false := by
  obtain ⟨p, head, -, -, -, read, kept, buffer, found⟩ :=
    nextHead_cut le_of_invalid (.start : Cut bytes 0) (Nat.zero_le _)
  rw [List.drop_zero] at buffer found
  rw [buffer, found, read]
  exact ⟨rfl, kept⟩

theorem nextHead_buffer_le (bytes : Bytes) :
    (nextHead invalid false bytes).buffer.length ≤ bytes.length :=
  (skipHeads_cases invalid bytes).2

/-- More bytes do not change a header that was found. -/
theorem nextHead_append_of_nonneg {bytes : Bytes}
    (found : 0 ≤ (nextHead invalid false bytes).head.size) (more : Bytes) :
    (nextHead invalid false (bytes ++ more)).head = (nextHead invalid false bytes).head := by
  obtain ⟨head, kept⟩ := nextHead_kept bytes
  rw [head, clamp_nonneg] at found
  have same := readSize_append_of_ne
    (show (readSize (nextHead invalid false bytes).buffer).size ≠ -1 by omega) more
  rw [(nextHead_append bytes more).1, head]
  rw [← same] at kept
  simp only [nextHead, Bool.false_eq_true, if_false] at kept same ⊢
  rw [skipHeads_of_keep kept, same]

/-- A header that fourteen bytes do not complete is completed by none. -/
theorem nextHead_append_of_long {bytes : Bytes}
    (long : 14 ≤ (nextHead invalid false bytes).buffer.length) (more : Bytes) :
    (nextHead invalid false (bytes ++ more)).head = (nextHead invalid false bytes).head ∧
      (nextHead invalid false (bytes ++ more)).buffer =
        (nextHead invalid false bytes).buffer ++ more := by
  obtain ⟨head, kept⟩ := nextHead_kept bytes
  have same := readSize_append_of_long long more
  obtain ⟨headMore, bufferMore⟩ := nextHead_append bytes more
  rw [headMore, bufferMore, head]
  rw [← same] at kept
  simp only [nextHead, Bool.false_eq_true, if_false] at kept same ⊢
  rw [skipHeads_of_keep kept, same]
  exact ⟨rfl, rfl⟩

theorem pendingHead_frame (header : Bytes) :
    pendingHead false header = nextHead invalid false header := by
  simp [pendingHead]

/-- One round of the loop that takes a pending header byte by byte. -/
theorem fillHeader_error_iff {handshake : Bool} {header chunk : Bytes} {b : UInt8} {scan : Scan}
    (room : header.length < headersize) (next : pendingHead handshake (header ++ [b]) = scan) :
    fillHeader handshake header (b :: chunk) = .error .headerOverflow ↔
      scan.head.size < 0 ∧ chunk ≠ [] ∧
        fillHeader handshake scan.buffer chunk = .error .headerOverflow := by
  rw [fillHeader, if_neg (by omega)]
  simp only [next]
  by_cases stops : 0 ≤ scan.head.size ∨ chunk = []
  · rw [if_pos stops]
    apply iff_of_false ok_ne_error
    intro goes
    rcases stops with nonneg | last
    · exact absurd goes.1 (by omega)
    · exact goes.2.1 last
  · rw [if_neg stops]
    rw [not_or] at stops
    rw [and_iff_right (by omega), and_iff_right stops.2]
    cases fillHeader handshake scan.buffer chunk with
    | error fault => exact Iff.rfl
    | ok fill => exact iff_of_false ok_ne_error ok_ne_error

/-- The loop writes beyond the header exactly when the header is full, or no frame is found in bytes
that are too many. -/
theorem fillHeader_frame_overflow_iff {header chunk : Bytes} :
    fillHeader false header chunk = .error .headerOverflow ↔
      chunk ≠ [] ∧ (headersize ≤ header.length ∨
        (nextHead invalid false (header ++ chunk)).head.size < 0 ∧
          headersize < (nextHead invalid false (header ++ chunk)).buffer.length) := by
  induction chunk generalizing header with
  | nil => exact iff_of_false ok_ne_error (fun both => both.1 rfl)
  | cons b chunk ih =>
    by_cases full : headersize ≤ header.length
    · rw [fillHeader, if_pos full]
      exact iff_of_true rfl ⟨List.cons_ne_nil b chunk, .inl full⟩
    · have length : (header ++ [b]).length = header.length + 1 := by simp
      have room : headersize = 1024 := rfl
      have longer : header ++ b :: chunk = (header ++ [b]) ++ chunk := by simp
      rw [fillHeader_error_iff (by omega) (pendingHead_frame (header ++ [b])), ih, longer,
        and_iff_right (List.cons_ne_nil b chunk), or_iff_right full]
      have later := nextHead_append (header ++ [b]) chunk
      rw [← later.1, ← later.2]
      have shorter := nextHead_buffer_le (header ++ [b])
      constructor
      · intro goes
        obtain ⟨negative, more, -, filled | wraps⟩ := goes
        · have long : 14 ≤ (nextHead invalid false (header ++ [b])).buffer.length := by omega
          obtain ⟨head, buffer⟩ := nextHead_append_of_long long chunk
          have pos := List.length_pos_iff.mpr more
          rw [head, buffer, List.length_append]
          exact ⟨negative, by omega⟩
        · exact wraps
      · intro wraps
        obtain ⟨negative, long⟩ := wraps
        have more : chunk ≠ [] := by
          intro none
          rw [none, List.append_nil] at long
          omega
        refine ⟨?_, more, more, .inr ⟨negative, long⟩⟩
        by_contra found
        rw [nextHead_append_of_nonneg (by omega) chunk] at negative
        omega

/-- How the loop ends: with the first bytes that complete the header, or with the chunk. -/
theorem fillHeader_ends {header chunk : Bytes} {fill : Fill} (some : chunk ≠ [])
    (ran : fillHeader false header chunk = .ok fill) :
    ∃ taken, chunk = taken ++ fill.buffer ∧ taken ≠ [] ∧
      fill.head = (nextHead invalid false (header ++ taken)).head ∧
      (∀ p, p <+: taken → p ≠ [] → p ≠ taken →
        (nextHead invalid false (header ++ p)).head.size < 0) ∧
      (0 ≤ fill.head.size ∨ fill.buffer = []) := by
  induction chunk generalizing header fill with
  | nil => exact absurd rfl some
  | cons b chunk ih =>
    rcases fillHeader_cases (pendingHead_frame (header ++ [b])) ran with
      ⟨stops, head, -, buffer⟩ | ⟨negative, more, fill', later, head, -, buffer⟩
    · refine ⟨[b], by rw [buffer]; rfl, List.cons_ne_nil b [], head, ?_, ?_⟩
      · intro p initial nonempty proper
        cases p with
        | nil => exact absurd rfl nonempty
        | cons a p =>
          obtain ⟨rfl, none⟩ := List.cons_prefix_cons.mp initial
          rw [List.prefix_nil.mp none] at proper
          exact absurd rfl proper
      · rw [head, buffer]
        exact stops
    · obtain ⟨taken, split, nonempty, found, fewer, ends⟩ := ih more later
      have grown : ∀ p, (nextHead invalid false (header ++ b :: p)).head =
          (nextHead invalid false ((nextHead invalid false (header ++ [b])).buffer ++ p)).head := by
        intro p
        have longer : header ++ b :: p = (header ++ [b]) ++ p := by simp
        rw [longer]
        exact (nextHead_append (header ++ [b]) p).1
      refine ⟨b :: taken, by rw [buffer, split]; rfl, List.cons_ne_nil b taken, ?_, ?_, ?_⟩
      · rw [head, found, grown]
      · intro p initial nonempty proper
        obtain ⟨p, rfl⟩ : ∃ p', p = b :: p' := by
          cases p with
          | nil => exact absurd rfl nonempty
          | cons a p => exact ⟨p, by rw [(List.cons_prefix_cons.mp initial).1]⟩
        by_cases first : p = []
        · rw [first]
          exact negative
        · rw [grown]
          exact fewer p (List.cons_prefix_cons.mp initial).2 first fun same => proper (by rw [same])
      · rw [head, buffer]
        exact ends

/-- What completes a header is unique. -/
theorem Completes.ends {header taken left : Bytes} {fill : Fill}
    (completes : Completes header taken) (ran : fillHeader false header (taken ++ left) = .ok fill) :
    fill.head = (nextHead invalid false (header ++ taken)).head ∧ fill.buffer = left := by
  have some : taken ++ left ≠ [] := by simp [completes.some]
  obtain ⟨taken', split, nonempty, head, fewer, ends⟩ := fillHeader_ends some ran
  have same : taken' = taken := by
    by_contra other
    rcases List.prefix_or_prefix_of_prefix (⟨left, rfl⟩ : taken <+: taken ++ left)
      ⟨fill.buffer, split.symm⟩ with shorter | shorter
    · have negative := fewer taken shorter completes.some (Ne.symm other)
      have whole := completes.whole
      omega
    · have negative := completes.fewer taken' shorter nonempty other
      have last : fill.buffer = [] := by
        rcases ends with found | last
        · rw [head] at found
          omega
        · exact last
      rw [last, List.append_nil] at split
      rw [← split] at shorter
      have longer := shorter.length_le
      rw [List.length_append] at longer
      have none : left = [] := List.length_eq_zero_iff.mp (by omega)
      rw [none, List.append_nil] at split
      exact other split.symm
  subst same
  exact ⟨head, (List.append_cancel_left split).symm⟩

/-! ## Requests that are pending -/

theorem pendingHead_request {header : Bytes} (fits : header.length ≤ headersize) :
    pendingHead true header =
      { reads := [], head := { size := getHttpHeader header }, buffer := header } := by
  have short : ¬ header.length > headersize := by omega
  simp only [pendingHead, true_and, if_neg short, nextHead_handshake]

/-- The same in the handshake: no request ends in the bytes that the header can hold. -/
theorem fillHeader_request_overflow_iff {header chunk : Bytes} :
    fillHeader true header chunk = .error .headerOverflow ↔
      chunk ≠ [] ∧ (headersize ≤ header.length ∨
        headersize < (header ++ chunk).length ∧
          getHttpHeader ((header ++ chunk).take headersize) < 0) := by
  induction chunk generalizing header with
  | nil => exact iff_of_false ok_ne_error (fun both => both.1 rfl)
  | cons b chunk ih =>
    by_cases full : headersize ≤ header.length
    · rw [fillHeader, if_pos full]
      exact iff_of_true rfl ⟨List.cons_ne_nil b chunk, .inl full⟩
    · have length : (header ++ [b]).length = header.length + 1 := by simp
      have fits : (header ++ [b]).length ≤ headersize := by omega
      have longer : header ++ b :: chunk = (header ++ [b]) ++ chunk := by simp
      rw [fillHeader_error_iff (by omega) (pendingHead_request fits), ih, longer,
        and_iff_right (List.cons_ne_nil b chunk), or_iff_right full]
      have taken : ((header ++ [b]) ++ chunk).take headersize =
          (header ++ [b]) ++ chunk.take (headersize - (header ++ [b]).length) := by
        rw [List.take_append, List.take_of_length_le fits]
      constructor
      · intro goes
        obtain ⟨negative, more, -, filled | tooLong⟩ := goes
        · have filled : headersize ≤ (header ++ [b]).length := filled
          have pos := List.length_pos_iff.mpr more
          have none : headersize - (header ++ [b]).length = 0 := by omega
          rw [taken, none, List.take_zero, List.append_nil, List.length_append]
          exact ⟨by omega, negative⟩
        · exact tooLong
      · intro tooLong
        obtain ⟨long, missing⟩ := tooLong
        have more : chunk ≠ [] := by
          intro none
          rw [none, List.append_nil] at long
          omega
        refine ⟨?_, more, more, .inr ⟨long, missing⟩⟩
        by_contra found
        rw [taken, getHttpHeader_append (Int.not_lt.mp found)] at missing
        exact found missing

/-! ## One chunk -/

section Chunk

variable {fd : Fd} {q : Queue}

theorem mapMore_overflow_iff {result : Except Fault Queue} :
    result.map (·, Reply.more) = .error .headerOverflow ↔ result = .error .headerOverflow := by
  cases result with
  | error fault =>
    constructor
    · intro same
      cases same
      rfl
    · intro same
      cases same
      rfl
  | ok q => exact iff_of_false ok_ne_error ok_ne_error

/-- `filter_data_` with a packet that is pending. -/
theorem fillBody_overflow_iff {handshake : Bool} {size : Nat} {read chunk : Bytes}
    {mask : Option Mask} {hasunmaskSize : Nat} :
    fillBody handshake fd q size read mask hasunmaskSize chunk = .error .headerOverflow ↔
      handshake = false ∧ size - read.length < chunk.length ∧
        Wraps invalidOrClose (chunk.drop (size - read.length)) := by
  simp only [fillBody]
  by_cases short : chunk.length < size - read.length
  · rw [if_pos short]
    exact iff_of_false ok_ne_error (fun more => by omega)
  · rw [if_neg short]
    by_cases last : (chunk.drop (size - read.length)).length = 0
    · rw [if_pos last]
      rw [List.length_drop] at last
      exact iff_of_false ok_ne_error (fun more => by omega)
    · rw [if_neg last]
      rw [List.length_drop] at last
      rw [and_iff_right (show size - read.length < chunk.length by omega)]
      rw [mapMore_overflow_iff]
      cases handshake with
      | true =>
        obtain ⟨q', ran⟩ := pushMore_handshake fd (q.pushData fd
          (read ++ (decodeWsmaskData mask hasunmaskSize (chunk.take (size - read.length))).1))
          (chunk.drop (size - read.length))
        rw [ran]
        exact iff_of_false ok_ne_error (fun both => by cases both.1)
      | false =>
        rw [pushMore_overflow_iff, and_iff_right rfl]

/-- No other fault comes from the loop. -/
theorem fillHeader_fault {handshake : Bool} {header chunk : Bytes} {fault : Fault}
    (failed : fillHeader handshake header chunk = .error fault) : fault = .headerOverflow := by
  induction chunk generalizing header with
  | nil => cases failed
  | cons b chunk ih =>
    rw [fillHeader] at failed
    split at failed
    · cases failed
      rfl
    · simp only at failed
      split at failed
      · cases failed
      · cases later : fillHeader handshake (pendingHead handshake (header ++ [b])).buffer chunk with
        | error fault' =>
          rw [later] at failed
          cases failed
          exact ih later
        | ok fill =>
          rw [later] at failed
          cases failed

/-- A pending header after the loop. -/
theorem filterHeader_ok_iff {handshake : Bool} {header chunk : Bytes} {fill : Fill}
    (ran : fillHeader handshake header chunk = .ok fill) :
    filterHeader handshake fd q header chunk = .error .headerOverflow ↔
      handshake = false ∧ ∃ n : Nat, fill.head.size = n ∧ n < fill.buffer.length ∧
        Wraps invalidOrClose (fill.buffer.drop n) := by
  simp only [filterHeader, ran]
  by_cases waits : fill.head.size = -1
  · rw [if_pos waits]
    apply iff_of_false ok_ne_error
    intro later
    obtain ⟨-, n, size, -⟩ := later
    omega
  · by_cases close : fill.head.size = -3
    · rw [if_neg waits, if_pos close]
      apply iff_of_false ok_ne_error
      intro later
      obtain ⟨-, n, size, -⟩ := later
      omega
    · rw [if_neg waits, if_neg close]
      cases got : malloc fill.head.size with
      | error fault =>
        rw [malloc_error got]
        refine iff_of_false (fun same => by cases same) ?_
        intro later
        obtain ⟨-, n, size, -⟩ := later
        rw [size, malloc_natCast] at got
        cases got
      | ok n =>
        obtain ⟨nonneg, rfl⟩ := malloc_eq_ok got
        simp only [fillBody_overflow_iff]
        refine and_congr_right fun flag => ?_
        subst flag
        simp only [Bool.false_eq_true, if_false, List.length_nil, Nat.sub_zero]
        constructor
        · exact fun later => ⟨fill.head.size.toNat, by omega, later⟩
        · intro later
          obtain ⟨n, size, later⟩ := later
          rwa [size, Int.toNat_natCast]

/-- `filter_data_` with a header that is pending. -/
theorem filterHeader_overflow_iff {handshake : Bool} {header chunk : Bytes} :
    filterHeader handshake fd q header chunk = .error .headerOverflow ↔
      Overruns handshake (some (.header header)) chunk := by
  cases ran : fillHeader handshake header chunk with
  | error fault =>
    obtain rfl := fillHeader_fault ran
    simp only [filterHeader, ran, true_iff]
    cases handshake with
    | true =>
      obtain ⟨more, full | ⟨long, missing⟩⟩ := fillHeader_request_overflow_iff.mp ran
      · exact .full more full
      · exact .request more long missing
    | false =>
      obtain ⟨more, full | ⟨negative, long⟩⟩ := fillHeader_frame_overflow_iff.mp ran
      · exact .full more full
      · exact .negative more negative long
  | ok fill =>
    rw [filterHeader_ok_iff ran]
    constructor
    · intro later
      obtain ⟨rfl, n, size, less, wraps⟩ := later
      have some : chunk ≠ [] := by
        intro none
        subst none
        cases ran
        exact absurd less (Nat.not_lt_zero n)
      obtain ⟨taken, rfl, nonempty, head, fewer, -⟩ := fillHeader_ends some ran
      rw [head] at size
      exact .afterHeader ⟨nonempty, by omega, fewer⟩ size less wraps
    · intro overruns
      have fine : fillHeader handshake header chunk ≠ .error .headerOverflow := by
        rw [ran]
        intro same
        cases same
      cases overruns with
      | full more full =>
        refine absurd ?_ fine
        cases handshake with
        | true => exact fillHeader_request_overflow_iff.mpr ⟨more, .inl full⟩
        | false => exact fillHeader_frame_overflow_iff.mpr ⟨more, .inl full⟩
      | request more long missing =>
        exact absurd (fillHeader_request_overflow_iff.mpr ⟨more, .inr ⟨long, missing⟩⟩) fine
      | negative more negative long =>
        exact absurd (fillHeader_frame_overflow_iff.mpr ⟨more, .inr ⟨negative, long⟩⟩) fine
      | afterHeader completes size less wraps =>
        obtain ⟨head, rfl⟩ := completes.ends ran
        rw [head]
        exact ⟨rfl, _, size, less, wraps⟩

/-- `filter_data_` with nothing pending. -/
theorem filterFresh_frame_overflow_iff {chunk : Bytes} :
    filterFresh false fd q chunk = .error .headerOverflow ↔ Wraps invalid chunk := by
  unfold filterFresh
  generalize next : nextHead invalid false chunk = scan
  rw [wraps_iff next]
  simp only
  by_cases waits : scan.head.size = -1
  · rw [if_pos waits]
    exact saved_overflow_iff waits _
  · rw [if_neg waits, or_iff_right fun both => waits both.1]
    by_cases close : scan.head.size = -3
    · rw [if_pos close]
      exact iff_of_false ok_ne_error (not_wrapsBehind_of_neg (by omega))
    · rw [if_neg close]
      by_cases short : ((scan.buffer.drop scan.head.packHeadLength).length : Int) < scan.head.size
      · rw [if_pos ⟨short, trivial⟩]
        exact iff_of_false ok_ne_error (not_wrapsBehind_of_short short)
      · rw [if_neg (fun both => short both.1)]
        cases got : malloc scan.head.size with
        | error fault =>
          rw [malloc_error got]
          exact iff_of_false (fun same => by cases same) (not_wrapsBehind_of_neg (malloc_neg got))
        | ok packSize =>
          obtain ⟨nonneg, rfl⟩ := malloc_eq_ok got
          rw [wrapsBehind_iff nonneg]
          simp only
          by_cases last : (scan.buffer.drop scan.head.packHeadLength).length = scan.head.size.toNat
          · rw [if_pos last]
            apply iff_of_false ok_ne_error
            intro both
            have more := both.1
            rw [List.length_drop, last] at more
            omega
          · have more : ((scan.buffer.drop scan.head.packHeadLength).drop
                scan.head.size.toNat).length > 0 := by
              rw [List.length_drop]
              omega
            rw [if_neg last, mapMore_overflow_iff, pushMore_overflow_iff, and_iff_right more]

/-- In the handshake nothing is written beyond a header that was not pending. -/
theorem filterFresh_handshake (chunk : Bytes) :
    filterFresh true fd q chunk ≠ .error .headerOverflow := by
  unfold filterFresh
  simp only [nextHead_handshake, savedHeader_handshake, Bool.true_eq_false, and_false, if_false,
    List.drop_zero]
  split
  · exact ok_ne_error
  · split
    · exact ok_ne_error
    · split
      · rename_i fault failed
        rw [malloc_error failed]
        exact fun same => by cases same
      · split
        · exact ok_ne_error
        · rw [Ne, mapMore_overflow_iff]
          intro failed
          obtain ⟨q', ran⟩ := pushMore_handshake fd _ _
          rw [ran] at failed
          cases failed

theorem filterFresh_overflow_iff {handshake : Bool} {chunk : Bytes} :
    filterFresh handshake fd q chunk = .error .headerOverflow ↔ Overruns handshake none chunk := by
  cases handshake with
  | true => exact iff_of_false (filterFresh_handshake chunk) (fun overruns => by cases overruns)
  | false =>
    rw [filterFresh_frame_overflow_iff]
    constructor
    · exact .fresh
    · intro overruns
      cases overruns with
      | fresh wraps => exact wraps

/-- One chunk: the writes go beyond a header exactly when it overruns what is pending. -/
theorem filterData_overflow_iff {handshake : Bool} {chunk : Bytes} :
    filterData handshake fd q chunk = .error .headerOverflow ↔
      Overruns handshake (q.pending fd).head? chunk := by
  cases records : q.pending fd with
  | nil =>
    rw [filterData_fresh records]
    exact filterFresh_overflow_iff
  | cons uc ucs =>
    cases uc with
    | header header =>
      rw [filterData_header records]
      exact filterHeader_overflow_iff
    | body size read mask hasunmaskSize =>
      rw [filterData_body records, fillBody_overflow_iff]
      constructor
      · intro wraps
        obtain ⟨rfl, less, wraps⟩ := wraps
        exact .afterBody less wraps
      · intro overruns
        cases overruns with
        | afterBody less wraps => exact ⟨rfl, less, wraps⟩

end Chunk

/-! ## Any chunks -/

theorem filter_overflow_iff {handshake : Bool} {fd : Fd} {q : Queue} {chunk : Bytes} :
    filter handshake fd q chunk = .error .headerOverflow ↔
      Overruns handshake (q.pending fd).head? chunk := by
  have data : filterData handshake fd { q with reads := [] } chunk = .error .headerOverflow ↔
      Overruns handshake (q.pending fd).head? chunk := filterData_overflow_iff
  rw [← data]
  unfold filter
  cases filterData handshake fd { q with reads := [] } chunk with
  | error fault =>
    constructor
    · intro same
      cases same
      rfl
    · intro same
      cases same
      rfl
  | ok result => exact iff_of_false ok_ne_error ok_ne_error

theorem run_cons {q q₁ : Queue} {call : Call} {calls : List Call} {events : List Event}
    (filtered : filter call.handshake call.fd q call.chunk = .ok (q₁, events)) :
    run q (call :: calls) = (run q₁ calls).map fun result => (result.1, events ++ result.2) := by
  rw [run]
  simp only [filtered]
  cases run q₁ calls with
  | error fault => rfl
  | ok result => rfl

theorem run_cons_error {q : Queue} {call : Call} {calls : List Call} {fault : Fault}
    (failed : filter call.handshake call.fd q call.chunk = .error fault) :
    run q (call :: calls) = .error fault := by
  rw [run]
  simp only [failed]

/-- What holds of every chunk of a run, with the queue that it finds, holds of the first and of those
behind it. -/
theorem each_call_cons {P : Queue → Call → Prop} {q q₁ : Queue} {first : Call} {calls : List Call}
    {events : List Event}
    (filtered : filter first.handshake first.fd q first.chunk = .ok (q₁, events)) :
    (∀ before call after, first :: calls = before ++ call :: after →
      ∀ q' events, run q before = .ok (q', events) → P q' call) ↔
    P q first ∧ ∀ before call after, calls = before ++ call :: after →
      ∀ q' events, run q₁ before = .ok (q', events) → P q' call := by
  constructor
  · intro each
    refine ⟨each [] first calls rfl q [] rfl, ?_⟩
    intro before call after split q' later ran
    apply each (first :: before) call after (by rw [split]; rfl) q' (events ++ later)
    rw [run_cons filtered, ran]
    rfl
  · intro both before call after split q' earlier ran
    obtain ⟨here, behind⟩ := both
    cases before with
    | nil =>
      cases split
      cases ran
      exact here
    | cons head before =>
      cases split
      rw [run_cons filtered] at ran
      cases later : run q₁ before with
      | error fault =>
        rw [later] at ran
        cases ran
      | ok result =>
        obtain ⟨q₂, rest⟩ := result
        rw [later] at ran
        cases ran
        exact behind before call after rfl _ rest later

/-- A chunk that fails is the last of its run. -/
theorem each_call_cons_error {P : Queue → Call → Prop} {q : Queue} {first : Call}
    {calls : List Call} {fault : Fault}
    (failed : filter first.handshake first.fd q first.chunk = .error fault) :
    (∀ before call after, first :: calls = before ++ call :: after →
      ∀ q' events, run q before = .ok (q', events) → P q' call) ↔ P q first := by
  constructor
  · exact fun each => each [] first calls rfl q [] rfl
  · intro here before call after split q' earlier ran
    cases before with
    | nil =>
      cases split
      cases ran
      exact here
    | cons head before =>
      cases split
      rw [run_cons_error failed] at ran
      cases ran

/-- Nothing is written beyond a header in a run exactly when none of its chunks overruns what is
pending for its socket at that time. -/
theorem header_room_iff (q : Queue) (calls : List Call) :
    run q calls ≠ .error .headerOverflow ↔
      ∀ before call after, calls = before ++ call :: after →
        ∀ q' events, run q before = .ok (q', events) →
          ¬ Overruns call.handshake (q'.pending call.fd).head? call.chunk := by
  induction calls generalizing q with
  | nil =>
    apply iff_of_true ok_ne_error
    intro before call after split
    cases before with
    | nil => cases split
    | cons first before => cases split
  | cons first calls ih =>
    cases filtered : filter first.handshake first.fd q first.chunk with
    | error fault =>
      rw [run_cons_error filtered, each_call_cons_error filtered, ← filter_overflow_iff, filtered]
    | ok result =>
      obtain ⟨q₁, events⟩ := result
      have here : ¬ Overruns first.handshake (q.pending first.fd).head? first.chunk := by
        rw [← filter_overflow_iff, filtered]
        exact ok_ne_error
      have mapped : run q (first :: calls) ≠ .error .headerOverflow ↔
          run q₁ calls ≠ .error .headerOverflow := by
        rw [run_cons filtered]
        cases run q₁ calls with
        | error fault => exact Iff.rfl
        | ok later => exact iff_of_true ok_ne_error ok_ne_error
      rw [mapped, ih, each_call_cons filtered, and_iff_right here]

/-! ## Two clients -/

theorem getHttpHeader_replicate (n : Nat) : getHttpHeader (List.replicate n 97) = -1 := by
  induction n with
  | zero => rfl
  | succ n ih =>
    have other : (97 :: List.replicate n 97 : Bytes).take 4 ≠ [13, 10, 13, 10] := by
      intro same
      cases same
    rw [List.replicate_succ, getHttpHeader_cons, if_neg other, ih]
    rfl

/-- A request that fills the header without an end, and one byte more. -/
theorem run_full {request : Bytes} (fits : request.length = headersize)
    (missing : getHttpHeader request = -1) (b : UInt8) :
    run .empty [⟨1, true, request⟩, ⟨1, true, [b]⟩] = .error .headerOverflow := by
  have saved : filterData true 1 { Queue.empty with reads := [] } request =
      .ok ((({ Queue.empty with reads := [] }.findUncomplete 1).2.log []).saveUncomplete 1
        (.header request), .queue) := by
    rw [filterData_fresh (q := { Queue.empty with reads := [] }) rfl]
    unfold filterFresh
    simp only [nextHead_handshake, missing, if_true, savedHeader_handshake]
    rw [List.take_of_length_le (Nat.le_of_eq fits)]
  obtain ⟨q', filtered, -, pending, -⟩ := filter_of_filterData saved
  have record : (q'.pending 1).head? = some (.header request) := by
    rw [pending, Queue.pending_saveUncomplete]
    rfl
  have overflow : filter true 1 q' [b] = .error .headerOverflow := by
    rw [filter_overflow_iff, record]
    exact .full (List.cons_ne_nil b []) (Nat.le_of_eq fits.symm)
  rw [run_cons filtered, run_cons_error overflow]
  rfl

/-- A frame whose length is read as `-1`, with too many of its bytes. -/
theorem wraps_of_received (h : FrameHeader) {rest : Bytes}
    (size : h.lengthField.received h.length = -1)
    (long : headersize < (h.bytes ++ rest).length) : Wraps invalid (h.bytes ++ rest) := by
  have read : (readSize (h.bytes ++ rest)).size = -1 := by rw [h.readSize_bytes, size]
  have next := nextHead_of_keep invalid (h.bytes ++ rest) (by rw [read]; decide)
    (by rw [read]; decide)
  refine .here ?_ ?_
  · rw [next]
    exact read
  · rw [next]
    exact long

/-- A frame of 2 ^ 32 - 1 bytes is announced, and more than 1014 of them come at once. -/
theorem filter_huge (fd : Fd) {q : Queue} (idle : q.pending fd = []) :
    filter false fd q ([0x82, 0x7F, 0, 0, 0, 0, 0xFF, 0xFF, 0xFF, 0xFF] ++
      List.replicate 1015 0) = .error .headerOverflow := by
  let header : FrameHeader :=
    { opcode := 2
      lengthField := .sixtyFour
      mask := none
      length := 2 ^ 32 - 1
      fits := by decide
      notContinuation := by decide
      notClose := by decide }
  have bytes : header.bytes = [0x82, 0x7F, 0, 0, 0, 0, 0xFF, 0xFF, 0xFF, 0xFF] := by decide
  rw [filter_overflow_iff, idle, ← bytes]
  refine .fresh (wraps_of_received header (by decide) ?_)
  rw [bytes, List.length_append, List.length_replicate]
  decide

/-- A client sends `HEADERSIZE` bytes of a request without an end, and then one byte more. Another
announces a frame of 2 ^ 32 - 1 bytes and sends more than 1014 of them at once. -/
theorem header_overrun :
    run .empty [⟨1, true, List.replicate 1024 97⟩, ⟨1, true, [97]⟩] = .error .headerOverflow ∧
    run .empty [⟨1, false, [0x82, 0x7F, 0, 0, 0, 0, 0xFF, 0xFF, 0xFF, 0xFF] ++
      List.replicate 1015 0⟩] = .error .headerOverflow :=
  ⟨run_full List.length_replicate (getHttpHeader_replicate 1024) 97,
    run_cons_error (filter_huge 1 rfl)⟩

end RillServer.Netpack
