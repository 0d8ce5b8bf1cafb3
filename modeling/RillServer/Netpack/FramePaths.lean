import RillServer.Netpack.Filter

/-!
# One data frame on each of the decode paths

A chunk may end anywhere in a frame. `held f n` is the record that then stands for the first `n`
bytes of `f`: their copy when they are a part of the header, else the payload so far, unmasked.
Whichever path meets the frame, it leaves this record when the chunk ends inside the frame
(`pushMore_part`, `filterData_part`), and the payload when the chunk holds its rest
(`pushMore_frame`, `filterData_frame`).
-/

namespace RillServer.Netpack

/-- `hasunmask_size` after `k` bytes of a payload: it counts when there is a mask. -/
def Frame.unmasked (f : Frame) (k : Nat) : Nat := if f.mask.isSome then k else 0

/-- The record for the first `n` bytes of a frame. -/
def held (f : Frame) (n : Nat) : Uncomplete :=
  if n < f.header.length then .header (f.header.take n)
  else
    .body f.payload.length (f.payload.take (n - f.header.length)) f.mask
      (f.unmasked (n - f.header.length))

/-- The records of a socket that has received the first `n` bytes of a frame. -/
def heldAfter (f : Frame) (n : Nat) : List Uncomplete := if n = 0 then [] else [held f n]

theorem Frame.length_encode (f : Frame) : f.encode.length = f.header.length + f.payload.length := by
  simp [Frame.encode]

theorem length_header_le (f : Frame) : f.header.length ≤ 14 := by
  have extended : f.extendedLength.length ≤ 8 := by
    unfold Frame.extendedLength
    cases f.lengthField <;> simp [LengthField.extended]
  have mask : f.maskBytes.length ≤ 4 := by
    unfold Frame.maskBytes
    cases f.mask <;> simp
  simp only [Frame.header, List.length_cons, List.length_append]
  omega

theorem malloc_natCast (n : Nat) : malloc n = .ok n := by
  unfold malloc
  rw [if_neg (by omega), Int.toNat_natCast]

/-- A piece of the body is unmasked to that piece of the payload, wherever it starts. -/
theorem decodeWsmaskData_body (f : Frame) (k m : Nat) :
    decodeWsmaskData f.mask (f.unmasked k) ((f.body.drop k).take m) =
      ((f.payload.drop k).take m, f.unmasked (k + ((f.payload.drop k).take m).length)) := by
  unfold decodeWsmaskData Frame.body Frame.unmasked
  cases f.mask with
  | none => simp
  | some masks =>
      simp only [Option.isSome_some, if_true, drop_xorCyclic, take_xorCyclic, length_xorCyclic,
        Nat.zero_add, xorCyclic_xorCyclic]

theorem decodeWsmaskData_body_take (f : Frame) (m : Nat) :
    decodeWsmaskData f.mask 0 (f.body.take m) =
      (f.payload.take m, f.unmasked (f.payload.take m).length) := by
  have zero : f.unmasked 0 = 0 := by simp [Frame.unmasked]
  have whole := decodeWsmaskData_body f 0 m
  rwa [zero, List.drop_zero, List.drop_zero, Nat.zero_add] at whole

/-! ## Looking for a header -/

section Scan

variable {throwAway : Int → Bool}

theorem skipHeads_of_keep {buffer : Bytes} (keep : throwAway (readSize buffer).size = false) :
    skipHeads throwAway buffer = { reads := [buffer.length], head := readSize buffer, buffer } := by
  match buffer with
  | [] | [_] => rfl
  | b₀ :: b₁ :: buffer =>
      unfold skipHeads
      simp [keep]

theorem nextHead_of_keep (throwAway : Int → Bool) (buffer : Bytes)
    (keep : throwAway (readSize buffer).size = false)
    (short : (readSize buffer).size ≤ maxPacksize) :
    nextHead throwAway false buffer =
      { reads := [buffer.length], head := readSize buffer, buffer } := by
  have unclamped : ¬ (readSize buffer).size > maxPacksize := by omega
  simp only [nextHead, Bool.false_eq_true, if_false, skipHeads_of_keep keep, Head.clamp,
    if_neg unclamped]

variable (keeps : ∀ size : Int, -1 ≤ size → throwAway size = false)

include keeps in
/-- A part of a header is kept as it is. -/
theorem nextHead_short (f : DataFrame) {buffer rest : Bytes} (parts : buffer ++ rest = f.header)
    (more : rest ≠ []) :
    nextHead throwAway false buffer =
      { reads := [buffer.length], head := readSize buffer, buffer } := by
  have short : (readSize buffer).size = -1 := readSize_short f parts more
  apply nextHead_of_keep
  · exact keeps _ (by omega)
  · omega

include keeps in
theorem nextHead_frame (f : DataFrame) (rest : Bytes) :
    nextHead throwAway false (f.header ++ rest) =
      { reads := [(f.header ++ rest).length]
        head :=
          { size := f.payload.length, packHeadLength := f.header.length, mask := f.mask }
        buffer := f.header ++ rest } := by
  have head := readSize_header_append f rest
  have size : (readSize (f.header ++ rest)).size = f.payload.length := by rw [head]
  rw [← head]
  apply nextHead_of_keep
  · exact keeps _ (by omega)
  · have := f.short
    rw [size, maxPacksize]
    omega

end Scan

theorem invalidOrClose_of_ge : ∀ size : Int, -1 ≤ size → invalidOrClose size = false := by
  intro size valid
  simp only [invalidOrClose, decide_eq_false_iff_not]
  omega

theorem invalid_of_ge : ∀ size : Int, -1 ≤ size → invalid size = false := by
  intro size valid
  simp only [invalid, decide_eq_false_iff_not]
  omega

theorem savedHeader_short (f : Frame) {buffer rest : Bytes} (parts : buffer ++ rest = f.header) :
    savedHeader false buffer = .ok buffer := by
  have fits : buffer.length ≤ f.header.length := by
    rw [← parts, List.length_append]
    omega
  have := length_header_le f
  unfold savedHeader headersize
  rw [if_neg (by simp), if_neg (by omega)]

/-! ## The rest of a payload -/

/-- What `filter_data_` does with a packet and the bytes behind it. -/
def deliver (fd : Fd) (q : Queue) (packet more : Bytes) : Except Fault (Queue × Reply) :=
  if more.length = 0 then .ok (q, .data fd packet)
  else (pushMore false fd (q.pushData fd packet) more).map (·, .more)

theorem fillBody_part (fd : Fd) (q : Queue) (f : Frame) {k m : Nat}
    (inside : k + m < f.payload.length) :
    fillBody false fd q f.payload.length (f.payload.take k) f.mask (f.unmasked k)
        ((f.body.drop k).take m) =
      .ok (q.saveUncomplete fd
        (.body f.payload.length (f.payload.take (k + m)) f.mask (f.unmasked (k + m))), .queue) := by
  have piece : ((f.payload.drop k).take m).length = m := by
    rw [List.length_take, List.length_drop]
    omega
  have length : ((f.body.drop k).take m).length = m := by
    rw [List.length_take, List.length_drop, f.length_body]
    omega
  have read : (f.payload.take k).length = k := by
    rw [List.length_take]
    omega
  simp only [fillBody, length, read, if_pos (show m < f.payload.length - k by omega),
    decodeWsmaskData_body, piece, List.take_add]

theorem fillBody_frame (fd : Fd) (q : Queue) (f : Frame) {k : Nat} (inside : k ≤ f.payload.length)
    (more : Bytes) :
    fillBody false fd q f.payload.length (f.payload.take k) f.mask (f.unmasked k)
        (f.body.drop k ++ more) = deliver fd q f.payload more := by
  have read : (f.payload.take k).length = k := by
    rw [List.length_take]
    omega
  have length : (f.body.drop k).length = f.payload.length - k := by
    rw [List.length_drop, f.length_body]
  have enough : ¬ (f.body.drop k ++ more).length < f.payload.length - k := by
    rw [List.length_append, length]
    omega
  have piece : (f.body.drop k ++ more).take (f.payload.length - k) = f.body.drop k := by
    rw [← length, List.take_left]
  have rest : (f.body.drop k ++ more).drop (f.payload.length - k) = more := by
    rw [← length, List.drop_left]
  have decoded : (decodeWsmaskData f.mask (f.unmasked k) (f.body.drop k)).1 = f.payload.drop k := by
    have whole := decodeWsmaskData_body f k (f.payload.length - k)
    rw [List.take_of_length_le (Nat.le_of_eq length),
      List.take_of_length_le (Nat.le_of_eq List.length_drop)] at whole
    rw [whole]
  simp only [fillBody, read, if_neg enough, piece, rest, decoded, List.take_append_drop, deliver]

/-! ## A pending header -/

section PendingHeader

variable {header buffer : Bytes} {b : UInt8}

theorem fillHeader_stop (room : header.length < headersize) {scan : Scan}
    (next : pendingHead false (header ++ [b]) = scan) (stop : 0 ≤ scan.head.size ∨ buffer = []) :
    fillHeader false header (b :: buffer) =
      .ok { reads := scan.reads.map (· + buffer.length), head := scan.head, header := scan.buffer,
            buffer } := by
  unfold fillHeader
  simp only [next]
  rw [if_neg (by omega), if_pos stop]

theorem fillHeader_go (room : header.length < headersize) {scan : Scan}
    (next : pendingHead false (header ++ [b]) = scan) (negative : scan.head.size < 0)
    (more : buffer ≠ []) :
    fillHeader false header (b :: buffer) =
      (fillHeader false scan.buffer buffer).map fun fill =>
        { fill with reads := scan.reads.map (· + buffer.length) ++ fill.reads } := by
  have goes : ¬ (0 ≤ scan.head.size ∨ buffer = []) := by
    intro stops
    rcases stops with nonneg | none
    · omega
    · exact more none
  rw [fillHeader]
  simp only [next]
  rw [if_neg (by omega), if_neg goes]

/-- A header for which `read_size` neither finds a packet nor throws bytes away. -/
def Waits (header : Bytes) : Prop := (readSize header).size = -1 ∨ (readSize header).size = -3

theorem Waits.scan {header : Bytes} (waits : Waits header) :
    pendingHead false header =
      { reads := [header.length], head := readSize header, buffer := header } := by
  have keep : invalid (readSize header).size = false := by
    simp only [invalid, decide_eq_false_iff_not]
    unfold Waits at waits
    omega
  have short : (readSize header).size ≤ maxPacksize := by
    unfold Waits at waits
    omega
  simp [pendingHead, nextHead_of_keep invalid header keep short]

theorem Waits.negative {header : Bytes} (waits : Waits header) : (readSize header).size < 0 := by
  unfold Waits at waits
  omega

/-- What a header with a chunk waits for, it waits for with the first byte of the chunk. -/
theorem waits_tail {header chunk : Bytes}
    (waits : ∀ p, p ≠ [] → p <+: b :: chunk → Waits (header ++ p)) :
    Waits (header ++ [b]) ∧ ∀ p, p ≠ [] → p <+: chunk → Waits (header ++ [b] ++ p) := by
  refine ⟨waits [b] (by simp) (by simp), fun p _ initial => ?_⟩
  have longer := waits (b :: p) (by simp) (List.cons_prefix_cons.mpr ⟨rfl, initial⟩)
  simpa using longer

/-- As long as the header waits, the chunk is added to it. -/
theorem fillHeader_waits {header chunk : Bytes} (some : chunk ≠ [])
    (room : header.length + chunk.length ≤ headersize)
    (waits : ∀ p, p ≠ [] → p <+: chunk → Waits (header ++ p)) :
    fillHeader false header chunk =
      .ok { reads := List.replicate chunk.length (header.length + chunk.length)
            head := readSize (header ++ chunk)
            header := header ++ chunk
            buffer := [] } := by
  induction chunk generalizing header with
  | nil => exact absurd rfl some
  | cons b chunk ih =>
      simp only [List.length_cons] at room
      obtain ⟨first, rest⟩ := waits_tail waits
      by_cases last : chunk = []
      · subst last
        rw [fillHeader_stop (by omega) first.scan (.inr rfl)]
        simp
      · have fits : (header ++ [b]).length + chunk.length ≤ headersize := by
          rw [List.length_append, List.length_singleton]
          omega
        rw [fillHeader_go (by omega) first.scan first.negative last, ih last fits rest]
        simp [Except.map, Nat.add_assoc, Nat.add_comm 1, List.replicate_succ]

/-- A header that waits for more than it can hold is written beyond its end. -/
theorem fillHeader_overflow {header chunk : Bytes} (saved : header.length ≤ headersize)
    (tooLong : headersize < header.length + chunk.length)
    (waits : ∀ p, p ≠ [] → p <+: chunk → Waits (header ++ p)) :
    fillHeader false header chunk = .error .headerOverflow := by
  induction chunk generalizing header with
  | nil =>
      rw [List.length_nil] at tooLong
      omega
  | cons b chunk ih =>
      simp only [List.length_cons] at tooLong
      by_cases full : headersize ≤ header.length
      · rw [fillHeader, if_pos full]
      · obtain ⟨first, rest⟩ := waits_tail waits
        have length : (header ++ [b]).length = header.length + 1 := by simp
        have more : chunk ≠ [] := by
          intro none
          rw [none, List.length_nil] at tooLong
          omega
        rw [fillHeader_go (by omega) first.scan first.negative more,
          ih (by omega) (by omega) rest]
        rfl

/-- The rest of a header completes it, whatever follows. -/
theorem fillHeader_frame (f : DataFrame) {header chunk : Bytes} (some : chunk ≠ [])
    (parts : header ++ chunk = f.header) (rest : Bytes) :
    fillHeader false header (chunk ++ rest) =
      .ok { reads := List.replicate chunk.length (header.length + (chunk ++ rest).length)
            head :=
              { size := f.payload.length, packHeadLength := f.header.length, mask := f.mask }
            header := f.header
            buffer := rest } := by
  induction chunk generalizing header with
  | nil => exact absurd rfl some
  | cons b chunk ih =>
      have here : (header ++ [b]) ++ chunk = f.header := by simpa using parts
      have room : header.length < headersize := by
        have := length_header_le f.toFrame
        rw [← parts, List.length_append, List.length_cons] at this
        unfold headersize
        omega
      by_cases last : chunk = []
      · subst last
        have whole : header ++ [b] = f.header := by simpa using here
        have scan := nextHead_frame invalid_of_ge f []
        rw [List.append_nil, ← whole] at scan
        rw [List.cons_append, List.nil_append,
          fillHeader_stop room (by simp [pendingHead, scan]; rfl) (.inl (by simp))]
        simp [← whole, Nat.add_assoc, Nat.add_comm 1]
      · have scan := nextHead_short invalid_of_ge f here last
        have waits : (readSize (header ++ [b])).size = -1 := readSize_short f here last
        rw [List.cons_append, fillHeader_go room (by simp [pendingHead, scan]; rfl)
          (by simp [waits]) (by simp [last]), ih last here]
        simp [Except.map, Nat.add_assoc, Nat.add_comm 1, List.replicate_succ]

end PendingHeader

/-! ## A frame at the front of a buffer -/

/-- The first `n` bytes of a frame are a part of its header, or the header and a part of its
body. -/
theorem take_encode (f : Frame) (n : Nat) :
    f.encode.take n =
      if n < f.header.length then f.header.take n
      else f.header ++ f.body.take (n - f.header.length) := by
  unfold Frame.encode
  split
  next inHeader => rw [List.take_append_of_le_length (Nat.le_of_lt inHeader)]
  next inBody => rw [List.take_append, List.take_of_length_le (by omega)]

theorem drop_encode (f : Frame) (n : Nat) :
    f.encode.drop n =
      if n < f.header.length then f.header.drop n ++ f.body
      else f.body.drop (n - f.header.length) := by
  unfold Frame.encode
  split
  next inHeader => rw [List.drop_append_of_le_length (Nat.le_of_lt inHeader)]
  next inBody => rw [List.drop_append, List.drop_of_length_le (by omega), List.nil_append]

theorem drop_header_ne_nil {f : Frame} {n : Nat} (inHeader : n < f.header.length) :
    f.header.drop n ≠ [] := by
  simpa using inHeader

section Part

variable {throwAway : Int → Bool} (keeps : ∀ size : Int, -1 ≤ size → throwAway size = false)

include keeps in
/-- What is found in the first `n` bytes of a frame is what `held` keeps of them: a header to be
saved, or a packet with a part of its payload. -/
theorem nextHead_part (f : DataFrame) {n : Nat} (inside : n < f.encode.length) :
    ∃ scan, nextHead throwAway false (f.encode.take n) = scan ∧ scan.reads = [n] ∧
      (scan.head.size = -1 ∧ savedHeader false scan.buffer = .ok (f.header.take n) ∧
          held f.toFrame n = .header (f.header.take n) ∨
        (scan.buffer.drop scan.head.packHeadLength).length < scan.head.size ∧
          held f.toFrame n = .body scan.head.size.toNat
            (decodeWsmaskData scan.head.mask 0 (scan.buffer.drop scan.head.packHeadLength)).1
            scan.head.mask
            (decodeWsmaskData scan.head.mask 0
              (scan.buffer.drop scan.head.packHeadLength)).2) := by
  have length : (f.encode.take n).length = n := by
    rw [List.length_take]
    omega
  rw [Frame.length_encode] at inside
  unfold held
  rw [take_encode] at length ⊢
  by_cases inHeader : n < f.header.length
  · rw [if_pos inHeader] at length
    have parts : f.header.take n ++ f.header.drop n = f.header := List.take_append_drop n _
    have more := drop_header_ne_nil inHeader
    rw [if_pos inHeader, if_pos inHeader, nextHead_short keeps f parts more]
    exact ⟨_, rfl, by rw [length],
      .inl ⟨readSize_short f parts more, savedHeader_short f.toFrame parts, rfl⟩⟩
  · rw [if_neg inHeader] at length
    have short : (f.body.take (n - f.header.length)).length < f.payload.length := by
      rw [List.length_take, f.length_body]
      omega
    have read : (f.payload.take (n - f.header.length)).length = n - f.header.length := by
      rw [List.length_take]
      omega
    rw [if_neg inHeader, if_neg inHeader, nextHead_frame keeps f]
    refine ⟨_, rfl, by rw [length], .inr ⟨?_, ?_⟩⟩
    · rw [List.drop_left]
      exact Int.ofNat_lt.mpr short
    · rw [List.drop_left, decodeWsmaskData_body_take, read, Int.toNat_natCast]

end Part

theorem pushMore_part (fd : Fd) (q : Queue) (f : DataFrame) {n : Nat}
    (inside : n < f.encode.length) :
    pushMore false fd q (f.encode.take n) =
      .ok ((q.log [n]).saveUncomplete fd (held f.toFrame n)) := by
  obtain ⟨scan, found, reads, ⟨size, saved, record⟩ | ⟨short, record⟩⟩ :=
    nextHead_part invalidOrClose_of_ge f inside
  · rw [pushMore_eq]
    simp only [found, reads, size, if_true, saved, record]
  · rw [pushMore_eq]
    simp only [found, reads, record]
    rw [if_neg (by omega), if_pos ⟨short, trivial⟩]

theorem take_body_append (f : Frame) (more : Bytes) :
    (f.body ++ more).take f.payload.length = f.body := by
  rw [← f.length_body, List.take_left]

theorem drop_body_append (f : Frame) (more : Bytes) :
    (f.body ++ more).drop f.payload.length = more := by
  rw [← f.length_body, List.drop_left]

theorem decodeWsmaskData_whole (f : Frame) : (decodeWsmaskData f.mask 0 f.body).1 = f.payload := by
  have whole := decodeWsmaskData_body_take f f.payload.length
  rw [List.take_of_length_le (Nat.le_of_eq f.length_body), List.take_length] at whole
  rw [whole]

theorem encode_append (f : Frame) (more : Bytes) :
    f.encode ++ more = f.header ++ (f.body ++ more) :=
  List.append_assoc _ _ _

theorem pushMore_frame (fd : Fd) (q : Queue) (f : DataFrame) (more : Bytes) :
    pushMore false fd q (f.encode ++ more) =
      if more.length > 0 then
        pushMore false fd ((q.log [(f.encode ++ more).length]).pushData fd f.payload) more
      else .ok ((q.log [(f.encode ++ more).length]).pushData fd f.payload) := by
  have enough : ¬ (((f.body ++ more).length : Int) < f.payload.length) := by
    rw [List.length_append, f.length_body]
    omega
  rw [pushMore_eq]
  simp only [encode_append, nextHead_frame invalidOrClose_of_ge f, List.drop_left, enough,
    false_and, if_false, malloc_natCast, take_body_append, drop_body_append,
    decodeWsmaskData_whole]
  rw [if_neg (by omega)]

/-! ## The three ways a chunk can begin -/

theorem filterFresh_part (fd : Fd) (q : Queue) (f : DataFrame) {n : Nat}
    (inside : n < f.encode.length) :
    filterFresh false fd q (f.encode.take n) =
      .ok ((q.log [n]).saveUncomplete fd (held f.toFrame n), .queue) := by
  obtain ⟨scan, found, reads, ⟨size, saved, record⟩ | ⟨short, record⟩⟩ :=
    nextHead_part invalid_of_ge f inside
  · unfold filterFresh
    simp only [found, reads, size, if_true, saved, record]
  · unfold filterFresh
    simp only [found, reads, record]
    rw [if_neg (by omega), if_neg (by omega), if_pos ⟨short, trivial⟩]

theorem filterFresh_frame (fd : Fd) (q : Queue) (f : DataFrame) (more : Bytes) :
    filterFresh false fd q (f.encode ++ more) =
      deliver fd (q.log [(f.encode ++ more).length]) f.payload more := by
  have enough : ¬ (((f.body ++ more).length : Int) < f.payload.length) := by
    rw [List.length_append, f.length_body]
    omega
  have alone : (f.body ++ more).length = f.payload.length ↔ more.length = 0 := by
    rw [List.length_append, f.length_body]
    omega
  simp only [filterFresh, encode_append, nextHead_frame invalid_of_ge f, List.drop_left, enough,
    false_and, if_false, malloc_natCast, take_body_append, drop_body_append,
    decodeWsmaskData_whole, alone, deliver]
  rw [if_neg (by omega), if_neg (by omega)]

theorem unmasked_zero (f : Frame) : f.unmasked 0 = 0 := by simp [Frame.unmasked]

theorem filterHeader_part (fd : Fd) (q : Queue) (f : DataFrame) {n m : Nat} (some : 0 < m)
    (inHeader : n < f.header.length) (inside : n + m < f.encode.length) :
    ∃ reads, (∀ d ∈ reads, d = n + m) ∧
      filterHeader false fd q (f.header.take n) ((f.encode.drop n).take m) =
        .ok ((q.log reads).saveUncomplete fd (held f.toFrame (n + m)), .queue) := by
  rw [Frame.length_encode] at inside
  have start : (f.header.take n).length = n := by
    rw [List.length_take]
    omega
  rw [drop_encode, if_pos inHeader]
  unfold held
  by_cases short : n + m < f.header.length
  · -- the chunk ends in the header
    have chunk : (f.header.drop n ++ f.body).take m = (f.header.drop n).take m := by
      rw [List.take_append_of_le_length]
      rw [List.length_drop]
      omega
    have length : ((f.header.drop n).take m).length = m := by
      rw [List.length_take, List.length_drop]
      omega
    have grown : f.header.take n ++ (f.header.drop n).take m = f.header.take (n + m) :=
      List.take_add.symm
    have waits : ∀ p, p ≠ [] → p <+: (f.header.drop n).take m →
        (readSize (f.header.take n ++ p)).size = -1 := by
      intro p _ initial
      obtain ⟨rest, split⟩ := initial
      have parts : f.header.take n ++ p ++ (rest ++ f.header.drop (n + m)) = f.header := by
        rw [List.append_assoc, ← List.append_assoc p, split, ← List.append_assoc, grown,
          List.take_append_drop]
      exact readSize_short f parts (by simp [drop_header_ne_nil short])
    have chunkSome : (f.header.drop n).take m ≠ [] := by
      rw [← List.length_pos_iff, length]
      exact some
    have filled := fillHeader_waits chunkSome
      (by
        have := length_header_le f.toFrame
        rw [start, length, headersize]
        omega)
      fun p nonempty initial => .inl (waits p nonempty initial)
    refine ⟨List.replicate m (n + m), fun d member => List.eq_of_mem_replicate member, ?_⟩
    have size : (readSize (f.header.take (n + m))).size = -1 := by
      rw [← grown]
      exact waits _ chunkSome (List.prefix_refl _)
    rw [chunk, if_pos short]
    simp only [filterHeader, filled, length, start, grown, size, if_true]
  · -- the chunk goes beyond the header
    have length : (f.header.drop n).length = f.header.length - n := List.length_drop
    have chunk : (f.header.drop n ++ f.body).take m =
        f.header.drop n ++ f.body.take (n + m - f.header.length) := by
      rw [List.take_append, List.take_of_length_le (by omega), length]
      congr 2
      omega
    have total : (f.header.drop n ++ f.body.take (n + m - f.header.length)).length = m := by
      rw [← chunk, List.length_take, List.length_append, length, f.length_body]
      omega
    have filled := fillHeader_frame f (drop_header_ne_nil inHeader)
      (List.take_append_drop n f.header) (f.body.take (n + m - f.header.length))
    have body := fillBody_part fd (q.log (List.replicate (f.header.length - n) (n + m))) f.toFrame
      (k := 0) (m := n + m - f.header.length) (by omega)
    rw [unmasked_zero, List.take_zero, List.drop_zero, Nat.zero_add] at body
    refine ⟨List.replicate (f.header.length - n) (n + m),
      fun d member => List.eq_of_mem_replicate member, ?_⟩
    rw [chunk, if_neg short]
    simp only [filterHeader, filled, malloc_natCast, total, start, length, Bool.false_eq_true,
      if_false, body]
    rw [if_neg (by omega), if_neg (by omega)]

theorem filterHeader_frame (fd : Fd) (q : Queue) (f : DataFrame) {n : Nat}
    (inHeader : n < f.header.length) (more : Bytes) :
    ∃ reads, (∀ d ∈ reads, d = f.encode.length + more.length) ∧
      filterHeader false fd q (f.header.take n) (f.encode.drop n ++ more) =
        deliver fd (q.log reads) f.payload more := by
  have start : (f.header.take n).length = n := by
    rw [List.length_take]
    omega
  have total : n + (f.header.drop n ++ (f.body ++ more)).length =
      f.encode.length + more.length := by
    rw [Frame.length_encode, List.length_append, List.length_append, List.length_drop,
      f.length_body]
    omega
  have filled := fillHeader_frame f (drop_header_ne_nil inHeader)
    (List.take_append_drop n f.header) (f.body ++ more)
  rw [start, total] at filled
  have body := fillBody_frame fd
    (q.log (List.replicate (f.header.drop n).length (f.encode.length + more.length))) f.toFrame
    (k := 0) (by omega) more
  rw [unmasked_zero, List.take_zero, List.drop_zero] at body
  refine ⟨List.replicate (f.header.drop n).length (f.encode.length + more.length),
    fun d member => List.eq_of_mem_replicate member, ?_⟩
  rw [drop_encode, if_pos inHeader, List.append_assoc]
  simp only [filterHeader, filled, malloc_natCast, Bool.false_eq_true, if_false, body]
  rw [if_neg (by omega), if_neg (by omega)]

/-! ## Any chunk -/

section FilterData

variable {handshake : Bool} {fd : Fd} {q : Queue} {buffer : Bytes}

theorem filterData_fresh (pending : q.pending fd = []) :
    filterData handshake fd q buffer =
      filterFresh handshake fd (q.findUncomplete fd).2 buffer := by
  have found : q.findUncomplete fd = (none, (q.findUncomplete fd).2) :=
    Prod.ext (by simp [pending]) rfl
  unfold filterData
  rw [found]

theorem filterData_header {header : Bytes} {ucs : List Uncomplete}
    (pending : q.pending fd = .header header :: ucs) :
    filterData handshake fd q buffer =
      filterHeader handshake fd (q.findUncomplete fd).2 header buffer := by
  have found : q.findUncomplete fd = (some (.header header), (q.findUncomplete fd).2) :=
    Prod.ext (by simp [pending]) rfl
  unfold filterData
  rw [found]

theorem filterData_body {size : Nat} {read : Bytes} {mask : Option Mask} {hasunmaskSize : Nat}
    {ucs : List Uncomplete} (pending : q.pending fd = .body size read mask hasunmaskSize :: ucs) :
    filterData handshake fd q buffer =
      fillBody handshake fd (q.findUncomplete fd).2 size read mask hasunmaskSize buffer := by
  have found : q.findUncomplete fd =
      (some (.body size read mask hasunmaskSize), (q.findUncomplete fd).2) :=
    Prod.ext (by simp [pending]) rfl
  unfold filterData
  rw [found]

end FilterData

/-- The cut before a chunk is at the start of a frame, in its header or in its body. -/
theorem heldAfter_cases (f : Frame) (n : Nat) :
    n = 0 ∧ heldAfter f n = [] ∨
      n < f.header.length ∧ heldAfter f n = [.header (f.header.take n)] ∨
      f.header.length ≤ n ∧ heldAfter f n =
        [.body f.payload.length (f.payload.take (n - f.header.length)) f.mask
          (f.unmasked (n - f.header.length))] := by
  unfold heldAfter held
  by_cases fresh : n = 0
  · exact .inl ⟨fresh, if_pos fresh⟩
  · rw [if_neg fresh]
    by_cases inHeader : n < f.header.length
    · exact .inr (.inl ⟨inHeader, by rw [if_pos inHeader]⟩)
    · exact .inr (.inr ⟨by omega, by rw [if_neg inHeader]⟩)

theorem log_nil (q : Queue) : q.log [] = q := by
  simp [Queue.log]

/-- A chunk that ends inside a frame, of which `n` bytes had arrived. -/
theorem filterData_part {fd : Fd} {q : Queue} {f : DataFrame} {n m : Nat}
    (pending : q.pending fd = heldAfter f.toFrame n) (some : 0 < m)
    (inside : n + m < f.encode.length) :
    ∃ reads, (∀ d ∈ reads, d = n + m) ∧
      filterData false fd q ((f.encode.drop n).take m) =
        .ok (((q.findUncomplete fd).2.log reads).saveUncomplete fd (held f.toFrame (n + m)),
          .queue) := by
  rcases heldAfter_cases f.toFrame n with ⟨rfl, none⟩ | ⟨inHeader, header⟩ | ⟨inBody, body⟩
  · refine ⟨[m], by simp, ?_⟩
    rw [filterData_fresh (pending.trans none), List.drop_zero, Nat.zero_add]
    exact filterFresh_part fd _ f (by omega)
  · rw [filterData_header (pending.trans header)]
    exact filterHeader_part fd _ f some inHeader inside
  · refine ⟨[], by simp, ?_⟩
    rw [Frame.length_encode] at inside
    have shifted : n - f.header.length + m = n + m - f.header.length := by omega
    rw [filterData_body (pending.trans body), drop_encode, if_neg (by omega), log_nil,
      fillBody_part fd _ f.toFrame (by omega), shifted, held, if_neg (by omega)]

/-- A chunk that holds the rest of a frame, of which `n` bytes had arrived. -/
theorem filterData_frame {fd : Fd} {q : Queue} {f : DataFrame} {n : Nat}
    (pending : q.pending fd = heldAfter f.toFrame n) (inside : n < f.encode.length)
    (more : Bytes) :
    ∃ reads, (∀ d ∈ reads, d = f.encode.length + more.length) ∧
      filterData false fd q (f.encode.drop n ++ more) =
        deliver fd ((q.findUncomplete fd).2.log reads) f.payload more := by
  rcases heldAfter_cases f.toFrame n with ⟨rfl, none⟩ | ⟨inHeader, header⟩ | ⟨inBody, body⟩
  · refine ⟨[f.encode.length + more.length], by simp, ?_⟩
    rw [filterData_fresh (pending.trans none), List.drop_zero, filterFresh_frame,
      List.length_append]
  · rw [filterData_header (pending.trans header)]
    exact filterHeader_frame fd _ f inHeader more
  · refine ⟨[], by simp, ?_⟩
    rw [Frame.length_encode] at inside
    rw [filterData_body (pending.trans body), drop_encode, if_neg (by omega), log_nil,
      fillBody_frame fd _ f.toFrame (by omega)]

end RillServer.Netpack
