import RillServer.Netpack.Decode

/-!
# What the filter reads from any stream

`Decode` is about streams of frames. Here the bytes are arbitrary. The filter looks for headers at
certain places of the stream (`Cut`), and what it delivers is always the packet of a frame at such a
place (`filter_reads`), however the stream is cut into chunks, as long as no frame announces a
length that is -2 as an `int`: a pending header with such a length is thrown away bit by bit, and the
bytes that are left of it are taken for a header with a payload that comes later.
-/

namespace RillServer.Netpack

/-! ## Headers and the bytes behind them -/

theorem readMask_append_of_ne {isMask : Bool} {packSize : Int} {offset : Nat} {bytes : Bytes}
    (known : (readMask isMask packSize offset bytes).size ≠ -1) (more : Bytes) :
    readMask isMask packSize offset (bytes ++ more) = readMask isMask packSize offset bytes := by
  cases isMask with
  | false => rfl
  | true =>
      rcases bytes with _ | ⟨m₀, _ | ⟨m₁, _ | ⟨m₂, _ | ⟨m₃, bytes⟩⟩⟩⟩
      · exact absurd rfl known
      · exact absurd rfl known
      · exact absurd rfl known
      · exact absurd rfl known
      · rfl

theorem readLength_append_of_ne {isMask : Bool} {length : UInt8} {bytes : Bytes}
    (known : (readLength isMask length bytes).size ≠ -1) (more : Bytes) :
    readLength isMask length (bytes ++ more) = readLength isMask length bytes := by
  unfold readLength at known ⊢
  by_cases short : length < 0x7E
  · simp only [if_pos short] at known ⊢
    exact readMask_append_of_ne known more
  · simp only [if_neg short] at known ⊢
    by_cases medium : length = 0x7E
    · simp only [if_pos medium] at known ⊢
      by_cases few : bytes.length < 2
      · rw [if_pos few] at known
        exact absurd rfl known
      · have enough : ¬ (bytes ++ more).length < 2 := by
          rw [List.length_append]
          omega
        rw [if_neg few] at known
        rw [if_neg few, if_neg enough, List.take_append_of_le_length (by omega),
          List.drop_append_of_le_length (by omega)]
        exact readMask_append_of_ne known more
    · simp only [if_neg medium] at known ⊢
      by_cases few : bytes.length < 8
      · rw [if_pos few] at known
        exact absurd rfl known
      · have enough : ¬ (bytes ++ more).length < 8 := by
          rw [List.length_append]
          omega
        rw [if_neg few] at known
        rw [if_neg few, if_neg enough, List.take_append_of_le_length (by omega),
          List.drop_append_of_le_length (by omega)]
        exact readMask_append_of_ne known more

/-- What `read_size` has made of a header does not depend on the bytes behind it. -/
theorem readSize_append_of_ne {bytes : Bytes} (known : (readSize bytes).size ≠ -1) (more : Bytes) :
    readSize (bytes ++ more) = readSize bytes := by
  rcases bytes with _ | ⟨b₀, _ | ⟨b₁, bytes⟩⟩
  · exact absurd rfl known
  · exact absurd rfl known
  · simp only [readSize, List.cons_append] at known ⊢
    split_ifs at known ⊢
    · rfl
    · rfl
    · rfl
    · exact readLength_append_of_ne known more

/-- A part of a header that is not complete. -/
theorem readSize_of_append {bytes more : Bytes} (waits : (readSize (bytes ++ more)).size = -1) :
    (readSize bytes).size = -1 := by
  by_contra known
  rw [readSize_append_of_ne known] at waits
  exact known waits

theorem readMask_length {isMask : Bool} {packSize : Int} {offset : Nat} {bytes : Bytes}
    (valid : 0 ≤ (readMask isMask packSize offset bytes).size) :
    (readMask isMask packSize offset bytes).packHeadLength ≤ offset + bytes.length ∧
      readMask isMask packSize offset
        (bytes.take ((readMask isMask packSize offset bytes).packHeadLength - offset)) =
        readMask isMask packSize offset bytes := by
  cases isMask with
  | false => exact ⟨Nat.le_add_right _ _, rfl⟩
  | true =>
      rcases bytes with _ | ⟨m₀, _ | ⟨m₁, _ | ⟨m₂, _ | ⟨m₃, bytes⟩⟩⟩⟩
      · simp [readMask] at valid
      · simp [readMask] at valid
      · simp [readMask] at valid
      · simp [readMask] at valid
      · refine ⟨?_, ?_⟩
        · simp only [readMask, List.length_cons, if_true]
          omega
        · simp [readMask]

/-- The same where the length stands in `n` bytes in front. -/
theorem readMask_length_behind {isMask : Bool} (n : Nat) (size : Bytes → Int) {bytes : Bytes}
    {head : Head} (isHead : readMask isMask (size (bytes.take n)) (n + 2) (bytes.drop n) = head)
    (enough : ¬ bytes.length < n) (valid : 0 ≤ head.size) :
    head.packHeadLength ≤ 2 + bytes.length ∧
      ¬ (bytes.take (head.packHeadLength - 2)).length < n ∧
      readMask isMask (size ((bytes.take (head.packHeadLength - 2)).take n)) (n + 2)
        ((bytes.take (head.packHeadLength - 2)).drop n) = head := by
  rw [← isHead] at valid
  obtain ⟨inside, same⟩ := readMask_length valid
  have start := packHeadLength_of_readMask valid
  rw [isHead] at inside same start
  rw [List.length_drop] at inside
  have behind : head.packHeadLength - 2 - n = head.packHeadLength - (n + 2) := by omega
  refine ⟨by omega, ?_, ?_⟩
  · rw [List.length_take]
    omega
  · rw [List.take_take, List.drop_take, Nat.min_eq_left (by omega), behind]
    exact same

theorem readLength_length {isMask : Bool} {length : UInt8} {bytes : Bytes}
    (valid : 0 ≤ (readLength isMask length bytes).size) :
    (readLength isMask length bytes).packHeadLength ≤ 2 + bytes.length ∧
      readLength isMask length
        (bytes.take ((readLength isMask length bytes).packHeadLength - 2)) =
        readLength isMask length bytes := by
  unfold readLength at valid ⊢
  by_cases short : length < 0x7E
  · simp only [if_pos short] at valid ⊢
    exact readMask_length valid
  · simp only [if_neg short] at valid ⊢
    by_cases medium : length = 0x7E
    · simp only [if_pos medium] at valid ⊢
      by_cases few : bytes.length < 2
      · rw [if_pos few] at valid
        exact absurd valid (by decide)
      · rw [if_neg few] at valid ⊢
        obtain ⟨inside, enough, same⟩ :=
          readMask_length_behind 2 (fun read => BigEndian.decode read) rfl few valid
        rw [if_neg enough]
        exact ⟨inside, same⟩
    · simp only [if_neg medium] at valid ⊢
      by_cases few : bytes.length < 8
      · rw [if_pos few] at valid
        exact absurd valid (by decide)
      · rw [if_neg few] at valid ⊢
        obtain ⟨inside, enough, same⟩ :=
          readMask_length_behind 8 (fun read => toInt (ntoh64 read)) rfl few valid
        rw [if_neg enough]
        exact ⟨inside, same⟩

/-- A header that was read is no longer than the bytes, and is read from its own bytes alone. -/
theorem readSize_length {bytes : Bytes} (valid : 0 ≤ (readSize bytes).size) :
    (readSize bytes).packHeadLength ≤ bytes.length ∧
      readSize (bytes.take (readSize bytes).packHeadLength) = readSize bytes := by
  have atLeast := packHeadLength_of_readSize valid
  rcases bytes with _ | ⟨b₀, _ | ⟨b₁, bytes⟩⟩
  · simp [readSize] at valid
  · simp [readSize] at valid
  · have taken : ∀ n, 2 ≤ n → (b₀ :: b₁ :: bytes).take n = b₀ :: b₁ :: bytes.take (n - 2) := by
      intro n two
      obtain ⟨m, rfl⟩ := Nat.exists_eq_add_of_le two
      simp [Nat.add_comm 2]
    rw [taken _ atLeast]
    simp only [readSize] at valid ⊢
    split_ifs at valid ⊢
    · exact absurd valid (by decide)
    · exact absurd valid (by decide)
    · exact absurd valid (by decide)
    · obtain ⟨inside, same⟩ := readLength_length valid
      refine ⟨?_, same⟩
      simp only [List.length_cons]
      omega

/-- A header is complete with its last byte. -/
theorem readSize_exact {bytes : Bytes} {b : UInt8} (waits : (readSize bytes).size = -1)
    (valid : 0 ≤ (readSize (bytes ++ [b])).size) :
    (readSize (bytes ++ [b])).packHeadLength = bytes.length + 1 := by
  obtain ⟨inside, same⟩ := readSize_length valid
  rw [List.length_append, List.length_singleton] at inside
  by_contra other
  have early : (readSize (bytes ++ [b])).packHeadLength ≤ bytes.length := by omega
  rw [List.take_append_of_le_length early] at same
  rw [← same] at valid
  rw [← List.take_append_drop (readSize (bytes ++ [b])).packHeadLength bytes] at waits
  have known := readSize_of_append waits
  omega

/-! ## Places -/

/-- How many bytes the filter takes for the payload. -/
def Head.length (head : Head) : Nat := head.clamp.size.toNat

/-- The places of a stream at which the filter may look for a header: behind a frame, two bytes
behind a header that is thrown away, anywhere behind a close frame. -/
inductive Cut (stream : Bytes) : Nat → Prop
  | start : Cut stream 0
  | skip {p : Nat} : Cut stream p → (readSize (stream.drop p)).size ≤ -2 → Cut stream (p + 2)
  | close {p p' : Nat} : Cut stream p → (readSize (stream.drop p)).size = -3 → p < p' →
    Cut stream p'
  | frame {p : Nat} {head : Head} : Cut stream p → readSize (stream.drop p) = head →
    0 ≤ head.size → Cut stream (p + head.packHeadLength + head.length)

/-- There is the header of a frame at the place. -/
structure FrameAt (stream : Bytes) (p : Nat) (head : Head) : Prop where
  cut : Cut stream p
  header : readSize (stream.drop p) = head
  valid : 0 ≤ head.size

/-- The unmasked payload of a frame of the stream. -/
def Packet (stream packet : Bytes) : Prop :=
  ∃ p head, FrameAt stream p head ∧ p + head.packHeadLength + head.length ≤ stream.length ∧
    packet =
      (decodeWsmaskData head.mask 0 ((stream.drop (p + head.packHeadLength)).take head.length)).1

/-- The same, for a frame whose size is its length. -/
def Payload (stream msg : Bytes) : Prop :=
  ∃ p head, FrameAt stream p head ∧ head.size = msg.length ∧
    p + head.packHeadLength + msg.length ≤ stream.length ∧
    msg = (decodeWsmaskData head.mask 0
      ((stream.drop (p + head.packHeadLength)).take msg.length)).1

/-- No frame of the stream has a length that is -2 as an `int`. -/
def NoWrap (stream : Bytes) : Prop :=
  ∀ p, Cut stream p → (readSize ((stream.drop p).take 2)).size = -1 →
    (readSize (stream.drop p)).size ≠ -2

theorem readSize_drop_append {stream : Bytes} {p : Nat}
    (known : (readSize (stream.drop p)).size ≠ -1) (more : Bytes) :
    readSize ((stream ++ more).drop p) = readSize (stream.drop p) := by
  have inside : p ≤ stream.length := by
    by_contra beyond
    rw [List.drop_of_length_le (by omega)] at known
    exact known rfl
  rw [List.drop_append_of_le_length inside]
  exact readSize_append_of_ne known more

/-- Bytes that come later do not change the places. -/
theorem Cut.append {stream : Bytes} {p : Nat} (cut : Cut stream p) (more : Bytes) :
    Cut (stream ++ more) p := by
  induction cut with
  | start => exact .start
  | skip _ thrown ih =>
      refine .skip ih ?_
      rwa [readSize_drop_append (by omega)]
  | close _ closes before ih =>
      refine .close ih ?_ before
      rwa [readSize_drop_append (by omega)]
  | frame _ header valid ih =>
      refine .frame ih ?_ valid
      rw [readSize_drop_append, header]
      rw [header]
      omega

theorem FrameAt.append {stream : Bytes} {p : Nat} {head : Head} (frame : FrameAt stream p head)
    (more : Bytes) : FrameAt (stream ++ more) p head := by
  have known : (readSize (stream.drop p)).size ≠ -1 := by
    rw [frame.header]
    have valid := frame.valid
    omega
  exact ⟨frame.cut.append more, (readSize_drop_append known more).trans frame.header, frame.valid⟩

/-- The header of a frame lies inside the stream. -/
theorem FrameAt.inside {stream : Bytes} {p : Nat} {head : Head} (frame : FrameAt stream p head) :
    p + head.packHeadLength ≤ stream.length := by
  have valid := frame.valid
  rw [← frame.header] at valid ⊢
  have fits := (readSize_length valid).1
  have atLeast := packHeadLength_of_readSize valid
  rw [List.length_drop] at fits
  omega

@[simp]
theorem packHeadLength_clamp (head : Head) : head.clamp.packHeadLength = head.packHeadLength := by
  unfold Head.clamp
  split <;> rfl

@[simp]
theorem mask_clamp (head : Head) : head.clamp.mask = head.mask := by
  unfold Head.clamp
  split <;> rfl

theorem clamp_of_neg {head : Head} (negative : head.size < 0) : head.clamp = head := by
  apply if_neg
  omega

theorem clamp_nonneg {head : Head} : 0 ≤ head.clamp.size ↔ 0 ≤ head.size := by
  unfold Head.clamp
  split
  · simp only
    omega
  · exact Iff.rfl

/-- Headers are looked for at one place after the other. -/
theorem skipHeads_cut {throwAway : Int → Bool} (small : ∀ n, throwAway n = true → n ≤ -2)
    {stream : Bytes} {p : Nat} (cut : Cut stream p) (inside : p ≤ stream.length) :
    ∃ p', Cut stream p' ∧ p ≤ p' ∧ p' ≤ stream.length ∧
      (skipHeads throwAway (stream.drop p)).buffer = stream.drop p' ∧
      (skipHeads throwAway (stream.drop p)).head = readSize (stream.drop p') ∧
      throwAway (readSize (stream.drop p')).size = false := by
  have keep : throwAway (-1) = false := by
    by_contra thrown
    have := small (-1) (by simpa using thrown)
    omega
  induction size : stream.length - p using Nat.strongRecOn generalizing p with
  | ind size ih =>
      rcases bytes : stream.drop p with _ | ⟨b₀, _ | ⟨b₁, rest⟩⟩
      · exact ⟨p, cut, Nat.le_refl _, inside, bytes.symm, by rw [bytes]; rfl,
          by rw [bytes]; exact keep⟩
      · exact ⟨p, cut, Nat.le_refl _, inside, bytes.symm, by rw [bytes]; rfl,
          by rw [bytes]; exact keep⟩
      · have lengths := congrArg List.length bytes
        rw [List.length_drop, List.length_cons, List.length_cons] at lengths
        have behind : rest = stream.drop (p + 2) := by
          rw [← List.drop_drop, bytes]
          rfl
        rw [skipHeads]
        simp only
        split
        next thrown =>
          rw [← bytes] at thrown
          obtain ⟨p', cut', later, inside', buffer, head, stops⟩ :=
            ih (stream.length - (p + 2)) (by omega) (.skip cut (small _ thrown)) (by omega) rfl
          rw [← behind] at buffer head
          exact ⟨p', cut', by omega, inside', buffer, head, stops⟩
        next kept =>
          refine ⟨p, cut, Nat.le_refl _, inside, bytes.symm, by rw [bytes], ?_⟩
          rw [bytes]
          simpa using kept

/-- The next header of a stream. -/
theorem nextHead_cut {throwAway : Int → Bool} (small : ∀ n, throwAway n = true → n ≤ -2)
    {stream : Bytes} {p : Nat} (cut : Cut stream p) (inside : p ≤ stream.length) :
    ∃ p' head, Cut stream p' ∧ p ≤ p' ∧ p' ≤ stream.length ∧ readSize (stream.drop p') = head ∧
      throwAway head.size = false ∧
      (nextHead throwAway false (stream.drop p)).buffer = stream.drop p' ∧
      (nextHead throwAway false (stream.drop p)).head = head.clamp := by
  obtain ⟨p', cut', later, inside', buffer, head, stops⟩ := skipHeads_cut small cut inside
  refine ⟨p', _, cut', later, inside', rfl, stops, buffer, ?_⟩
  rw [← head]
  rfl

theorem le_of_invalidOrClose (n : Int) (thrown : invalidOrClose n = true) : n ≤ -2 := by
  simpa [invalidOrClose] using thrown

theorem le_of_invalid (n : Int) (thrown : invalid n = true) : n ≤ -2 := by
  have same : n = -2 := by simpa [invalid] using thrown
  omega

/-! ## What is pending -/

/-- The records of a socket, after the stream has arrived: nothing at the end of a packet, the
beginning of a header, or the beginning of a packet. -/
inductive Holds (stream : Bytes) : List Uncomplete → Prop
  | nothing : Cut stream stream.length → Holds stream []
  | header {p : Nat} : Cut stream p → p ≤ stream.length → (readSize (stream.drop p)).size = -1 →
    Holds stream [.header (stream.drop p)]
  | body {p : Nat} {head : Head} : FrameAt stream p head →
    (stream.drop (p + head.packHeadLength)).length < head.length →
    Holds stream [.body head.length
      (decodeWsmaskData head.mask 0 (stream.drop (p + head.packHeadLength))).1 head.mask
      (decodeWsmaskData head.mask 0 (stream.drop (p + head.packHeadLength))).2]

/-- A chunk of the socket has been filtered: what is pending, and the packets that were queued. -/
structure Reads (stream : Bytes) (fd : Fd) (q q' : Queue) : Prop where
  holds : Holds stream (q'.pending fd)
  packs : ∃ packs, q'.packs = q.packs ++ packs ∧
    ∀ pack ∈ packs, pack.id = fd ∧ Packet stream pack.buffer

theorem size_of_clamp {head : Head} {n : Int} (negative : n < 0) (same : head.clamp.size = n) :
    head.size = n := by
  have below : ¬ 0 ≤ head.size := by
    rw [← clamp_nonneg, same]
    omega
  rw [clamp_of_neg (by omega)] at same
  exact same

theorem savedHeader_eq_ok {buffer header : Bytes} (saved : savedHeader false buffer = .ok header) :
    header = buffer := by
  simp only [savedHeader, Bool.false_eq_true, false_and, if_false] at saved
  split at saved
  · cases saved
  · cases saved
    rfl

theorem malloc_eq_ok {size : Int} {n : Nat} (got : malloc size = .ok n) :
    0 ≤ size ∧ n = size.toNat := by
  unfold malloc at got
  split at got
  · cases got
  · cases got
    exact ⟨by omega, rfl⟩

theorem Reads.saved {stream : Bytes} {fd : Fd} {q q' : Queue} {uc : Uncomplete}
    (idle : q'.pending fd = []) (same : q'.packs = q.packs) (holds : Holds stream [uc]) :
    Reads stream fd q (q'.saveUncomplete fd uc) where
  holds := by
    rw [Queue.pending_saveUncomplete, idle]
    exact holds
  packs := ⟨[], by rw [Queue.packs_saveUncomplete, same, List.append_nil], nofun⟩

/-- A packet is queued before what follows. -/
theorem Reads.pushed {stream packet : Bytes} {fd : Fd} {q q' q'' : Queue}
    (reads : Reads stream fd (q'.pushData fd packet) q'') (same : q'.packs = q.packs)
    (read : Packet stream packet) : Reads stream fd q q'' where
  holds := reads.holds
  packs := by
    obtain ⟨packs, queued, good⟩ := reads.packs
    refine ⟨⟨fd, packet⟩ :: packs, ?_, ?_⟩
    · rw [queued, Queue.packs_pushData, same, List.append_assoc]
      rfl
    · intro pack member
      rcases List.mem_cons.mp member with rfl | deeper
      · exact ⟨rfl, read⟩
      · exact good pack deeper

/-- `push_more`, from a place at which it looks for a header. -/
theorem pushMore_reads {stream : Bytes} {fd : Fd} {q q' : Queue} {p : Nat} (cut : Cut stream p)
    (inside : p ≤ stream.length) (ran : pushMore false fd q (stream.drop p) = .ok q')
    (idle : q.pending fd = []) : Reads stream fd q q' := by
  induction size : stream.length - p using Nat.strongRecOn generalizing p q with
  | ind size ih =>
      obtain ⟨p', head, cut', later, inside', header, -, buffer, clamped⟩ :=
        nextHead_cut le_of_invalidOrClose cut inside
      rw [pushMore_eq] at ran
      simp only [buffer, clamped, packHeadLength_clamp, mask_clamp, List.drop_drop, and_true] at ran
      split at ran
      next waits =>
        have short := size_of_clamp (by decide) waits
        rw [← header] at short
        split at ran
        next => cases ran
        next saved =>
          cases ran
          rw [savedHeader_eq_ok saved]
          exact .saved idle rfl (.header cut' inside' short)
      next known =>
        split at ran
        next part =>
          cases ran
          have valid : 0 ≤ head.size := clamp_nonneg.mp (by omega)
          refine .saved idle rfl (.body ⟨cut', header, valid⟩ ?_)
          unfold Head.length
          omega
        next whole =>
          split at ran
          next => cases ran
          next packSize got =>
            obtain ⟨valid, rfl⟩ := malloc_eq_ok got
            have frame : FrameAt stream p' head := ⟨cut', header, clamp_nonneg.mp valid⟩
            have fits := frame.inside
            have enough : p' + head.packHeadLength + head.length ≤ stream.length := by
              rw [List.length_drop] at whole
              unfold Head.length
              omega
            have packet : Packet stream (decodeWsmaskData head.mask 0
                ((stream.drop (p' + head.packHeadLength)).take head.length)).1 :=
              ⟨p', head, frame, enough, rfl⟩
            have next : Cut stream (p' + head.packHeadLength + head.length) :=
              .frame cut' header frame.valid
            split at ran
            next more =>
              have atLeast := packHeadLength_of_readSize (header ▸ frame.valid)
              rw [header] at atLeast
              have rest := ih (stream.length - (p' + head.packHeadLength + head.length))
                (by omega) next enough ran idle rfl
              exact rest.pushed rfl packet
            next last =>
              cases ran
              refine ⟨?_, ⟨[⟨fd, _⟩], Queue.packs_pushData _ _ _, ?_⟩⟩
              · rw [Queue.pending_pushData, Queue.pending_log, idle]
                rw [List.length_drop] at last
                rw [show p' + head.packHeadLength + head.length = stream.length by
                  unfold Head.length at enough ⊢
                  omega] at next
                exact .nothing next
              · intro pack member
                obtain rfl := List.mem_singleton.mp member
                exact ⟨rfl, packet⟩

/-! ## One chunk -/

/-- One call of `filter_data_`, on a chunk with which the stream ends. -/
structure Filters (stream : Bytes) (fd : Fd) (q' : Queue) (reply : Reply) : Prop where
  holds : Holds stream (q'.pending fd)
  events : ∀ event ∈ reply.events ++ q'.packs.map Pack.event,
    event = .closed fd ∨ ∃ packet, event = .message fd packet ∧ Packet stream packet

theorem Reads.filters {stream : Bytes} {fd : Fd} {q q' : Queue} {reply : Reply}
    (reads : Reads stream fd q q') (drained : q.packs = []) (silent : reply.events = []) :
    Filters stream fd q' reply where
  holds := reads.holds
  events := by
    obtain ⟨packs, queued, good⟩ := reads.packs
    rw [silent, queued, drained, List.nil_append, List.nil_append]
    intro event member
    obtain ⟨pack, inside, rfl⟩ := List.mem_map.mp member
    obtain ⟨rfl, packet⟩ := good pack inside
    exact .inr ⟨pack.buffer, rfl, packet⟩

/-- The beginning of a packet is saved. -/
theorem Filters.saved {stream : Bytes} {fd : Fd} {q : Queue} {uc : Uncomplete}
    (idle : q.pending fd = []) (drained : q.packs = []) (holds : Holds stream [uc]) :
    Filters stream fd (q.saveUncomplete fd uc) .queue :=
  (Reads.saved idle rfl holds).filters drained rfl

/-- Unmasking goes on where it stopped. -/
theorem decodeWsmaskData_append (mask : Option Mask) (first second : Bytes) :
    decodeWsmaskData mask 0 (first ++ second) =
      ((decodeWsmaskData mask 0 first).1 ++
          (decodeWsmaskData mask (decodeWsmaskData mask 0 first).2 second).1,
        (decodeWsmaskData mask (decodeWsmaskData mask 0 first).2 second).2) := by
  cases mask with
  | none => rfl
  | some masks =>
      simp only [decodeWsmaskData, Nat.zero_add, List.length_append]
      refine Prod.ext ?_ rfl
      have start := take_xorCyclic masks 0 first.length (first ++ second)
      have rest := drop_xorCyclic masks 0 first.length (first ++ second)
      rw [List.take_left] at start
      rw [List.drop_left, Nat.zero_add] at rest
      rw [← start, ← rest]
      exact (List.take_append_drop _ _).symm

@[simp]
theorem length_decodeWsmaskData (mask : Option Mask) (n : Nat) (bytes : Bytes) :
    (decodeWsmaskData mask n bytes).1.length = bytes.length := by
  cases mask with
  | none => rfl
  | some masks => exact length_xorCyclic masks n bytes

/-- A packet that is shorter than `MAX_PACKSIZE` is a whole payload. -/
theorem Packet.payload {stream packet : Bytes} (read : Packet stream packet)
    (short : packet.length < maxPacksize) : Payload stream packet := by
  obtain ⟨p, head, frame, inside, rfl⟩ := read
  have size : (decodeWsmaskData head.mask 0
      ((stream.drop (p + head.packHeadLength)).take head.length)).1.length = head.length := by
    rw [length_decodeWsmaskData, List.length_take, List.length_drop]
    omega
  have whole : head.clamp.size = head.size := by
    by_contra clamped
    have limit : head.length = maxPacksize := by
      unfold Head.length Head.clamp at *
      split at clamped
      next large =>
        rw [if_pos large]
        exact Int.toNat_natCast maxPacksize
      next => exact absurd rfl clamped
    omega
  have valid := frame.valid
  refine ⟨p, head, frame, ?_, ?_, ?_⟩
  · rw [size]
    unfold Head.length
    omega
  · rw [size]
    exact inside
  · rw [size]

/-- The payload of a frame, of which some bytes are already there. -/
theorem fillBody_reads {stream seen chunk : Bytes} {fd : Fd} {q q' : Queue} {reply : Reply}
    {p : Nat} {head : Head} (frame : FrameAt stream p head)
    (parts : stream.drop (p + head.packHeadLength) = seen ++ chunk)
    (short : seen.length ≤ head.length) (idle : q.pending fd = []) (drained : q.packs = [])
    (ran : fillBody false fd q head.length (decodeWsmaskData head.mask 0 seen).1 head.mask
      (decodeWsmaskData head.mask 0 seen).2 chunk = .ok (q', reply)) :
    Filters stream fd q' reply := by
  have fits := frame.inside
  have lengths := congrArg List.length parts
  rw [List.length_drop, List.length_append] at lengths
  unfold fillBody at ran
  simp only [length_decodeWsmaskData] at ran
  split at ran
  next part =>
    cases ran
    have whole := decodeWsmaskData_append head.mask seen chunk
    rw [← parts] at whole
    have holds : Holds stream [.body head.length
        ((decodeWsmaskData head.mask 0 seen).1 ++
          (decodeWsmaskData head.mask (decodeWsmaskData head.mask 0 seen).2 chunk).1) head.mask
        (decodeWsmaskData head.mask (decodeWsmaskData head.mask 0 seen).2 chunk).2] := by
      have body := Holds.body frame (by rw [List.length_drop]; omega)
      rwa [whole] at body
    exact .saved idle drained holds
  next enough =>
    have inside : p + head.packHeadLength + head.length ≤ stream.length := by omega
    have next : Cut stream (p + head.packHeadLength + head.length) :=
      .frame frame.cut frame.header frame.valid
    have taken : (stream.drop (p + head.packHeadLength)).take head.length =
        seen ++ chunk.take (head.length - seen.length) := by
      rw [parts, List.take_append, List.take_of_length_le short]
    have rest : chunk.drop (head.length - seen.length) =
        stream.drop (p + head.packHeadLength + head.length) := by
      rw [← List.drop_drop, parts, List.drop_append, List.drop_of_length_le short, List.nil_append]
    have packet : Packet stream ((decodeWsmaskData head.mask 0 seen).1 ++
        (decodeWsmaskData head.mask (decodeWsmaskData head.mask 0 seen).2
          (chunk.take (head.length - seen.length))).1) := by
      refine ⟨p, head, frame, inside, ?_⟩
      rw [taken, decodeWsmaskData_append]
    rw [rest] at ran
    split at ran
    next last =>
      cases ran
      rw [List.length_drop] at last
      refine ⟨?_, ?_⟩
      · rw [idle]
        rw [show p + head.packHeadLength + head.length = stream.length by omega] at next
        exact .nothing next
      · rw [drained]
        intro event member
        obtain rfl := List.mem_singleton.mp member
        exact .inr ⟨_, rfl, packet⟩
    next more =>
      cases pushed : pushMore false fd _ (stream.drop (p + head.packHeadLength + head.length)) with
      | error fault =>
          rw [pushed] at ran
          cases ran
      | ok q₁ =>
          rw [pushed] at ran
          cases ran
          have reads := pushMore_reads next inside pushed idle
          exact (reads.pushed rfl packet).filters drained rfl

/-! ## A pending header -/

/-- One round of the loop: it stops at a packet or with the chunk, or goes on. -/
theorem fillHeader_cases {handshake : Bool} {header buffer : Bytes} {b : UInt8} {fill : Fill}
    {scan : Scan} (next : pendingHead handshake (header ++ [b]) = scan)
    (ran : fillHeader handshake header (b :: buffer) = .ok fill) :
    (0 ≤ scan.head.size ∨ buffer = []) ∧ fill.head = scan.head ∧ fill.header = scan.buffer ∧
        fill.buffer = buffer ∨
      scan.head.size < 0 ∧ buffer ≠ [] ∧
        ∃ fill', fillHeader handshake scan.buffer buffer = .ok fill' ∧ fill.head = fill'.head ∧
          fill.header = fill'.header ∧ fill.buffer = fill'.buffer := by
  unfold fillHeader at ran
  simp only [next] at ran
  split at ran
  · cases ran
  · split at ran
    next stops =>
      cases ran
      exact .inl ⟨stops, rfl, rfl, rfl⟩
    next goes =>
      rw [not_or] at goes
      cases later : fillHeader handshake scan.buffer buffer with
      | error fault =>
          rw [later] at ran
          cases ran
      | ok fill' =>
          rw [later] at ran
          cases ran
          exact .inr ⟨by omega, goes.2, fill', rfl, rfl, rfl, rfl⟩

theorem pendingHead_of_keep {header : Bytes} (keep : (readSize header).size ≠ -2) :
    pendingHead false header =
      { reads := [header.length], head := (readSize header).clamp, buffer := header } := by
  have kept : invalid (readSize header).size = false := by simpa [invalid] using keep
  simp [pendingHead, nextHead, skipHeads_of_keep kept]

/-- How the loop ends: the header is not complete, or complete with the last byte it took, or it is
one that no byte completes. -/
inductive Filled (stream : Bytes) (fill : Fill) : Prop
  | waits {p : Nat} : Cut stream p → p ≤ stream.length → (readSize (stream.drop p)).size = -1 →
    fill.head.size = -1 → fill.header = stream.drop p → Filled stream fill
  | frame {p : Nat} {head : Head} : FrameAt stream p head → fill.head = head.clamp →
    stream.drop (p + head.packHeadLength) = fill.buffer → Filled stream fill
  | stuck {p : Nat} : Cut stream p → p < stream.length →
    fill.head.size = (readSize (stream.drop p)).size → fill.head.size ≤ -3 → Filled stream fill

theorem Filled.congr {stream : Bytes} {fill fill' : Fill} (filled : Filled stream fill')
    (head : fill.head = fill'.head) (header : fill.header = fill'.header)
    (buffer : fill.buffer = fill'.buffer) : Filled stream fill := by
  cases filled with
  | waits cut inside short size same =>
      exact .waits cut inside short (head ▸ size) (header.trans same)
  | frame frame same rest => exact .frame frame (head.trans same) (rest.trans buffer.symm)
  | stuck cut inside same size => exact .stuck cut inside (head ▸ same) (head ▸ size)

/-- Only two bytes are thrown away at a time, as no length is -2. -/
theorem length_of_thrown {stream header rest : Bytes} {b : UInt8} {p : Nat} (wraps : NoWrap stream)
    (cut : Cut stream p) (longer : stream.drop p = (header ++ [b]) ++ rest)
    (waits : (readSize header).size = -1) (thrown : (readSize (header ++ [b])).size = -2) :
    header.length = 1 := by
  rcases header with _ | ⟨b₀, _ | ⟨b₁, bytes⟩⟩
  · exact absurd thrown (by simp [readSize])
  · rfl
  · exfalso
    refine wraps p cut ?_ ?_
    · rw [longer]
      have whole : (readSize ([b₀, b₁] ++ bytes)).size = -1 := waits
      exact readSize_of_append whole
    · rw [longer, readSize_append_of_ne (by omega) rest]
      exact thrown

theorem pendingHead_thrown {b₀ b : UInt8} (thrown : (readSize ([b₀] ++ [b])).size = -2) :
    pendingHead false ([b₀] ++ [b]) = { reads := [2, 0], head := { size := -1 }, buffer := [] } := by
  have two : invalid (readSize [b₀, b]).size = true := by simpa [invalid] using thrown
  have nil : readSize [] = { size := -1 } := rfl
  simp [pendingHead, nextHead, skipHeads, two, headersize, nil, Head.clamp, maxPacksize]

/-- The loop that fills a pending header. -/
theorem fillHeader_reads {stream header chunk : Bytes} {fill : Fill} {p : Nat}
    (wraps : NoWrap stream) (cut : Cut stream p) (parts : stream.drop p = header ++ chunk)
    (nonempty : chunk ≠ []) (state : (readSize header).size = -1 ∨ (readSize header).size ≤ -3)
    (ran : fillHeader false header chunk = .ok fill) : Filled stream fill := by
  induction chunk generalizing header p fill with
  | nil => exact absurd rfl nonempty
  | cons b rest ih =>
      have longer : stream.drop p = (header ++ [b]) ++ rest := by
        rw [parts, List.append_assoc]
        rfl
      have inside : p + header.length + 1 + rest.length = stream.length := by
        have lengths := congrArg List.length parts
        rw [List.length_drop, List.length_append, List.length_cons] at lengths
        omega
      have stable : (readSize (header ++ [b])).size ≠ -1 →
          readSize (stream.drop p) = readSize (header ++ [b]) := by
        intro known
        rw [longer]
        exact readSize_append_of_ne known rest
      by_cases thrown : (readSize (header ++ [b])).size = -2
      · have waits : (readSize header).size = -1 := by
          rcases state with waits | stuck
          · exact waits
          · rw [readSize_append_of_ne (by omega)] at thrown
            omega
        have one := length_of_thrown wraps cut longer waits thrown
        obtain ⟨b₀, rfl⟩ := List.length_eq_one_iff.mp one
        have next : Cut stream (p + 2) := .skip cut (by rw [stable (by omega)]; omega)
        have behind : stream.drop (p + 2) = rest := by
          rw [← List.drop_drop, longer]
          rfl
        rcases fillHeader_cases (pendingHead_thrown thrown) ran with ⟨stops, head, left, buffer⟩ |
          ⟨-, more, fill', later, head, left, buffer⟩
        · rcases stops with nonneg | rfl
          · exact absurd nonneg (by decide)
          · refine .waits next ?_ ?_ ?_ ?_
            · simp only [List.length_cons, List.length_nil] at inside
              omega
            · rw [behind]
              rfl
            · rw [head]
            · rw [behind, left]
        · have again := ih next (behind.trans (List.nil_append rest).symm) more (.inl rfl) later
          exact again.congr head left buffer
      · rcases fillHeader_cases (pendingHead_of_keep thrown) ran with
          ⟨stops, head, left, buffer⟩ | ⟨negative, more, fill', later, head, left, buffer⟩
        · by_cases valid : 0 ≤ (readSize (header ++ [b])).size
          · have waits : (readSize header).size = -1 := by
              rcases state with waits | stuck
              · exact waits
              · rw [readSize_append_of_ne (by omega)] at valid
                omega
            refine .frame ⟨cut, stable (by omega), valid⟩ head ?_
            rw [readSize_exact waits valid, ← List.drop_drop, longer, buffer]
            exact List.drop_left' (by simp)
          · have last : rest = [] := by
              rcases stops with nonneg | last
              · exact absurd (clamp_nonneg.mp nonneg) valid
              · exact last
            subst last
            rw [List.append_nil] at longer
            replace head : fill.head = readSize (header ++ [b]) :=
              head.trans (clamp_of_neg (by omega))
            by_cases waits : (readSize (header ++ [b])).size = -1
            · refine .waits cut (by omega) ?_ ?_ ?_
              · rwa [longer]
              · rwa [head]
              · rw [left, longer]
            · refine .stuck cut (by omega) ?_ ?_
              · rw [head, longer]
              · rw [head]
                omega
        · have below : (readSize (header ++ [b])).size < 0 := by
            by_contra nonneg
            exact absurd (clamp_nonneg.mpr (not_lt.mp nonneg)) (not_le.mpr negative)
          exact (ih cut longer more (by omega) later).congr head left buffer

section Chunks

variable {stream : Bytes} {fd : Fd} {q q' : Queue} {reply : Reply} {p : Nat}

/-- Nothing is pending behind a close frame. -/
theorem Filters.closed (cut : Cut stream p) (inside : p < stream.length)
    (closes : (readSize (stream.drop p)).size = -3) (idle : q'.pending fd = [])
    (drained : q'.packs = []) : Filters stream fd q' (.close fd) where
  holds := by
    rw [idle]
    exact .nothing (.close cut closes inside)
  events := by
    rw [drained]
    intro event member
    exact .inl (List.mem_singleton.mp member)

/-- A chunk that begins at the end of a packet. -/
theorem filterFresh_reads (cut : Cut stream p) (inside : p ≤ stream.length)
    (idle : q.pending fd = []) (drained : q.packs = [])
    (ran : filterFresh false fd q (stream.drop p) = .ok (q', reply)) :
    Filters stream fd q' reply := by
  obtain ⟨p', head, cut', -, inside', header, -, buffer, clamped⟩ :=
    nextHead_cut le_of_invalid cut inside
  unfold filterFresh at ran
  simp only [buffer, clamped, packHeadLength_clamp, mask_clamp, List.drop_drop, and_true] at ran
  split at ran
  next waits =>
    have short := size_of_clamp (by decide) waits
    rw [← header] at short
    split at ran
    next => cases ran
    next saved =>
      cases ran
      rw [savedHeader_eq_ok saved]
      exact .saved idle drained (.header cut' inside' short)
  next known =>
    split at ran
    next closes =>
      have size := size_of_clamp (by decide) closes
      rw [← header] at size
      have some : p' < stream.length := by
        by_contra beyond
        rw [List.drop_of_length_le (by omega)] at size
        exact absurd size (by decide)
      cases ran
      refine .closed cut' some size ?_ drained
      rw [Queue.pending_closeUncomplete, Queue.pending_log, idle]
      rfl
    next =>
      split at ran
      next part =>
        cases ran
        have valid : 0 ≤ head.size := clamp_nonneg.mp (by omega)
        refine .saved idle drained (.body ⟨cut', header, valid⟩ ?_)
        unfold Head.length
        omega
      next whole =>
        split at ran
        next => cases ran
        next packSize got =>
          obtain ⟨valid, rfl⟩ := malloc_eq_ok got
          have frame : FrameAt stream p' head := ⟨cut', header, clamp_nonneg.mp valid⟩
          have fits := frame.inside
          have enough : p' + head.packHeadLength + head.length ≤ stream.length := by
            rw [List.length_drop] at whole
            unfold Head.length
            omega
          have packet : Packet stream (decodeWsmaskData head.mask 0
              ((stream.drop (p' + head.packHeadLength)).take head.length)).1 :=
            ⟨p', head, frame, enough, rfl⟩
          have next : Cut stream (p' + head.packHeadLength + head.length) :=
            .frame cut' header frame.valid
          split at ran
          next last =>
            cases ran
            rw [List.length_drop] at last
            rw [show p' + head.packHeadLength + head.length = stream.length by
              unfold Head.length
              omega] at next
            refine ⟨?_, ?_⟩
            · rw [Queue.pending_log, idle]
              exact .nothing next
            · rw [Queue.packs_log, drained]
              intro event member
              obtain rfl := List.mem_singleton.mp member
              exact .inr ⟨_, rfl, packet⟩
          next =>
            cases pushed : pushMore false fd _
                (stream.drop (p' + head.packHeadLength + head.clamp.size.toNat)) with
            | error fault =>
                rw [pushed] at ran
                cases ran
            | ok q₁ =>
                rw [pushed] at ran
                cases ran
                have reads := pushMore_reads next enough pushed idle
                exact (reads.pushed rfl packet).filters drained rfl

/-- A chunk when the beginning of a header is pending. -/
theorem filterHeader_reads {header chunk : Bytes} (wraps : NoWrap stream) (cut : Cut stream p)
    (parts : stream.drop p = header ++ chunk) (nonempty : chunk ≠ [])
    (waits : (readSize header).size = -1) (idle : q.pending fd = []) (drained : q.packs = [])
    (ran : filterHeader false fd q header chunk = .ok (q', reply)) :
    Filters stream fd q' reply := by
  unfold filterHeader at ran
  split at ran
  next => cases ran
  next fill filled =>
    simp only [Bool.false_eq_true, if_false] at ran
    cases fillHeader_reads wraps cut parts nonempty (.inl waits) filled with
    | waits cut' inside short size same =>
        rw [if_pos size] at ran
        cases ran
        rw [same]
        exact .saved idle drained (.header cut' inside short)
    | @stuck p' cut' inside same size =>
        rw [if_neg (by omega)] at ran
        split at ran
        next closes =>
          cases ran
          refine .closed cut' inside (same ▸ closes) ?_ drained
          rw [Queue.pending_closeUncomplete, Queue.pending_log, idle]
          rfl
        next =>
          split at ran
          next => cases ran
          next got =>
            have valid := (malloc_eq_ok got).1
            omega
    | @frame p' head frame same rest =>
        have valid : 0 ≤ fill.head.size := by
          rw [same]
          exact clamp_nonneg.mpr frame.valid
        rw [if_neg (by omega), if_neg (by omega)] at ran
        split at ran
        next => cases ran
        next got =>
          obtain ⟨-, rfl⟩ := malloc_eq_ok got
          have nothing : decodeWsmaskData head.mask 0 [] = ([], 0) := by
            cases head.mask <;> rfl
          have none : ([] : Bytes).length ≤ head.length := Nat.zero_le _
          have parts : stream.drop (p' + head.packHeadLength) = [] ++ fill.buffer := rest
          apply fillBody_reads (q := q.log fill.reads) frame parts none idle drained
          rw [nothing]
          simp only [same, mask_clamp] at ran
          exact ran

/-- A chunk of a stream that holds what it should. -/
theorem filterData_reads {chunk : Bytes} (holds : Holds stream (q.pending fd))
    (wraps : NoWrap (stream ++ chunk)) (nonempty : chunk ≠ []) (drained : q.packs = [])
    (ran : filterData false fd q chunk = .ok (q', reply)) :
    Filters (stream ++ chunk) fd q' reply := by
  generalize records : q.pending fd = ucs at holds
  have idle : (q.findUncomplete fd).2.pending fd = [] := by
    rw [Queue.pending_findUncomplete, records]
    cases holds <;> rfl
  cases holds with
  | nothing cut =>
      rw [filterData_fresh records] at ran
      have whole : (stream ++ chunk).drop stream.length = chunk := List.drop_left
      apply filterFresh_reads (cut.append chunk) (by simp) idle drained
      rw [whole]
      exact ran
  | @header p cut inside waits =>
      rw [filterData_header records] at ran
      refine filterHeader_reads wraps (cut.append chunk) ?_ nonempty waits idle drained ran
      exact List.drop_append_of_le_length inside
  | @body p head frame short =>
      rw [filterData_body records] at ran
      have parts : (stream ++ chunk).drop (p + head.packHeadLength) =
          stream.drop (p + head.packHeadLength) ++ chunk :=
        List.drop_append_of_le_length frame.inside
      exact fillBody_reads (frame.append chunk) parts (Nat.le_of_lt short) idle drained ran

end Chunks

/-- **What is delivered of a stream** are packets of frames at the places of the stream. -/
theorem filter_reads {stream chunk : Bytes} {fd : Fd} {q q' : Queue} {events : List Event}
    (holds : Holds stream (q.pending fd)) (wraps : NoWrap (stream ++ chunk)) (nonempty : chunk ≠ [])
    (drained : q.packs = []) (filtered : filter false fd q chunk = .ok (q', events)) :
    Holds (stream ++ chunk) (q'.pending fd) ∧
      ∀ event ∈ events, event = .closed fd ∨
        ∃ packet, event = .message fd packet ∧ Packet (stream ++ chunk) packet := by
  cases ran : filterData false fd { q with reads := [] } chunk with
  | error fault =>
      simp only [filter, ran] at filtered
      cases filtered
  | ok result =>
      obtain ⟨q₁, reply⟩ := result
      have filters :=
        filterData_reads (q := { q with reads := [] }) holds wraps nonempty drained ran
      obtain ⟨q₂, same, -, pending, -⟩ := filter_of_filterData ran
      rw [filtered] at same
      cases same
      rw [pending]
      exact ⟨filters.holds, filters.events⟩

end RillServer.Netpack
