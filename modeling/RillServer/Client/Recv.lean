import RillServer.Netpack.Encoders

/-!
# What the client receives

`lualib-src/lua-clientwebsocket.c`. `block_read` reads a number of bytes with as many calls of
`recv` as it takes, and all of these write to the beginning of the buffer. `lrecv` reads the header
of a frame, its length, its mask and its payload with it.

A payload is received as it was sent exactly when every read of its frame is answered at once, but
for one payload of two bytes (`Kernel.AtOnce`, `lrecv_payload_iff`).

Not in the model: `errno` and the text of an error; a call that is interrupted, which is made again;
the time that is left for the next `select`; a negative `sz` that wraps around.
-/

namespace RillServer.Client

open Netpack BigEndian

/-- What `select` and `recv` come to. -/
inductive Answer where
  | failed
  | timeout
  | closed
  | bytes (n : Nat) (pos : 0 < n)

/-- The other side of the calls. An answer depends on how many calls there were before and on how
many bytes are asked for; it does not have more. -/
structure Kernel where
  answer : Nat → Nat → Answer
  within : ∀ {round count n pos}, answer round count = .bytes n pos → 0 < count → n ≤ count

/-- A socket, with the bytes that are not received yet and the number of calls so far. -/
structure Socket where
  stream : Bytes
  round : Nat

/-- What `block_read` returns: `-3`, `-2`, `-1` or `0`. -/
inductive Status where
  | failed
  | timeout
  | closed
  | done

/-- `block_read`, `none` when `recv` writes beyond the buffer. `recv` takes `sz` as a `size_t`. -/
def blockRead (k : Kernel) (buffer : Bytes) (sz : Int) (s : Socket) :
    Option (Status × Bytes × Socket) :=
  if sz = 0 then some (.done, buffer, s)
  else
    match k.answer s.round (sz % 2 ^ 64).toNat with
    | .failed => some (.failed, buffer, s)
    | .timeout => some (.timeout, buffer, s)
    | .closed => some (.closed, buffer, s)
    | .bytes n _ =>
      let piece := s.stream.take n
      -- nothing has been sent that is not received yet
      if piece = [] then some (.timeout, buffer, s)
      else if buffer.length < piece.length then none
      else
        blockRead k (piece ++ buffer.drop piece.length) (sz - piece.length)
          ⟨s.stream.drop piece.length, s.round + 1⟩
termination_by s.stream.length
decreasing_by
  have nonempty := List.length_pos_iff.mpr ‹¬ piece = []›
  simp only [piece, List.length_take, List.length_drop] at nonempty ⊢
  omega

/-- What `lrecv` returns: a string, and whether `1` for a timeout, or an error. -/
inductive Received where
  | string (bytes : Bytes) (timedOut : Bool)
  | error
  /-- beyond an array -/
  | overrun
  deriving DecidableEq

/-- After each read `lrecv` looks at what it returned. -/
def afterRead (read : Option (Status × Bytes × Socket)) (s : Socket)
    (next : Bytes → Socket → Received × Socket) : Received × Socket :=
  match read with
  | none => (.overrun, s)
  | some (.failed, _, s) => (.error, s)
  | some (.timeout, _, s) => (.string [] true, s)
  | some (.closed, _, s) => (.string [] false, s)
  | some (.done, buffer, s) => next buffer s

/-- `lrecv`, from the payload on. -/
def recvData (k : Kernel) (buffer : Bytes) (dataLen : Int) (masks : Option Bytes) (s : Socket) :
    Received × Socket :=
  afterRead (blockRead k buffer dataLen s) s fun buffer s =>
    if buffer.length < dataLen then (.overrun, s)
    else
      let data := buffer.take dataLen.toNat
      match masks with
      | none => (.string data false, s)
      | some masks => (.string (xorCyclic (fun i : Fin 4 => masks.getD i 0) 0 data) false, s)

/-- `lrecv`, from the mask on. -/
def recvMask (k : Kernel) (buffer masks : Bytes) (isMask : Bool) (dataLen : Int) (s : Socket) :
    Received × Socket :=
  if isMask then
    afterRead (blockRead k masks 4 s) s fun masks s => recvData k buffer dataLen (some masks) s
  else recvData k buffer dataLen none s

/-- `lrecv`, from the length on. -/
def recvLength (k : Kernel) (buffer masks : Bytes) (s : Socket) : Received × Socket :=
  let isMask := buffer.getD 1 0 >>> 7 &&& 0x1
  let length := buffer.getD 1 0 &&& 0x7f
  if length < 0x7E then recvMask k buffer masks (isMask != 0) length.toNat s
  else if length = 0x7E then
    afterRead (blockRead k buffer 2 s) s fun buffer s =>
      recvMask k buffer masks (isMask != 0) (decode (buffer.take 2)) s
  else
    afterRead (blockRead k buffer 8 s) s fun buffer s =>
      recvMask k buffer masks (isMask != 0) (toInt (ntoh64 (buffer.take 8))) s

/-- One of the reserved bits is set. -/
def reserved (b : UInt8) : Bool :=
  let rsv1 := b >>> 6 &&& 0x1
  let rsv2 := b >>> 5 &&& 0x1
  let rsv3 := b >>> 4 &&& 0x1
  0x0 ≠ rsv1 ∨ 0x0 ≠ rsv2 ∨ 0x0 ≠ rsv3

/-! ## Reads -/

namespace Kernel

variable (k : Kernel)

/-- Every call is answered with bytes, if there are any. -/
def Delivers : Prop := ∀ round count, ∃ n pos, k.answer round count = .bytes n pos

/-- A call is answered with all the bytes that it asks for. -/
def Whole (round count : Nat) : Prop := ∃ pos, k.answer round count = .bytes count pos

variable {k}

theorem Delivers.whole_one (delivers : k.Delivers) (round : Nat) : k.Whole round 1 := by
  obtain ⟨n, pos, answer⟩ := delivers round 1
  obtain rfl : n = 1 := Nat.le_antisymm (k.within answer Nat.one_pos) pos
  exact ⟨pos, answer⟩

end Kernel

section Reads

variable {k : Kernel} {buffer buffer' : Bytes} {sz : Int} {s s' : Socket}

theorem blockRead_zero : blockRead k buffer 0 s = some (.done, buffer, s) := by
  rw [blockRead, if_pos rfl]

/-- One call of `recv` that brings bytes. -/
theorem blockRead_piece {n : Nat} {pos : 0 < n} (more : sz ≠ 0)
    (answer : k.answer s.round (sz % 2 ^ 64).toNat = .bytes n pos)
    (nonempty : s.stream.take n ≠ []) (room : (s.stream.take n).length ≤ buffer.length) :
    blockRead k buffer sz s =
      blockRead k (s.stream.take n ++ buffer.drop (s.stream.take n).length)
        (sz - (s.stream.take n).length)
        ⟨s.stream.drop (s.stream.take n).length, s.round + 1⟩ := by
  rw [blockRead, if_neg more, answer]
  simp only
  rw [if_neg nonempty, if_neg (by omega)]

/-- A read that is done had nothing to do, or goes on after one call of `recv`. -/
theorem blockRead_inv (ran : blockRead k buffer sz s = some (.done, buffer', s')) :
    (sz = 0 ∧ buffer' = buffer ∧ s' = s) ∨
      ∃ n pos, sz ≠ 0 ∧ k.answer s.round (sz % 2 ^ 64).toNat = .bytes n pos ∧
        s.stream.take n ≠ [] ∧ (s.stream.take n).length ≤ buffer.length ∧
        blockRead k (s.stream.take n ++ buffer.drop (s.stream.take n).length)
          (sz - (s.stream.take n).length)
          ⟨s.stream.drop (s.stream.take n).length, s.round + 1⟩ = some (.done, buffer', s') := by
  rw [blockRead] at ran
  split at ran
  next zero =>
    cases ran
    exact .inl ⟨zero, rfl, rfl⟩
  next more =>
    split at ran
    · cases ran
    · cases ran
    · cases ran
    next n pos answer =>
      simp only at ran
      split at ran
      · cases ran
      next nonempty =>
        split at ran
        · cases ran
        next room => exact .inr ⟨n, pos, more, answer, nonempty, by omega, ran⟩

/-- Reads that are done have taken their bytes from the stream, and left the buffer as it was behind
these. -/
theorem blockRead_done (ran : blockRead k buffer sz s = some (.done, buffer', s')) :
    ∃ n : Nat, sz = n ∧ n ≤ s.stream.length ∧ s'.stream = s.stream.drop n ∧
      buffer'.length = buffer.length ∧ buffer'.drop n = buffer.drop n := by
  induction whole : s.stream.length using Nat.strongRecOn generalizing buffer sz s with
  | ind size ih =>
    rcases blockRead_inv ran with ⟨rfl, rfl, rfl⟩ | ⟨n, -, -, -, nonempty, room, ran⟩
    · exact ⟨0, rfl, Nat.zero_le _, rfl, rfl, rfl⟩
    · generalize cut : s.stream.take n = piece at nonempty room ran
      have some := List.length_pos_iff.mpr nonempty
      have initial : piece.length ≤ s.stream.length := by
        rw [← cut, List.length_take]
        omega
      have shorter : (s.stream.drop piece.length).length < size := by
        rw [List.length_drop]
        omega
      obtain ⟨m, rest, inside, stream, length, kept⟩ := ih _ shorter ran rfl
      simp only [List.length_drop] at inside
      refine ⟨piece.length + m, by omega, by omega, ?_, ?_, ?_⟩
      · rw [stream, List.drop_drop]
      · rw [length, List.length_append, List.length_drop]
        omega
      · rw [Nat.add_comm, ← List.drop_drop, kept, List.drop_drop, Nat.add_comm, ← List.drop_drop,
          List.drop_left, List.drop_drop]

variable {n : Nat}

theorem asked_natCast (small : n < 2 ^ 64) : ((n : Int) % 2 ^ 64).toNat = n := by
  rw [Int.emod_eq_of_lt (by omega) (by exact_mod_cast small), Int.toNat_natCast]

/-- A read that is answered at once. -/
theorem blockRead_whole (buffer : Bytes) (whole : k.Whole s.round n) (small : n < 2 ^ 64)
    (enough : n ≤ s.stream.length) (room : n ≤ buffer.length) :
    blockRead k buffer n s =
      some (.done, s.stream.take n ++ buffer.drop n, ⟨s.stream.drop n, s.round + 1⟩) := by
  obtain ⟨pos, answer⟩ := whole
  have taken : (s.stream.take n).length = n := by
    rw [List.length_take]
    omega
  have nonempty : s.stream.take n ≠ [] := List.length_pos_iff.mp (by omega)
  have answered : k.answer s.round ((n : Int) % 2 ^ 64).toNat = .bytes n pos := by
    rw [asked_natCast small]
    exact answer
  rw [blockRead_piece (by omega) answered nonempty (by omega), taken, Int.sub_self, blockRead_zero]

/-- The first piece of a read, of at most the bytes that are asked for. -/
theorem blockRead_first (delivers : k.Delivers) (some : 0 < n) (small : n < 2 ^ 64)
    (enough : n ≤ s.stream.length) (room : n ≤ buffer.length) :
    ∃ m, 0 < m ∧ m ≤ n ∧ (m = n → k.Whole s.round n) ∧
      blockRead k buffer n s = blockRead k (s.stream.take m ++ buffer.drop m) ((n - m : Nat) : Int)
        ⟨s.stream.drop m, s.round + 1⟩ := by
  obtain ⟨m, pos, answer⟩ := delivers s.round n
  have le := k.within answer some
  have taken : (s.stream.take m).length = m := by
    rw [List.length_take]
    omega
  refine ⟨m, pos, le, ?_, ?_⟩
  · rintro rfl
    exact ⟨pos, answer⟩
  · rw [← asked_natCast small] at answer
    have nonempty : s.stream.take m ≠ [] := List.length_pos_iff.mp (by omega)
    rw [blockRead_piece (by omega) answer nonempty (by omega), taken, Int.ofNat_sub le]

/-- A kernel that delivers answers every read in the end. -/
theorem blockRead_total (buffer : Bytes) (delivers : k.Delivers) (small : n < 2 ^ 64)
    (enough : n ≤ s.stream.length) (room : n ≤ buffer.length) :
    ∃ buffer' s', blockRead k buffer n s = some (.done, buffer', s') := by
  induction n using Nat.strongRecOn generalizing buffer s with
  | ind n ih =>
    by_cases none : n = 0
    · subst none
      exact ⟨buffer, s, blockRead_zero⟩
    · obtain ⟨m, pos, le, -, step⟩ :=
        blockRead_first delivers (Nat.pos_of_ne_zero none) small enough room
      rw [step]
      refine ih (n - m) (by omega) _ (by omega) ?_ ?_
      · rw [List.length_drop]
        omega
      · rw [List.length_append, List.length_take, List.length_drop]
        omega

/-- The last position that a read is to fill is not written, unless it is answered at once. -/
theorem blockRead_stale (delivers : k.Delivers) (small : n < 2 ^ 64)
    (enough : n ≤ s.stream.length) (room : n ≤ buffer.length) (split : ¬ k.Whole s.round n)
    (ran : blockRead k buffer n s = some (.done, buffer', s')) :
    buffer'[n - 1]? = buffer[n - 1]? := by
  by_cases none : n = 0
  · subst none
    rw [Int.natCast_zero, blockRead_zero] at ran
    cases ran
    rfl
  · obtain ⟨m, pos, le, whole, step⟩ :=
      blockRead_first delivers (Nat.pos_of_ne_zero none) small enough room
    have less : m < n := by
      by_contra all
      exact split (whole (by omega))
    rw [step] at ran
    obtain ⟨rest, same, -, -, -, kept⟩ := blockRead_done ran
    obtain rfl : n - m = rest := Int.ofNat_inj.mp same
    have behind : n - 1 = (n - m) + (m - 1) := by omega
    have taken : (s.stream.take m).length = m := by
      rw [List.length_take]
      omega
    rw [behind, ← List.getElem?_drop, kept, List.getElem?_drop, ← behind,
      List.getElem?_append_right (by omega), List.getElem?_drop, taken]
    congr 1
    omega

/-- Two bytes that come one by one. -/
theorem blockRead_two (delivers : k.Delivers) {x y : UInt8} {rest : Bytes} {i : Nat}
    (room : 2 ≤ buffer.length) (split : ¬ k.Whole i 2) :
    blockRead k buffer 2 ⟨x :: y :: rest, i⟩ = some (.done, y :: buffer.drop 1, ⟨rest, i + 2⟩) := by
  obtain ⟨m, pos, le, whole, step⟩ :=
    blockRead_first (s := ⟨x :: y :: rest, i⟩) delivers (n := 2) (by omega) (by decide) (by simp)
      room
  obtain rfl : m = 1 := by
    by_contra other
    exact split (whole (by omega))
  have second := blockRead_whole ([x] ++ buffer.drop 1) (s := ⟨y :: rest, i + 1⟩)
    (delivers.whole_one (i + 1)) (by decide) (by simp) (by simp)
  exact step.trans second

/-- Nothing comes from a stream that is empty. -/
theorem blockRead_empty (delivers : k.Delivers) {i : Nat} :
    blockRead k buffer 1 ⟨[], i⟩ = some (.timeout, buffer, ⟨[], i⟩) := by
  obtain ⟨n, pos, answer⟩ := delivers i ((1 : Int) % 2 ^ 64).toNat
  rw [blockRead, if_neg (by decide), answer]
  simp

/-- **A read is right exactly when it is answered at once**, if nothing is known of the buffer. -/
theorem blockRead_iff (delivers : k.Delivers) (some : 0 < n) (fits : n ≤ cacheSize)
    (enough : n ≤ s.stream.length) :
    (∀ buffer buffer' s', buffer.length = cacheSize →
      blockRead k buffer n s = Option.some (.done, buffer', s') →
        buffer'.take n = s.stream.take n) ↔ k.Whole s.round n := by
  have small : n < 2 ^ 64 := Nat.lt_of_le_of_lt fits (by decide)
  constructor
  · intro right
    by_contra split
    have index : n - 1 < s.stream.length := by omega
    let buffer := List.replicate cacheSize (s.stream[n - 1] + 1)
    have length : buffer.length = cacheSize := List.length_replicate
    obtain ⟨buffer', s', ran⟩ :=
      blockRead_total buffer delivers small enough (by omega)
    have stale := blockRead_stale delivers small enough (by omega) split ran
    have same : (buffer'.take n)[n - 1]? = (s.stream.take n)[n - 1]? := by
      rw [right buffer buffer' s' length ran]
    rw [List.getElem?_take_of_lt (by omega), List.getElem?_take_of_lt (by omega), stale,
      List.getElem?_replicate_of_lt (by omega), List.getElem?_eq_getElem index] at same
    simp at same
  · intro whole buffer buffer' s' length ran
    rw [blockRead_whole buffer whole small enough (by omega)] at ran
    cases ran
    exact List.take_left' (by rw [List.length_take]; omega)

end Reads

/-! ## Frames -/

/-- `lrecv`. A header with a reserved bit is skipped. -/
def lrecv (k : Kernel) (buffer masks : Bytes) (s : Socket) : Received × Socket :=
  match _read : blockRead k buffer 2 s with
  | none => (.overrun, s)
  | some (.failed, _, s) => (.error, s)
  | some (.timeout, _, s) => (.string [] true, s)
  | some (.closed, _, s) => (.string [] false, s)
  | some (.done, buffer, s) =>
    if reserved (buffer.getD 0 0) then lrecv k buffer masks s else recvLength k buffer masks s
termination_by s.stream.length
decreasing_by
  obtain ⟨n, two, inside, stream, -⟩ := blockRead_done _read
  rw [stream, List.length_drop]
  omega

theorem lrecv_eq (k : Kernel) (buffer masks : Bytes) (s : Socket) :
    lrecv k buffer masks s = afterRead (blockRead k buffer 2 s) s fun buffer s =>
      if reserved (buffer.getD 0 0) then lrecv k buffer masks s
      else recvLength k buffer masks s := by
  rw [lrecv]
  split <;> simp_all [afterRead]

section Frames

variable {k : Kernel} {buffer masks p : Bytes} {s : Socket}

/-- A string that is not empty comes from a read that was done. -/
theorem afterRead_string {read : Option (Status × Bytes × Socket)}
    {next : Bytes → Socket → Received × Socket} (some : p ≠ [])
    (ran : (afterRead read s next).1 = .string p false) :
    ∃ buffer s', read = Option.some (.done, buffer, s') ∧ (next buffer s').1 = .string p false := by
  unfold afterRead at ran
  split at ran
  · cases ran
  · cases ran
  · cases ran
  · cases ran
    exact absurd rfl some
  next buffer s' => exact ⟨buffer, s', rfl, ran⟩

/-- What is received was in the stream, and has the length that was read. -/
theorem recvData_length {dataLen : Int} {mask : Option Bytes} (some : p ≠ [])
    (ran : (recvData k buffer dataLen mask s).1 = .string p false) :
    dataLen = p.length ∧ p.length ≤ s.stream.length := by
  obtain ⟨buffer', s', done, ran⟩ := afterRead_string some ran
  obtain ⟨n, rfl, inside, -, -⟩ := blockRead_done done
  split at ran
  · cases ran
  next room =>
    have taken : (buffer'.take n).length = n := by
      rw [List.length_take]
      omega
    have length : p.length = n := by
      cases mask with
      | none =>
        cases ran
        exact taken
      | some masks =>
        cases ran
        exact (length_xorCyclic _ _ _).trans taken
    exact ⟨by rw [length], by omega⟩

theorem recvMask_length {isMask : Bool} {dataLen : Int} (some : p ≠ [])
    (ran : (recvMask k buffer masks isMask dataLen s).1 = .string p false) :
    dataLen = p.length ∧ p.length ≤ s.stream.length := by
  unfold recvMask at ran
  split at ran
  · obtain ⟨masks', s', done, ran⟩ := afterRead_string some ran
    obtain ⟨n, -, -, stream, -⟩ := blockRead_done done
    obtain ⟨length, inside⟩ := recvData_length some ran
    rw [stream, List.length_drop] at inside
    exact ⟨length, by omega⟩
  · exact recvData_length some ran

theorem recvLength_length (some : p ≠ [])
    (ran : (recvLength k buffer masks s).1 = .string p false) :
    p.length ≤ s.stream.length ∧ (126 ≤ p.length → p.length + 2 ≤ s.stream.length) := by
  unfold recvLength at ran
  simp only at ran
  split at ran
  next short =>
    obtain ⟨length, inside⟩ := recvMask_length some ran
    have less : (buffer.getD 1 0 &&& 0x7f).toNat < 126 := short
    exact ⟨inside, by omega⟩
  next =>
    split at ran
    · obtain ⟨buffer', s', done, ran⟩ := afterRead_string some ran
      obtain ⟨n, two, enough, stream, -⟩ := blockRead_done done
      obtain ⟨-, inside⟩ := recvMask_length some ran
      rw [stream, List.length_drop] at inside
      exact ⟨by omega, by omega⟩
    · obtain ⟨buffer', s', done, ran⟩ := afterRead_string some ran
      obtain ⟨n, eight, enough, stream, -⟩ := blockRead_done done
      obtain ⟨-, inside⟩ := recvMask_length some ran
      rw [stream, List.length_drop] at inside
      exact ⟨by omega, by omega⟩

/-- The stream held a header and what was received. -/
theorem lrecv_length (some : p ≠ []) (ran : (lrecv k buffer masks s).1 = .string p false) :
    p.length + 2 ≤ s.stream.length ∧ (126 ≤ p.length → p.length + 4 ≤ s.stream.length) := by
  induction whole : s.stream.length using Nat.strongRecOn generalizing buffer s with
  | ind size ih =>
    rw [lrecv_eq] at ran
    obtain ⟨buffer', s', done, ran⟩ := afterRead_string some ran
    obtain ⟨n, two, enough, stream, -⟩ := blockRead_done done
    have length : s'.stream.length = s.stream.length - n := by rw [stream, List.length_drop]
    split at ran
    · obtain ⟨inside, longer⟩ := ih s'.stream.length (by omega) ran rfl
      exact ⟨by omega, fun long => by have := longer long; omega⟩
    · obtain ⟨inside, longer⟩ := recvLength_length some ran
      exact ⟨by omega, fun long => by have := longer long; omega⟩

end Frames

/-! ## Frames of the server -/

/-- The frames that the encoders of the server write for a payload. -/
inductive Encoded (payload : Bytes) : Bytes → Prop
  | lpack : Encoded payload (lpack payload)
  | sendFrame (opcode : Fin 16) : Encoded payload (sendFrame opcode payload)

/-- The length of a payload of at most `CACHE_SIZE` bytes. -/
def lengthBytes (n : Nat) : Bytes :=
  if n < 126 then [UInt8.ofNat n] else [126, UInt8.ofNat (n / 256), UInt8.ofNat n]

theorem Encoded.exists_eq {payload frame : Bytes} (encoded : Encoded payload frame)
    (short : payload.length ≤ cacheSize) :
    ∃ b, reserved b = false ∧ frame = b :: (lengthBytes payload.length ++ payload) := by
  have room : cacheSize = 4096 := rfl
  have first : ∀ opcode : Fin 16, reserved (UInt8.ofNat (128 + opcode)) = false := by decide
  have plain : ∀ opcode : Fin 16,
      plainHeader opcode (.shortest payload.length) payload.length =
        UInt8.ofNat (128 + opcode) :: lengthBytes payload.length := by
    intro opcode
    have fits : payload.length < 65536 := by omega
    unfold plainHeader lengthBytes LengthField.shortest
    by_cases seven : payload.length < 126
    · rw [if_pos seven, if_pos seven]
      rfl
    · rw [if_neg seven, if_pos fits, if_neg seven]
      rfl
  cases encoded with
  | lpack =>
    refine ⟨_, first 2, ?_⟩
    rw [lpack_eq, plain]
    rfl
  | sendFrame opcode =>
    refine ⟨_, first opcode, ?_⟩
    rw [sendFrame_eq, sendFrameField_eq_shortest (by omega), plain]
    rfl

/-- The reads of a frame are answered at once. An empty payload is not read. The bytes 2, 2 may come
one by one: the second is written over the first, and next to it the length is still there. -/
def Kernel.AtOnce (k : Kernel) (i : Nat) (payload : Bytes) : Prop :=
  k.Whole i 2 ∧
    if payload.length < 126 then
      payload = [] ∨ payload = [2, 2] ∨ k.Whole (i + 1) payload.length
    else k.Whole (i + 1) 2 ∧ k.Whole (i + 2) payload.length

section Server

variable {k : Kernel} {buffer masks payload later : Bytes} {s : Socket} {i : Nat} {b c : UInt8}

theorem lrecv_header (whole : k.Whole i 2) (plain : reserved b = false) (room : 2 ≤ buffer.length)
    (rest : Bytes) :
    lrecv k buffer masks ⟨b :: c :: rest, i⟩ =
      recvLength k (b :: c :: buffer.drop 2) masks ⟨rest, i + 1⟩ := by
  have read := blockRead_whole buffer (s := ⟨b :: c :: rest, i⟩) whole (by decide) (by simp) room
  rw [lrecv_eq]
  simp only [Nat.cast_ofNat] at read
  simp only [read, afterRead, List.take_succ_cons, List.take_zero, List.cons_append,
    List.nil_append, List.getD_cons_zero, plain, Bool.false_eq_true, if_false]
  rfl

theorem recvLength_seven {n : Nat} (seven : n < 126) (junk : Bytes) :
    recvLength k (b :: UInt8.ofNat n :: junk) masks s =
      recvData k (b :: UInt8.ofNat n :: junk) n none s := by
  have bits : ∀ n : Fin 126, (UInt8.ofNat n >>> 7 &&& 1) = 0 ∧
      (UInt8.ofNat n &&& 0x7f) = UInt8.ofNat n ∧ UInt8.ofNat n < 0x7E ∧
      (UInt8.ofNat n).toNat = n := by decide
  obtain ⟨noMask, low, less, value⟩ := bits ⟨n, seven⟩
  simp only at noMask low less value
  simp only [recvLength, List.getD_cons_succ, List.getD_cons_zero, noMask, low, less, if_true,
    value]
  rfl

theorem recvLength_sixteen (junk : Bytes) :
    recvLength k (b :: 126 :: junk) masks s =
      afterRead (blockRead k (b :: 126 :: junk) 2 s) s fun buffer s =>
        recvData k buffer (decode (buffer.take 2)) none s := by
  have noMask : (126 : UInt8) >>> 7 &&& 0x1 = 0 := by decide
  have low : (126 : UInt8) &&& 0x7f = 0x7E := by decide
  have full : ¬ (0x7E : UInt8) < 0x7E := by decide
  simp only [recvLength, recvMask, List.getD_cons_succ, List.getD_cons_zero, noMask, low, full,
    if_false, if_true, bne_self_eq_false, Bool.false_eq_true]

theorem recvData_nil : recvData k buffer 0 none s = (.string [] false, s) := by
  simp [recvData, blockRead_zero, afterRead]

theorem recvData_whole (whole : k.Whole i payload.length)
    (short : payload.length ≤ cacheSize) (room : payload.length ≤ buffer.length) :
    recvData k buffer payload.length none ⟨payload ++ later, i⟩ =
      (.string payload false, ⟨later, i + 1⟩) := by
  have read := blockRead_whole buffer (s := ⟨payload ++ later, i⟩) whole
    (Nat.lt_of_le_of_lt short (by decide)) (by simp) room
  have fits : ¬ ((payload ++ buffer.drop payload.length).length : Int) < payload.length := by
    rw [List.length_append]
    omega
  simp only [recvData, read, afterRead, List.take_left, List.drop_left, if_neg fits,
    Int.toNat_natCast]

/-- A payload that is not read at once ends with what the buffer held, if it is long. -/
theorem recvData_stale (delivers : k.Delivers) (some : payload ≠ [])
    (split : ¬ k.Whole i payload.length) (short : payload.length ≤ cacheSize)
    (room : payload.length ≤ buffer.length)
    (other : buffer[payload.length - 1]? ≠ payload[payload.length - 1]?) :
    (recvData k buffer payload.length none ⟨payload, i⟩).1 ≠ .string payload false := by
  intro same
  have pos := List.length_pos_iff.mpr some
  obtain ⟨buffer', s', done, same⟩ := afterRead_string some same
  have stale := blockRead_stale delivers (Nat.lt_of_le_of_lt short (by decide)) (Nat.le_refl _) room
    split done
  split at same
  · cases same
  · simp only [Int.toNat_natCast, Received.string.injEq, and_true] at same
    have last := congrArg (·[payload.length - 1]?) same
    simp only [List.getElem?_take_of_lt (show payload.length - 1 < payload.length by omega)] at last
    exact other (stale.symm.trans last)

/-- Two bytes of payload that come one by one: the second, and what was next to it. -/
theorem recvData_two (delivers : k.Delivers) (split : ¬ k.Whole i 2) (x y : UInt8)
    (junk later : Bytes) :
    recvData k (b :: c :: junk) 2 none ⟨x :: y :: later, i⟩ =
      (.string [y, c] false, ⟨later, i + 2⟩) := by
  have room : 2 ≤ (b :: c :: junk).length := by simp
  have fits : ¬ ((y :: c :: junk).length : Int) < 2 := by
    simp only [List.length_cons]
    omega
  simp only [recvData, blockRead_two delivers room split, afterRead, List.drop_succ_cons,
    List.drop_zero, if_neg fits]
  rfl

/-- A header without an extended length. -/
theorem lrecv_seven {n : Nat} (masks : Bytes) (whole : k.Whole i 2) (plain : reserved b = false)
    (room : 2 ≤ buffer.length) (seven : n < 126) (rest : Bytes) :
    lrecv k buffer masks ⟨b :: (lengthBytes n ++ rest), i⟩ =
      recvData k (b :: UInt8.ofNat n :: buffer.drop 2) n none ⟨rest, i + 1⟩ := by
  rw [lengthBytes, if_pos seven, List.singleton_append, lrecv_header whole plain room,
    recvLength_seven seven]

/-- A header with an extended length. -/
theorem lrecv_sixteen {n : Nat} (whole : k.Whole i 2) (extended : k.Whole (i + 1) 2)
    (plain : reserved b = false) (room : 2 ≤ buffer.length) (long : ¬ n < 126) (fits : n < 65536)
    (rest : Bytes) :
    lrecv k buffer masks ⟨b :: (lengthBytes n ++ rest), i⟩ =
      recvData k (UInt8.ofNat (n / 256) :: UInt8.ofNat n :: buffer.drop 2) n none
        ⟨rest, i + 2⟩ := by
  have read := blockRead_whole (b :: 126 :: buffer.drop 2)
    (s := ⟨UInt8.ofNat (n / 256) :: UInt8.ofNat n :: rest, i + 1⟩) extended (by decide) (by simp)
    (by simp)
  have value : decode [UInt8.ofNat (n / 256), UInt8.ofNat n] = n :=
    decode_encode (show n < 256 ^ 2 from fits)
  simp only [Nat.cast_ofNat, List.take_succ_cons, List.take_zero, List.drop_succ_cons,
    List.drop_zero, List.cons_append, List.nil_append] at read
  rw [lengthBytes, if_neg long]
  simp only [List.cons_append, List.nil_append]
  rw [lrecv_header whole plain room, recvLength_sixteen]
  simp only [read, afterRead, List.take_succ_cons, List.take_zero, value]

/-- What is answered at once is received. -/
theorem lrecv_of_atOnce (delivers : k.Delivers) (plain : reserved b = false)
    (short : payload.length ≤ cacheSize) (atOnce : k.AtOnce i payload)
    (length : buffer.length = cacheSize) :
    (lrecv k buffer masks ⟨b :: (lengthBytes payload.length ++ (payload ++ later)), i⟩).1 =
      .string payload false := by
  have size : cacheSize = 4096 := rfl
  have room : 2 ≤ buffer.length := by omega
  obtain ⟨header, atOnce⟩ := atOnce
  by_cases seven : payload.length < 126
  · rw [if_pos seven] at atOnce
    rw [lrecv_seven masks header plain room seven]
    have filled : payload.length ≤ (b :: UInt8.ofNat payload.length :: buffer.drop 2).length := by
      simp only [List.length_cons, List.length_drop]
      omega
    rcases atOnce with rfl | rfl | whole
    · exact congrArg Prod.fst recvData_nil
    · by_cases whole : k.Whole (i + 1) 2
      · rw [recvData_whole whole short filled]
      · exact congrArg Prod.fst (recvData_two delivers whole 2 2 (buffer.drop 2) later)
    · rw [recvData_whole whole short filled]
  · rw [if_neg seven] at atOnce
    obtain ⟨extended, whole⟩ := atOnce
    rw [lrecv_sixteen header extended plain room seven (by omega), recvData_whole whole short]
    simp only [List.length_cons, List.length_drop]
    omega

/-- A header that comes byte by byte is not read: whatever the second byte of the buffer is taken
for, the payload is not received. -/
theorem header_whole_of_received (delivers : k.Delivers) (short : payload.length ≤ cacheSize)
    (received : ∀ buffer : Bytes, buffer.length = cacheSize →
      (lrecv k buffer masks ⟨b :: (lengthBytes payload.length ++ payload), i⟩).1 =
        .string payload false) : k.Whole i 2 := by
  have size : cacheSize = 4096 := rfl
  by_contra split
  -- a length other than the payload's
  let wrong := if payload.length = 0 then 1 else 0
  let buffer := List.replicate cacheSize (UInt8.ofNat wrong)
  have received := received buffer List.length_replicate
  have room : 2 ≤ buffer.length := by
    rw [List.length_replicate]
    decide
  have behind : buffer.drop 1 = UInt8.ofNat wrong :: buffer.drop 2 := rfl
  by_cases seven : payload.length < 126
  · rw [lengthBytes, if_pos seven, List.singleton_append, lrecv_eq,
      blockRead_two delivers room split] at received
    simp only [afterRead, List.getD_cons_zero] at received
    split at received
    next skipped =>
      have some : payload ≠ [] := by
        rintro rfl
        exact absurd skipped (by decide)
      obtain ⟨inside, -⟩ := lrecv_length some received
      simp only at inside
      omega
    next =>
      have less : wrong < 126 := by
        simp only [wrong]
        split <;> decide
      rw [behind, recvLength_seven less] at received
      by_cases empty : payload = []
      · subst empty
        simp only [recvData, wrong, List.length_nil, if_true, Nat.cast_one,
          blockRead_empty delivers, afterRead] at received
        cases received
      · obtain ⟨length, -⟩ := recvData_length empty received
        have pos := List.length_pos_iff.mpr empty
        rw [show wrong = 0 from if_neg (by omega)] at length
        omega
  · rw [lengthBytes, if_neg seven] at received
    have some : payload ≠ [] := List.length_pos_iff.mp (by omega)
    simp only [List.cons_append, List.nil_append] at received
    rw [lrecv_eq, blockRead_two delivers room split] at received
    have skipped : reserved 126 = true := by decide
    simp only [afterRead, List.getD_cons_zero, skipped, if_true] at received
    obtain ⟨-, longer⟩ := lrecv_length some received
    have inside := longer (by omega)
    simp only [List.length_cons] at inside
    omega

/-- A payload that is received was read at once, but for the one that the code gets right. -/
theorem payload_whole_of_received (delivers : k.Delivers) (some : payload ≠ [])
    (short : payload.length ≤ cacheSize) {x y : UInt8}
    (received : ∀ buffer : Bytes, buffer.length = cacheSize →
      (recvData k (x :: y :: buffer.drop 2) payload.length none ⟨payload, i⟩).1 =
        .string payload false) :
    k.Whole i payload.length ∨ payload = [y, y] := by
  by_contra neither
  obtain ⟨split, other⟩ := not_or.mp neither
  have size : cacheSize = 4096 := rfl
  have pos := List.length_pos_iff.mpr some
  let wrong := payload[payload.length - 1] + 1
  let buffer := List.replicate cacheSize wrong
  have length : (x :: y :: buffer.drop 2).length = cacheSize := by
    simp only [buffer, List.length_cons, List.length_drop, List.length_replicate]
    omega
  have received := received buffer List.length_replicate
  by_cases two : payload.length = 2
  · obtain ⟨a, c, rfl⟩ := List.length_eq_two.mp two
    have read := recvData_two (b := x) (c := y) delivers split a c (buffer.drop 2) []
    simp only [List.length_cons, List.length_nil, Nat.zero_add, Nat.reduceAdd, Nat.cast_ofNat]
      at received
    rw [read] at received
    cases received
    exact other rfl
  · by_cases one : payload.length = 1
    · rw [one] at split
      exact split (delivers.whole_one i)
    · have beyond : (x :: y :: buffer.drop 2)[payload.length - 1]? =
          Option.some wrong := by
        have index : payload.length - 1 = (payload.length - 3) + 2 := by omega
        rw [index, List.getElem?_cons_succ, List.getElem?_cons_succ, List.getElem?_drop,
          List.getElem?_replicate_of_lt (by omega)]
      refine recvData_stale delivers some split short (by omega) ?_ received
      rw [beyond, List.getElem?_eq_getElem (by omega)]
      simp [wrong]

/-- From its two bytes in the wrong places the length of a payload is more than `CACHE_SIZE`, or not
its own. -/
theorem extended_whole_of_received (delivers : k.Delivers) (plain : reserved b = false)
    (header : k.Whole i 2) (long : ¬ payload.length < 126) (short : payload.length ≤ cacheSize)
    (room : 2 ≤ buffer.length)
    (received : (lrecv k buffer masks ⟨b :: (lengthBytes payload.length ++ payload), i⟩).1 =
      .string payload false) : k.Whole (i + 1) 2 := by
  have size : cacheSize = 4096 := rfl
  by_contra split
  have some : payload ≠ [] := List.length_pos_iff.mp (by omega)
  rw [lengthBytes, if_neg long] at received
  simp only [List.cons_append, List.nil_append] at received
  have filled : 2 ≤ (b :: 126 :: buffer.drop 2).length := by
    simp only [List.length_cons]
    omega
  rw [lrecv_header header plain room, recvLength_sixteen,
    blockRead_two delivers filled split] at received
  simp only [afterRead] at received
  obtain ⟨length, -⟩ := recvData_length some received
  have value : decode ((UInt8.ofNat payload.length ::
      (b :: 126 :: buffer.drop 2).drop 1).take 2) =
        payload.length % 256 * 256 + 126 := by
    simp [decode, UInt8.toNat_ofNat']
  rw [value] at length
  omega

theorem atOnce_of_received (masks : Bytes) (delivers : k.Delivers) (plain : reserved b = false)
    (short : payload.length ≤ cacheSize)
    (received : ∀ buffer : Bytes, buffer.length = cacheSize →
      (lrecv k buffer masks ⟨b :: (lengthBytes payload.length ++ payload), i⟩).1 =
        .string payload false) : k.AtOnce i payload := by
  have size : cacheSize = 4096 := rfl
  have header := header_whole_of_received delivers short received
  refine ⟨header, ?_⟩
  by_cases seven : payload.length < 126
  · rw [if_pos seven]
    by_cases empty : payload = []
    · exact .inl empty
    · refine .inr ?_
      have read : ∀ buffer : Bytes, buffer.length = cacheSize →
          (recvData k (b :: UInt8.ofNat payload.length :: buffer.drop 2) payload.length none
            ⟨payload, i + 1⟩).1 = .string payload false := by
        intro buffer length
        rw [← lrecv_seven masks header plain (by omega) seven]
        exact received buffer length
      rcases payload_whole_of_received delivers empty short read with whole | twice
      · exact .inr whole
      · refine .inl ?_
        have two : payload.length = 2 := congrArg List.length twice
        rw [two] at twice
        exact twice
  · rw [if_neg seven]
    have some : payload ≠ [] := List.length_pos_iff.mp (by omega)
    have extended : k.Whole (i + 1) 2 := by
      have length : (List.replicate cacheSize (0 : UInt8)).length = cacheSize :=
        List.length_replicate
      exact extended_whole_of_received delivers plain header seven short (by omega)
        (received _ length)
    refine ⟨extended, ?_⟩
    have read : ∀ buffer : Bytes, buffer.length = cacheSize →
        (recvData k (UInt8.ofNat (payload.length / 256) :: UInt8.ofNat payload.length ::
          buffer.drop 2) payload.length none ⟨payload, i + 2⟩).1 = .string payload false := by
      intro buffer length
      rw [← lrecv_sixteen header extended plain (by omega) seven (by omega)]
      exact received buffer length
    rcases payload_whole_of_received delivers some short read with whole | twice
    · exact whole
    · have two : payload.length = 2 := congrArg List.length twice
      omega

end Server

/-- **What the client receives.** The payload of a frame of the server, whatever the array held
before and whatever follows the frame, exactly when the reads of the frame are answered at once; and
a read gets the next bytes of the stream, whatever the array held, exactly when it is. -/
theorem lrecv_payload_iff (k : Kernel) (delivers : k.Delivers) (i : Nat) {payload frame : Bytes}
    (encoded : Encoded payload frame) (short : payload.length ≤ cacheSize) :
    ((∀ buffer masks later : Bytes, buffer.length = cacheSize →
      (lrecv k buffer masks ⟨frame ++ later, i⟩).1 = .string payload false) ↔
        k.AtOnce i payload) ∧
    ∀ (n : Nat) (stream : Bytes), 0 < n → n ≤ cacheSize → n ≤ stream.length →
      ((∀ buffer buffer' s', buffer.length = cacheSize →
        blockRead k buffer n ⟨stream, i⟩ = some (.done, buffer', s') →
          buffer'.take n = stream.take n) ↔ k.Whole i n) := by
  obtain ⟨b, plain, rfl⟩ := encoded.exists_eq short
  refine ⟨⟨?_, ?_⟩, fun n stream some fits enough => blockRead_iff delivers some fits enough⟩
  · intro received
    refine atOnce_of_received [] delivers plain short fun buffer length => ?_
    have alone := received buffer [] [] length
    rwa [List.append_nil] at alone
  · intro atOnce buffer masks later length
    rw [List.cons_append, List.append_assoc]
    exact lrecv_of_atOnce delivers plain short atOnce length

/-- The first call brings all that it asks for, the others bring one byte each. -/
def headerFirst : Kernel where
  answer round count := if round = 0 then .bytes (max 1 count) (by omega) else .bytes 1 Nat.one_pos
  within := by
    intro round count n pos answer some
    split at answer
    · cases answer
      omega
    · cases answer
      omega

theorem delivers_headerFirst : headerFirst.Delivers := by
  intro round count
  simp only [headerFirst]
  split
  · exact ⟨max 1 count, by omega, rfl⟩
  · exact ⟨1, Nat.one_pos, rfl⟩

theorem whole_headerFirst : headerFirst.Whole 0 2 := ⟨by decide, rfl⟩

/-- The two bytes of `"ab"` come one by one: the client receives `"b"` and the length. -/
theorem lrecv_overwritten :
    lpack [97, 98] = [0x82, 2, 97, 98] ∧ headerFirst.Delivers ∧
    (lrecv headerFirst (List.replicate cacheSize 0) (List.replicate 4 0)
      ⟨[0x82, 2, 97, 98], 0⟩).1 = .string [98, 2] false ∧
    ∃ buffer', blockRead headerFirst (List.replicate cacheSize 0) 2 ⟨[97, 98], 1⟩ =
      some (.done, buffer', ⟨[], 3⟩) ∧ buffer'.take 2 = [98, 0] := by
  have room : 2 ≤ (List.replicate cacheSize (0 : UInt8)).length := by
    rw [List.length_replicate]
    decide
  have split : ¬ headerFirst.Whole 1 2 := by
    intro whole
    obtain ⟨pos, answer⟩ := whole
    cases answer
  refine ⟨by decide, delivers_headerFirst, ?_, ?_⟩
  · have read := lrecv_seven (b := 0x82) (List.replicate 4 0) whole_headerFirst
      (by decide) room (show 2 < 126 by decide) [97, 98]
    exact congrArg Prod.fst (read.trans
      (recvData_two delivers_headerFirst split 97 98 ((List.replicate cacheSize 0).drop 2) []))
  · refine ⟨_, blockRead_two delivers_headerFirst room split, ?_⟩
    rfl

/-- One byte of payload cannot be split. -/
theorem lrecv_one_byte :
    (lrecv headerFirst (List.replicate cacheSize 0) (List.replicate 4 0) ⟨[0x82, 1, 97], 0⟩).1 =
      .string [97] false := by
  have atOnce : headerFirst.AtOnce 0 [97] :=
    ⟨whole_headerFirst, .inr (.inr (delivers_headerFirst.whole_one 1))⟩
  exact (lrecv_payload_iff headerFirst delivers_headerFirst 0 .lpack (by decide)).1.mpr atOnce
    _ _ [] List.length_replicate

end RillServer.Client
