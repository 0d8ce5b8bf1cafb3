import RillServer.Lib.ChainTable
import RillServer.Lib.Ring
import RillServer.Netpack.Frame

/-!
# The packet filter of the gate

`lualib-src/lua-websocketnetpack.c`. `filterData` takes one chunk of bytes from a socket and cuts it
into packets. What is left of a packet at the end of a chunk waits in a hash table of `uncomplete`
records until the next chunk of its socket; packets beyond the first of a chunk go to a ring, from
which the gate pops them.

Frames are found in three places: at the start of a chunk when nothing is pending (`filterData`),
byte by byte when the header of a frame is pending (`fillHeader`), and behind a packet of the same
chunk (`pushMore`). They do not treat the negative results of `read_size` alike.

Not in the model: a queue that is not allocated yet is the empty queue; the memory of a record or a
buffer is freed when nothing refers to it; `total_size`, which is never read.
-/

namespace RillServer.Netpack

/-- A socket id, an `int`. -/
abbrev Fd := BitVec 32

/-- `HEADERSIZE`. -/
def headersize : Nat := 1024

/-- `MAX_PACKSIZE`. -/
def maxPacksize : Nat := 10 * 1024

/-- `hash_fd`, with `HASHSIZE` chains. -/
def hashFd (fd : Fd) : Fin 4096 :=
  let a := fd.sshiftRight 24
  let b := fd.sshiftRight 12
  let c := fd
  Fin.ofNat 4096 (a + b + c).toNat

/-- A `netpack`. Its size is the length of its buffer. -/
structure Pack where
  id : Fd
  buffer : Bytes
  deriving DecidableEq, Inhabited

/-- An `uncomplete` record: the beginning of a header (`read < 0`), or the beginning of a packet of
which `read` bytes, the length of `buffer`, have arrived and are unmasked. -/
inductive Uncomplete where
  | header (header : Bytes)
  | body (size : Nat) (buffer : Bytes) (mask : Option Mask) (hasunmaskSize : Nat)

/-- A `queue`, with `QUEUESIZE` slots to begin with. `reads` is not in the source: it lists the
places at which `read_size` looked for a header since `filter_data_` was called, each as the number
of bytes from there to the end of the chunk. -/
structure Queue where
  ring : RingBuffer Pack 1024
  hash : ChainTable hashFd Uncomplete
  reads : List Nat

/-- What the code must not do: write beyond `uc->header`, or ask `skynet_malloc` for a negative
size. -/
inductive Fault where
  | headerOverflow
  | negativeSize
  deriving DecidableEq

/-- How `filter_data_` returns: with the queue alone, or with one of the types `TYPE_DATA`,
`TYPE_MORE` and `TYPE_CLOSE`. -/
inductive Reply where
  | queue
  | data (fd : Fd) (buffer : Bytes)
  | more
  | close (fd : Fd)
  deriving DecidableEq

namespace Queue

/-- `get_queue`, when there is none. -/
def empty : Queue := { ring := .empty, hash := .empty, reads := [] }

/-- `find_uncomplete`: the record is unlinked. -/
def findUncomplete (q : Queue) (fd : Fd) : Option Uncomplete × Queue :=
  let (uc, hash) := q.hash.take fd
  (uc, { q with hash })

/-- `save_uncomplete`, and the linking of a record that was unlinked. -/
def saveUncomplete (q : Queue) (fd : Fd) (uc : Uncomplete) : Queue :=
  { q with hash := q.hash.put fd uc }

/-- `close_uncomplete`. -/
def closeUncomplete (q : Queue) (fd : Fd) : Queue := (q.findUncomplete fd).2

/-- `push_data`. -/
def pushData (q : Queue) (fd : Fd) (buffer : Bytes) : Queue :=
  { q with ring := q.ring.push { id := fd, buffer } }

/-- Note where headers were looked for. -/
def log (q : Queue) (reads : List Nat) : Queue := { q with reads := q.reads ++ reads }

/-- The records of a socket, in the order in which `find_uncomplete` finds them. -/
def pending (q : Queue) (fd : Fd) : List Uncomplete := q.hash.stack fd

/-- The packets that `lpop` will return. -/
def packs (q : Queue) : List Pack := q.ring.toList

@[simp]
theorem packs_log (q : Queue) (reads : List Nat) : (q.log reads).packs = q.packs := rfl

@[simp]
theorem pending_log (q : Queue) (reads : List Nat) (fd : Fd) :
    (q.log reads).pending fd = q.pending fd := rfl

@[simp]
theorem reads_log (q : Queue) (reads : List Nat) : (q.log reads).reads = q.reads ++ reads := rfl

@[simp]
theorem packs_pushData (q : Queue) (fd : Fd) (buffer : Bytes) :
    (q.pushData fd buffer).packs = q.packs ++ [⟨fd, buffer⟩] :=
  RingBuffer.toList_push _ _

@[simp]
theorem pending_pushData (q : Queue) (fd fd' : Fd) (buffer : Bytes) :
    (q.pushData fd buffer).pending fd' = q.pending fd' := rfl

@[simp]
theorem reads_pushData (q : Queue) (fd : Fd) (buffer : Bytes) :
    (q.pushData fd buffer).reads = q.reads := rfl

@[simp]
theorem packs_saveUncomplete (q : Queue) (fd : Fd) (uc : Uncomplete) :
    (q.saveUncomplete fd uc).packs = q.packs := rfl

@[simp]
theorem pending_saveUncomplete (q : Queue) (fd : Fd) (uc : Uncomplete) :
    (q.saveUncomplete fd uc).pending fd = uc :: q.pending fd :=
  ChainTable.stack_put _ _ _

theorem pending_saveUncomplete_of_ne (q : Queue) {fd fd' : Fd} (uc : Uncomplete)
    (other : fd' ≠ fd) : (q.saveUncomplete fd uc).pending fd' = q.pending fd' :=
  ChainTable.stack_put_of_ne _ _ other

@[simp]
theorem reads_saveUncomplete (q : Queue) (fd : Fd) (uc : Uncomplete) :
    (q.saveUncomplete fd uc).reads = q.reads := rfl

@[simp]
theorem findUncomplete_found (q : Queue) (fd : Fd) :
    (q.findUncomplete fd).1 = (q.pending fd).head? :=
  ChainTable.take_found _ _

@[simp]
theorem packs_findUncomplete (q : Queue) (fd : Fd) : (q.findUncomplete fd).2.packs = q.packs := rfl

@[simp]
theorem pending_findUncomplete (q : Queue) (fd : Fd) :
    (q.findUncomplete fd).2.pending fd = (q.pending fd).tail :=
  ChainTable.stack_take _ _

theorem pending_findUncomplete_of_ne (q : Queue) {fd fd' : Fd} (other : fd' ≠ fd) :
    (q.findUncomplete fd).2.pending fd' = q.pending fd' :=
  ChainTable.stack_take_of_ne _ other

@[simp]
theorem reads_findUncomplete (q : Queue) (fd : Fd) : (q.findUncomplete fd).2.reads = q.reads := rfl

@[simp]
theorem packs_closeUncomplete (q : Queue) (fd : Fd) : (q.closeUncomplete fd).packs = q.packs := rfl

@[simp]
theorem pending_closeUncomplete (q : Queue) (fd : Fd) :
    (q.closeUncomplete fd).pending fd = (q.pending fd).tail :=
  q.pending_findUncomplete fd

@[simp]
theorem reads_closeUncomplete (q : Queue) (fd : Fd) : (q.closeUncomplete fd).reads = q.reads := rfl

end Queue

/-- `skynet_malloc`. -/
def malloc (size : Int) : Except Fault Nat :=
  if size < 0 then .error .negativeSize else .ok size.toNat

/-- `decode_wsmask_data`: the bytes unmasked in place, and `hasunmask_size` after it. -/
def decodeWsmaskData (mask : Option Mask) (hasunmaskSize : Nat) (buffer : Bytes) : Bytes × Nat :=
  match mask with
  | none => (buffer, hasunmaskSize)
  | some masks => (xorCyclic masks hasunmaskSize buffer, hasunmaskSize + buffer.length)

/-- The loop of `websocket_strnpos`, for the rounds that are left from index `i` on. -/
def strnposLoop (needle : Bytes) : Nat → Nat → Bytes → Int
  | 0, _, _ => -1
  | rounds + 1, i, haystack =>
      if haystack.take needle.length = needle then i
      else strnposLoop needle rounds (i + 1) haystack.tail

/-- `websocket_strnpos`. -/
def websocketStrnpos (haystack needle : Bytes) : Int :=
  if haystack.length < needle.length then -1
  else strnposLoop needle (haystack.length - needle.length + 1) 0 haystack

/-- `get_http_header`: the end of the first `"\r\n\r\n"`. -/
def getHttpHeader (buffer : Bytes) : Int :=
  let n := websocketStrnpos buffer [13, 10, 13, 10]
  if n < 0 then n else n + 4

/-- A header that was looked for: where, what came out, and the bytes it was looked for in. -/
structure Scan where
  reads : List Nat
  head : Head
  buffer : Bytes

/-- `while (throwAway(read_size(..)))`: two bytes are thrown away each time. `read_size` wants two
bytes before it throws any away. -/
def skipHeads (throwAway : Int → Bool) : Bytes → Scan
  | b₀ :: b₁ :: buffer =>
      let head := readSize (b₀ :: b₁ :: buffer)
      if throwAway head.size then
        let scan := skipHeads throwAway buffer
        { scan with reads := (buffer.length + 2) :: scan.reads }
      else { reads := [buffer.length + 2], head, buffer := b₀ :: b₁ :: buffer }
  | buffer => { reads := [buffer.length], head := readSize buffer, buffer }

/-- `pack_size == -2`, the loop condition of `filter_data_`. -/
def invalid (packSize : Int) : Bool := packSize = -2

/-- `pack_size <= -2`, the loop condition of `push_more`. -/
def invalidOrClose (packSize : Int) : Bool := packSize ≤ -2

/-- `if (pack_size > MAX_PACKSIZE) pack_size = MAX_PACKSIZE`. -/
def Head.clamp (head : Head) : Head :=
  if head.size > maxPacksize then { head with size := maxPacksize } else head

/-- The next header of a buffer: an HTTP header in the handshake, else a frame's. -/
def nextHead (throwAway : Int → Bool) (handshake : Bool) (buffer : Bytes) : Scan :=
  if handshake then { reads := [], head := { size := getHttpHeader buffer }, buffer }
  else
    let scan := skipHeads throwAway buffer
    { scan with head := scan.head.clamp }

/-- The bytes that are saved when a header is not complete. -/
def savedHeader (handshake : Bool) (buffer : Bytes) : Except Fault Bytes :=
  if handshake ∧ buffer.length > headersize then .ok (buffer.take headersize)
  else if buffer.length > headersize then .error .headerOverflow
  else .ok buffer

theorem packHeadLength_of_readMask {isMask : Bool} {packSize : Int} {offset : Nat} {bytes : Bytes}
    (nonneg : 0 ≤ (readMask isMask packSize offset bytes).size) :
    offset ≤ (readMask isMask packSize offset bytes).packHeadLength := by
  unfold readMask at nonneg ⊢
  split at nonneg
  · split at nonneg
    · simp_all
    · simp at nonneg
  · simp_all

theorem packHeadLength_of_readLength {isMask : Bool} {length : UInt8} {bytes : Bytes}
    (nonneg : 0 ≤ (readLength isMask length bytes).size) :
    2 ≤ (readLength isMask length bytes).packHeadLength := by
  unfold readLength at nonneg ⊢
  split_ifs at nonneg ⊢
  · exact packHeadLength_of_readMask nonneg
  · exact absurd nonneg (by decide)
  · exact Nat.le_trans (by decide) (packHeadLength_of_readMask nonneg)
  · exact absurd nonneg (by decide)
  · exact Nat.le_trans (by decide) (packHeadLength_of_readMask nonneg)

theorem packHeadLength_of_readSize {buffer : Bytes} (nonneg : 0 ≤ (readSize buffer).size) :
    2 ≤ (readSize buffer).packHeadLength := by
  unfold readSize at nonneg ⊢
  split at nonneg
  · simp only at nonneg ⊢
    split_ifs at nonneg ⊢
    · exact absurd nonneg (by decide)
    · exact absurd nonneg (by decide)
    · exact absurd nonneg (by decide)
    · exact packHeadLength_of_readLength nonneg
  · exact absurd nonneg (by decide)

theorem skipHeads_cases (throwAway : Int → Bool) (buffer : Bytes) :
    (skipHeads throwAway buffer).head = readSize (skipHeads throwAway buffer).buffer ∧
      (skipHeads throwAway buffer).buffer.length ≤ buffer.length := by
  induction size : buffer.length using Nat.strongRecOn generalizing buffer with
  | ind size ih =>
      rcases buffer with _ | ⟨b₀, _ | ⟨b₁, rest⟩⟩
      · exact ⟨rfl, Nat.zero_le _⟩
      · exact ⟨rfl, Nat.le_of_eq size⟩
      · rw [List.length_cons, List.length_cons] at size
        rw [skipHeads]
        simp only
        split
        · obtain ⟨head, shorter⟩ := ih rest.length (by omega) rest rfl
          exact ⟨head, Nat.le_trans shorter (by omega)⟩
        · exact ⟨rfl, by simp only [List.length_cons]; omega⟩

theorem websocketStrnpos_nonneg_or (haystack needle : Bytes) :
    websocketStrnpos haystack needle = -1 ∨ 0 ≤ websocketStrnpos haystack needle := by
  have loop : ∀ rounds i haystack, strnposLoop needle rounds i haystack = -1 ∨
      0 ≤ strnposLoop needle rounds i haystack := by
    intro rounds
    induction rounds with
    | zero => exact fun _ _ => .inl rfl
    | succ rounds ih =>
        intro i haystack
        unfold strnposLoop
        split
        · exact .inr (Int.natCast_nonneg i)
        · exact ih _ _
  unfold websocketStrnpos
  split
  · exact .inl rfl
  · exact loop _ _ _

/-- A packet that was found has at least one byte, counting its header. -/
theorem nextHead_pos {throwAway : Int → Bool} {handshake : Bool} {buffer : Bytes} {size : Nat}
    (found : malloc (nextHead throwAway handshake buffer).head.size = .ok size) :
    0 < (nextHead throwAway handshake buffer).head.packHeadLength + size ∧
      (nextHead throwAway handshake buffer).buffer.length ≤ buffer.length := by
  have nonneg : 0 ≤ (nextHead throwAway handshake buffer).head.size ∧
      size = (nextHead throwAway handshake buffer).head.size.toNat := by
    unfold malloc at found
    split at found
    · cases found
    · cases found
      exact ⟨by omega, rfl⟩
  unfold nextHead at nonneg ⊢
  cases handshake with
  | true =>
      simp only [if_true, getHttpHeader] at nonneg ⊢
      obtain ⟨nonneg, value⟩ := nonneg
      refine ⟨?_, Nat.le_refl _⟩
      rcases websocketStrnpos_nonneg_or buffer [13, 10, 13, 10] with missing | index
      · rw [missing] at nonneg
        exact absurd nonneg (by decide)
      · rw [if_neg (by omega)] at value
        omega
  | false =>
      simp only [Bool.false_eq_true, if_false] at nonneg ⊢
      obtain ⟨head, shorter⟩ := skipHeads_cases throwAway buffer
      refine ⟨?_, shorter⟩
      have atLeast : 2 ≤ (skipHeads throwAway buffer).head.clamp.packHeadLength := by
        unfold Head.clamp at nonneg ⊢
        rw [head] at nonneg ⊢
        split
        next large =>
          exact packHeadLength_of_readSize (Int.le_trans (by decide) (Int.le_of_lt large))
        next small =>
          rw [if_neg small] at nonneg
          exact packHeadLength_of_readSize nonneg.1
      omega

/-- `push_more`. -/
def pushMore (handshake : Bool) (fd : Fd) (q : Queue) (buffer : Bytes) : Except Fault Queue :=
  let scan := nextHead invalidOrClose handshake buffer
  let q := q.log scan.reads
  if scan.head.size = -1 then
    match savedHeader handshake scan.buffer with
    | .error fault => .error fault
    | .ok header => .ok (q.saveUncomplete fd (.header header))
  else
    let buffer := scan.buffer.drop scan.head.packHeadLength
    if buffer.length < scan.head.size ∧ handshake = false then
      let (read, hasunmaskSize) := decodeWsmaskData scan.head.mask 0 buffer
      .ok (q.saveUncomplete fd (.body scan.head.size.toNat read scan.head.mask hasunmaskSize))
    else
      match _found : malloc scan.head.size with
      | .error fault => .error fault
      | .ok packSize =>
          let q := q.pushData fd (decodeWsmaskData scan.head.mask 0 (buffer.take packSize)).1
          let rest := buffer.drop packSize
          if rest.length > 0 then pushMore handshake fd q rest else .ok q
termination_by buffer.length
decreasing_by
  obtain ⟨positive, shorter⟩ := nextHead_pos _found
  have := ‹rest.length > 0›
  simp only [rest, buffer, scan, List.length_drop] at *
  omega

/-- `pushMore` without the equation that its termination needs. -/
theorem pushMore_eq (handshake : Bool) (fd : Fd) (q : Queue) (buffer : Bytes) :
    pushMore handshake fd q buffer =
      let scan := nextHead invalidOrClose handshake buffer
      let q := q.log scan.reads
      if scan.head.size = -1 then
        match savedHeader handshake scan.buffer with
        | .error fault => .error fault
        | .ok header => .ok (q.saveUncomplete fd (.header header))
      else
        let buffer := scan.buffer.drop scan.head.packHeadLength
        if buffer.length < scan.head.size ∧ handshake = false then
          let (read, hasunmaskSize) := decodeWsmaskData scan.head.mask 0 buffer
          .ok (q.saveUncomplete fd (.body scan.head.size.toNat read scan.head.mask hasunmaskSize))
        else
          match malloc scan.head.size with
          | .error fault => .error fault
          | .ok packSize =>
              let q := q.pushData fd (decodeWsmaskData scan.head.mask 0 (buffer.take packSize)).1
              let rest := buffer.drop packSize
              if rest.length > 0 then pushMore handshake fd q rest else .ok q := by
  rw [pushMore]
  simp only
  split
  · rfl
  · split
    · rfl
    · split <;> simp_all

/-- What the loop of a pending header leaves: the places where `read_size` looked, its last result,
the header and the rest of the chunk. -/
structure Fill where
  reads : List Nat
  head : Head
  header : Bytes
  buffer : Bytes

/-- The header that is pending, after one more byte was added. In the handshake its length is
tested after the byte is written. -/
def pendingHead (handshake : Bool) (header : Bytes) : Scan :=
  if handshake ∧ header.length > headersize then
    { reads := [], head := { size := headersize }, buffer := header.take headersize }
  else nextHead invalid handshake header

/-- `filter_data_`, the loop that fills a pending header byte by byte. It stops at a packet or at
the end of the chunk; a close frame does not stop it. -/
def fillHeader (handshake : Bool) : Bytes → Bytes → Except Fault Fill
  | header, [] => .ok { reads := [], head := { size := 0 }, header, buffer := [] }
  | header, b :: buffer =>
      if headersize ≤ header.length then .error .headerOverflow
      else
        let scan := pendingHead handshake (header ++ [b])
        let reads := scan.reads.map (· + buffer.length)
        if 0 ≤ scan.head.size ∨ buffer = [] then
          .ok { reads, head := scan.head, header := scan.buffer, buffer }
        else
          (fillHeader handshake scan.buffer buffer).map fun fill =>
            { fill with reads := reads ++ fill.reads }

/-- `filter_data_`, from the bytes that a pending packet needs on. -/
def fillBody (handshake : Bool) (fd : Fd) (q : Queue) (size : Nat) (read : Bytes)
    (mask : Option Mask) (hasunmaskSize : Nat) (buffer : Bytes) : Except Fault (Queue × Reply) :=
  let need := size - read.length
  if buffer.length < need then
    let (decoded, hasunmaskSize) := decodeWsmaskData mask hasunmaskSize buffer
    .ok (q.saveUncomplete fd (.body size (read ++ decoded) mask hasunmaskSize), .queue)
  else
    let packet := read ++ (decodeWsmaskData mask hasunmaskSize (buffer.take need)).1
    let buffer := buffer.drop need
    if buffer.length = 0 then .ok (q, .data fd packet)
    else (pushMore handshake fd (q.pushData fd packet) buffer).map (·, .more)

/-- `filter_data_`, when a header is pending. -/
def filterHeader (handshake : Bool) (fd : Fd) (q : Queue) (header buffer : Bytes) :
    Except Fault (Queue × Reply) :=
  match fillHeader handshake header buffer with
  | .error fault => .error fault
  | .ok fill =>
      let q := q.log fill.reads
      if fill.head.size = -1 then .ok (q.saveUncomplete fd (.header fill.header), .queue)
      else if fill.head.size = -3 then .ok (q.closeUncomplete fd, .close fd)
      else
        match malloc fill.head.size with
        | .error fault => .error fault
        | .ok size =>
            let read := if handshake then fill.header.take size else []
            fillBody handshake fd q size read fill.head.mask 0 fill.buffer

/-- `filter_data_`, when nothing is pending. -/
def filterFresh (handshake : Bool) (fd : Fd) (q : Queue) (buffer : Bytes) :
    Except Fault (Queue × Reply) :=
  let scan := nextHead invalid handshake buffer
  let q := q.log scan.reads
  if scan.head.size = -1 then
    match savedHeader handshake scan.buffer with
    | .error fault => .error fault
    | .ok header => .ok (q.saveUncomplete fd (.header header), .queue)
  else if scan.head.size = -3 then .ok (q.closeUncomplete fd, .close fd)
  else
    let buffer := scan.buffer.drop scan.head.packHeadLength
    if buffer.length < scan.head.size ∧ handshake = false then
      let (read, hasunmaskSize) := decodeWsmaskData scan.head.mask 0 buffer
      .ok (q.saveUncomplete fd (.body scan.head.size.toNat read scan.head.mask hasunmaskSize),
        .queue)
    else
      match malloc scan.head.size with
      | .error fault => .error fault
      | .ok packSize =>
          let packet := (decodeWsmaskData scan.head.mask 0 (buffer.take packSize)).1
          if buffer.length = packSize then .ok (q, .data fd packet)
          else
            (pushMore handshake fd (q.pushData fd packet) (buffer.drop packSize)).map (·, .more)

/-- `filter_data_`. -/
def filterData (handshake : Bool) (fd : Fd) (q : Queue) (buffer : Bytes) :
    Except Fault (Queue × Reply) :=
  match q.findUncomplete fd with
  | (some (.header header), q) => filterHeader handshake fd q header buffer
  | (some (.body size read mask hasunmaskSize), q) =>
      fillBody handshake fd q size read mask hasunmaskSize buffer
  | (none, q) => filterFresh handshake fd q buffer

/-! ## Calls of the gate -/

/-- What the gate gets to see. -/
inductive Event where
  | message (fd : Fd) (buffer : Bytes)
  | closed (fd : Fd)
  deriving DecidableEq

def Reply.events : Reply → List Event
  | .queue => []
  | .data fd buffer => [.message fd buffer]
  | .more => []
  | .close fd => [.closed fd]

def Pack.event (pack : Pack) : Event := .message pack.id pack.buffer

/-- One chunk goes through `filter_data_`, and the queue is then emptied with `lpop`. -/
def filter (handshake : Bool) (fd : Fd) (q : Queue) (buffer : Bytes) :
    Except Fault (Queue × List Event) :=
  match filterData handshake fd { q with reads := [] } buffer with
  | .error fault => .error fault
  | .ok (q, reply) =>
      let (packs, ring) := q.ring.drain
      .ok ({ q with ring }, reply.events ++ packs.map Pack.event)

/-- A chunk of a socket, with the flag that the gate passes. -/
structure Call where
  fd : Fd
  handshake : Bool
  chunk : Bytes

/-- Any number of chunks, one after the other. -/
def run : Queue → List Call → Except Fault (Queue × List Event)
  | q, [] => .ok (q, [])
  | q, call :: calls =>
      match filter call.handshake call.fd q call.chunk with
      | .error fault => .error fault
      | .ok (q, events) =>
          match run q calls with
          | .error fault => .error fault
          | .ok (q, later) => .ok (q, events ++ later)

end RillServer.Netpack
