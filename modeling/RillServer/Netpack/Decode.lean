import RillServer.Netpack.FramePaths

/-!
# Frames are decoded wherever the stream is cut

Any number of sockets send frames, each its own; the chunks of all of them reach one queue in any
order. The messages of a socket are the payloads of its frames, in order
(`decode_any_segmentation`).

`Awaits` relates the records of a socket, the frames that are not delivered yet and the bytes that
are still to come. One chunk keeps it (`filter_frames`), and a chunk of one socket does not touch
the records of another.
-/

namespace RillServer.Netpack

/-- The bytes of a sequence of frames. -/
def encodeAll (fs : List DataFrame) : Bytes := fs.flatMap fun f => f.encode

@[simp]
theorem encodeAll_nil : encodeAll [] = [] := rfl

@[simp]
theorem encodeAll_cons (f : DataFrame) (fs : List DataFrame) :
    encodeAll (f :: fs) = f.encode ++ encodeAll fs := rfl

/-- A socket has these records, frames not delivered and bytes still to come. -/
inductive Awaits : List Uncomplete → List DataFrame → Bytes → Prop
  | done : Awaits [] [] []
  | frame (f : DataFrame) (fs : List DataFrame) {n : Nat} (inside : n < f.encode.length) :
      Awaits (heldAfter f.toFrame n) (f :: fs) (f.encode.drop n ++ encodeAll fs)

theorem length_encode_pos (f : Frame) : 0 < f.encode.length := by
  have := f.two_le_length_header
  rw [Frame.length_encode]
  omega

theorem Awaits.start (fs : List DataFrame) : Awaits [] fs (encodeAll fs) := by
  cases fs with
  | nil => exact .done
  | cons f fs => exact .frame f fs (length_encode_pos f.toFrame)

theorem Awaits.eq_nil {ucs : List Uncomplete} {fs : List DataFrame} (awaits : Awaits ucs fs []) :
    ucs = [] ∧ fs = [] := by
  generalize nothing : [] = bytes at awaits
  cases awaits with
  | done => exact ⟨rfl, rfl⟩
  | frame f fs inside =>
      have missing := congrArg List.length nothing
      simp only [List.length_nil, List.length_append, List.length_drop] at missing
      omega

theorem tail_heldAfter (f : Frame) (n : Nat) : (heldAfter f n).tail = [] := by
  unfold heldAfter
  split <;> rfl

theorem heldAfter_of_pos (f : Frame) {n : Nat} (some : 0 < n) : heldAfter f n = [held f n] :=
  if_neg (by omega)

/-- A chunk ends before a piece of the stream does, or holds it whole. -/
theorem cut_cases {chunk rest piece stream : Bytes} (same : chunk ++ rest = piece ++ stream) :
    (∃ missing, missing ≠ [] ∧ piece = chunk ++ missing ∧ rest = missing ++ stream) ∨
      ∃ more, chunk = piece ++ more ∧ stream = more ++ rest := by
  rcases List.append_eq_append_iff.mp same with ⟨missing, split, later⟩ | ⟨more, split, later⟩
  · by_cases whole : missing = []
    · subst whole
      exact .inr ⟨[], by simpa using split.symm, by simpa using later.symm⟩
    · exact .inl ⟨missing, whole, split, later⟩
  · exact .inr ⟨more, split, later⟩

/-- The packets of delivered frames. -/
def packsOf (fd : Fd) (fs : List DataFrame) : List Pack := fs.map fun f => ⟨fd, f.payload⟩

/-- A frame that is cut at the end of a chunk awaits its rest. -/
theorem Awaits.cut (f : DataFrame) (fs : List DataFrame) {n : Nat} {chunk missing : Bytes}
    (some : chunk ≠ []) (more : missing ≠ []) (split : f.encode.drop n = chunk ++ missing) :
    n + chunk.length < f.encode.length ∧ chunk = (f.encode.drop n).take chunk.length ∧
      Awaits [held f.toFrame (n + chunk.length)] (f :: fs) (missing ++ encodeAll fs) := by
  have chunkPos : 0 < chunk.length := List.length_pos_iff.mpr some
  have missingPos : 0 < missing.length := List.length_pos_iff.mpr more
  have lengths := congrArg List.length split
  rw [List.length_drop, List.length_append] at lengths
  have inside : n + chunk.length < f.encode.length := by omega
  have rest : f.encode.drop (n + chunk.length) = missing := by
    rw [← List.drop_drop, split, List.drop_left]
  refine ⟨inside, by rw [split, List.take_left], ?_⟩
  rw [← heldAfter_of_pos _ (by omega), ← rest]
  exact .frame f fs inside

/-- `push_more` cuts a chunk into frames. -/
theorem pushMore_frames (fd : Fd) {fs : List DataFrame} {q : Queue} {buffer rest : Bytes}
    (stream : buffer ++ rest = encodeAll fs) (some : buffer ≠ []) (idle : q.pending fd = []) :
    ∃ q' done left, pushMore false fd q buffer = .ok q' ∧ fs = done ++ left ∧
      q'.packs = q.packs ++ packsOf fd done ∧ Awaits (q'.pending fd) left rest ∧
      ∀ fd' ≠ fd, q'.pending fd' = q.pending fd' := by
  induction fs generalizing q buffer with
  | nil =>
      rw [encodeAll_nil, List.append_eq_nil_iff] at stream
      exact absurd stream.1 some
  | cons f fs ih =>
      rw [encodeAll_cons] at stream
      rcases cut_cases stream with ⟨missing, nonempty, split, rfl⟩ | ⟨more, rfl, later⟩
      · obtain ⟨inside, chunk, awaits⟩ := Awaits.cut f fs (n := 0) some nonempty split
        rw [Nat.zero_add] at inside awaits
        rw [List.drop_zero] at chunk
        have ran := pushMore_part fd q f inside
        rw [← chunk] at ran
        refine ⟨_, [], f :: fs, ran, rfl, ?_, ?_, ?_⟩
        · simp [packsOf]
        · rw [Queue.pending_saveUncomplete, Queue.pending_log, idle]
          exact awaits
        · intro fd' other
          rw [Queue.pending_saveUncomplete_of_ne _ _ other, Queue.pending_log]
      · rw [pushMore_frame]
        by_cases last : more = []
        · subst last
          refine ⟨_, [f], fs, if_neg (by simp), rfl, by simp [packsOf], ?_, by simp⟩
          rw [List.nil_append] at later
          simpa [idle, later] using Awaits.start fs
        · obtain ⟨q', done, left, ran, split, packs, awaits, others⟩ :=
            ih (q := (q.log [(f.encode ++ more).length]).pushData fd f.payload) later.symm last
              (by simpa using idle)
          refine ⟨q', f :: done, left, ?_, by rw [split]; rfl, ?_, awaits, ?_⟩
          · rw [if_pos (List.length_pos_iff.mpr last)]
            exact ran
          · rw [packs]
            simp [packsOf]
          · simpa using others

/-- A packet and the bytes behind it: the packet is returned, or queued before what follows. -/
theorem deliver_frames (fd : Fd) {fs : List DataFrame} {q : Queue} (f : DataFrame)
    {more rest : Bytes} (stream : more ++ rest = encodeAll fs) (idle : q.pending fd = [])
    (drained : q.packs = []) :
    ∃ q' reply done left, deliver fd q f.payload more = .ok (q', reply) ∧ fs = done ++ left ∧
      reply.events ++ q'.packs.map Pack.event =
        (packsOf fd (f :: done)).map Pack.event ∧
      Awaits (q'.pending fd) left rest ∧ ∀ fd' ≠ fd, q'.pending fd' = q.pending fd' := by
  unfold deliver
  by_cases last : more = []
  · subst last
    rw [List.nil_append] at stream
    refine ⟨q, .data fd f.payload, [], fs, by simp, rfl, ?_, ?_, fun _ _ => rfl⟩
    · simp [Reply.events, packsOf, Pack.event, drained]
    · rw [idle, stream]
      exact .start fs
  · obtain ⟨q', done, left, ran, split, packs, awaits, others⟩ :=
      pushMore_frames fd (q := q.pushData fd f.payload) stream last (by simpa using idle)
    refine ⟨q', .more, done, left, ?_, split, ?_, awaits, by simpa using others⟩
    · rw [if_neg (by simpa using last), ran]
      rfl
    · simp [Reply.events, packs, packsOf, drained]

/-- One call of `filter_data_` on a stream of frames. -/
theorem filterData_frames {fd : Fd} {fs : List DataFrame} {q : Queue} {chunk rest : Bytes}
    (awaits : Awaits (q.pending fd) fs (chunk ++ rest)) (some : chunk ≠ [])
    (drained : q.packs = []) :
    ∃ q' reply done left, filterData false fd q chunk = .ok (q', reply) ∧ fs = done ++ left ∧
      reply.events ++ q'.packs.map Pack.event = (packsOf fd done).map Pack.event ∧
      Awaits (q'.pending fd) left rest ∧ ∀ fd' ≠ fd, q'.pending fd' = q.pending fd' := by
  generalize records : q.pending fd = ucs at awaits
  generalize stream : chunk ++ rest = bytes at awaits
  cases awaits with
  | done => exact absurd (List.append_eq_nil_iff.mp stream).1 some
  | @frame f fs n inside =>
      have none : (q.findUncomplete fd).2.pending fd = [] := by
        rw [Queue.pending_findUncomplete, records, tail_heldAfter]
      rcases cut_cases stream with ⟨missing, nonempty, split, rfl⟩ | ⟨more, rfl, later⟩
      · obtain ⟨short, piece, awaits⟩ := Awaits.cut f fs some nonempty split
        obtain ⟨reads, -, ran⟩ :=
          filterData_part records (List.length_pos_iff.mpr some) short
        rw [← piece] at ran
        refine ⟨_, .queue, [], f :: fs, ran, rfl, ?_, ?_, ?_⟩
        · simp [Reply.events, packsOf, drained]
        · rw [Queue.pending_saveUncomplete, Queue.pending_log, none]
          exact awaits
        · intro fd' other
          rw [Queue.pending_saveUncomplete_of_ne _ _ other, Queue.pending_log,
            Queue.pending_findUncomplete_of_ne _ other]
      · obtain ⟨reads, -, ran⟩ := filterData_frame records inside more
        obtain ⟨q', reply, done, left, delivered, split, events, awaits, others⟩ :=
          deliver_frames fd (q := (q.findUncomplete fd).2.log reads) f later.symm
            (by simpa using none) (by simpa using drained)
        refine ⟨q', reply, f :: done, left, ran.trans delivered, by rw [split]; rfl, events,
          awaits, ?_⟩
        intro fd' other
        rw [others fd' other, Queue.pending_log, Queue.pending_findUncomplete_of_ne _ other]

/-- What is left of a call once `filter_data_` is done: the gate empties the ring. -/
theorem filter_of_filterData {handshake : Bool} {fd : Fd} {q q' : Queue} {reply : Reply}
    {chunk : Bytes} (ran : filterData handshake fd { q with reads := [] } chunk = .ok (q', reply)) :
    ∃ q'', filter handshake fd q chunk = .ok (q'', reply.events ++ q'.packs.map Pack.event) ∧
      q''.packs = [] ∧ (∀ fd', q''.pending fd' = q'.pending fd') ∧ q''.reads = q'.reads := by
  obtain ⟨all, nothing⟩ := q'.ring.drain_spec
  refine ⟨{ q' with ring := q'.ring.drain.2 }, ?_, nothing, fun _ => rfl, rfl⟩
  simp only [filter, ran, all]
  rfl

/-- One chunk delivers frames of its socket and leaves the others as they are. -/
theorem filter_frames {fd : Fd} {fs : List DataFrame} {q : Queue} {chunk rest : Bytes}
    (awaits : Awaits (q.pending fd) fs (chunk ++ rest)) (some : chunk ≠ [])
    (drained : q.packs = []) :
    ∃ q' done left, filter false fd q chunk = .ok (q', (packsOf fd done).map Pack.event) ∧
      fs = done ++ left ∧ Awaits (q'.pending fd) left rest ∧ q'.packs = [] ∧
      ∀ fd' ≠ fd, q'.pending fd' = q.pending fd' := by
  obtain ⟨q', reply, done, left, ran, split, events, later, others⟩ :=
    filterData_frames (q := { q with reads := [] }) awaits some drained
  obtain ⟨q'', filtered, empty, pending, -⟩ := filter_of_filterData ran
  refine ⟨q'', done, left, ?_, split, ?_, empty, ?_⟩
  · rw [filtered, events]
  · rw [pending]
    exact later
  · intro fd' other
    rw [pending, others fd' other]
    rfl

/-! ## Any interleaving -/

def Event.fd : Event → Fd
  | .message fd _ => fd
  | .closed fd => fd

/-- What the gate gets to see of one socket. -/
def eventsOf (fd : Fd) (events : List Event) : List Event := events.filter fun e => e.fd = fd

/-- The bytes that one socket sends. -/
def received (fd : Fd) (calls : List Call) : Bytes :=
  (calls.filter fun call => call.fd = fd).flatMap Call.chunk

theorem eventsOf_append (fd : Fd) (events later : List Event) :
    eventsOf fd (events ++ later) = eventsOf fd events ++ eventsOf fd later :=
  List.filter_append _ _

theorem eventsOf_packsOf (fd : Fd) (fs : List DataFrame) :
    eventsOf fd ((packsOf fd fs).map Pack.event) = (packsOf fd fs).map Pack.event := by
  rw [eventsOf, List.filter_eq_self]
  simp [packsOf, Pack.event, Event.fd]

theorem eventsOf_packsOf_of_ne {fd fd' : Fd} (other : fd' ≠ fd) (fs : List DataFrame) :
    eventsOf fd' ((packsOf fd fs).map Pack.event) = [] := by
  rw [eventsOf, List.filter_eq_nil_iff]
  simp [packsOf, Pack.event, Event.fd, Ne.symm other]

/-- Whatever a socket has sent, the rest of its frames is delivered once the rest of its bytes has
arrived. A socket that sends nothing more may have anything pending. -/
theorem run_frames {calls : List Call} {q : Queue} {streams : Fd → List DataFrame}
    (framed : ∀ call ∈ calls, call.handshake = false ∧ call.chunk ≠ [])
    (awaits : ∀ fd, Awaits (q.pending fd) (streams fd) (received fd calls) ∨
      streams fd = [] ∧ received fd calls = [])
    (drained : q.packs = []) :
    ∃ q' events, run q calls = .ok (q', events) ∧
      ∀ fd, eventsOf fd events = (packsOf fd (streams fd)).map Pack.event := by
  induction calls generalizing q streams with
  | nil =>
      refine ⟨q, [], rfl, fun fd => ?_⟩
      have nothing : streams fd = [] := by
        rcases awaits fd with pending | ⟨none, -⟩
        · exact pending.eq_nil.2
        · exact none
      rw [nothing]
      rfl
  | cons call calls ih =>
      obtain ⟨⟨flag, some⟩, framed⟩ := List.forall_mem_cons.mp framed
      have own : received call.fd (call :: calls) = call.chunk ++ received call.fd calls := by
        simp [received]
      have foreign : ∀ fd ≠ call.fd, received fd (call :: calls) = received fd calls := by
        intro fd other
        simp [received, Ne.symm other]
      have mine : Awaits (q.pending call.fd) (streams call.fd)
          (call.chunk ++ received call.fd calls) := by
        rcases awaits call.fd with pending | ⟨-, none⟩
        · rw [← own]
          exact pending
        · rw [own, List.append_eq_nil_iff] at none
          exact absurd none.1 some
      obtain ⟨q₁, done, left, filtered, split, pending, empty, others⟩ :=
        filter_frames mine some drained
      -- what this socket still awaits has changed, and nothing else
      have later : ∀ fd, Awaits (q₁.pending fd) (Function.update streams call.fd left fd)
          (received fd calls) ∨
          Function.update streams call.fd left fd = [] ∧ received fd calls = [] := by
        intro fd
        by_cases here : fd = call.fd
        · subst here
          exact .inl (by simpa using pending)
        · simpa [here, others fd here, foreign fd here] using awaits fd
      obtain ⟨q₂, rest, ran, events⟩ := ih framed later empty
      refine ⟨q₂, (packsOf call.fd done).map Pack.event ++ rest, ?_, ?_⟩
      · simp only [run, flag, filtered, ran]
      · intro fd
        rw [eventsOf_append, events fd]
        by_cases here : fd = call.fd
        · subst here
          rw [eventsOf_packsOf, split]
          simp [packsOf]
        · rw [eventsOf_packsOf_of_ne here]
          simp [here]

/-- The frames of every socket are decoded to their payloads, in order and once each, however each
stream is cut into chunks and however the chunks are interleaved. The queue may hold records of
sockets that are silent. -/
theorem decode_any_segmentation (q : Queue) (streams : Fd → List DataFrame) (calls : List Call)
    (drained : q.packs = []) (fresh : ∀ fd, streams fd ≠ [] → q.pending fd = [])
    (framed : ∀ call ∈ calls, call.handshake = false ∧ call.chunk ≠ [])
    (cut : ∀ fd, received fd calls = encodeAll (streams fd)) :
    ∃ q' events, run q calls = .ok (q', events) ∧
      ∀ fd, eventsOf fd events = (streams fd).map fun f => .message fd f.payload := by
  have awaits : ∀ fd, Awaits (q.pending fd) (streams fd) (received fd calls) ∨
      streams fd = [] ∧ received fd calls = [] := by
    intro fd
    rw [cut fd]
    by_cases silent : streams fd = []
    · exact .inr ⟨silent, by rw [silent]; rfl⟩
    · rw [fresh fd silent]
      exact .inl (.start _)
  obtain ⟨q', events, ran, delivered⟩ := run_frames framed awaits drained
  refine ⟨q', events, ran, fun fd => ?_⟩
  rw [delivered fd, packsOf, List.map_map]
  rfl

/-- A masked text frame and an empty frame of socket 1, cut inside header, mask and payload, between
the two halves of a frame of socket 4096, which shares a chain with it. -/
theorem decode_two_sockets :
    let text : DataFrame :=
      { opcode := 1, lengthField := .seven, mask := some ![1, 2, 3, 4], payload := [104, 105]
        fits := by decide, notContinuation := by decide, notClose := by decide
        short := by decide }
    let ping : DataFrame :=
      { opcode := 2, lengthField := .seven, mask := none, payload := []
        fits := by decide, notContinuation := by decide, notClose := by decide
        short := by decide }
    let binary : DataFrame :=
      { opcode := 2, lengthField := .sixteen, mask := none, payload := [7]
        fits := by decide, notContinuation := by decide, notClose := by decide
        short := by decide }
    ∃ q events,
      run .empty [⟨1, false, [0x81, 0x82, 1]⟩, ⟨4096, false, [0x82, 126, 0]⟩,
          ⟨1, false, [2, 3, 4, 105]⟩, ⟨4096, false, [1, 7]⟩, ⟨1, false, [107, 0x82, 0]⟩] =
        .ok (q, events) ∧
      ∀ fd, eventsOf fd events =
        (if fd = 1 then [text, ping] else if fd = 4096 then [binary] else []).map fun f =>
          .message fd f.payload := by
  intro text ping binary
  apply decode_any_segmentation .empty
    (fun fd => if fd = 1 then [text, ping] else if fd = 4096 then [binary] else [])
  · rfl
  · exact fun _ _ => rfl
  · decide
  · intro fd
    by_cases first : fd = 1#32
    · subst first
      decide
    · by_cases second : fd = 4096#32
      · subst second
        decide
      · simp [received, Ne.symm first, Ne.symm second, first, second]

end RillServer.Netpack
