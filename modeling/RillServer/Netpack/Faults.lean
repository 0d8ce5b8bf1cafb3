import RillServer.Netpack.Overflow

/-!
# Where the filter fails

Beside the writes beyond a header, `filter_data_` asks `skynet_malloc` for memory of a negative size:
a length of 64 bits may be negative as an `int`, and only -1, -2 and -3 are taken for something else.
`push_more` throws such lengths away.

A chunk makes the filter fail in one of the two ways exactly when it overruns what is pending for its
socket or negates a size (`filter_error_iff`).
-/

namespace RillServer.Netpack

/-- The chunks for which memory of a negative size is asked for, with what is pending for the
socket: they end a header, or begin with one, whose length is negative as an `int` and stands for
nothing else. -/
inductive Negates : Bool → Option Uncomplete → Bytes → Prop
  | header {header chunk : Bytes} : chunk ≠ [] →
    (nextHead invalid false (header ++ chunk)).head.size < -3 →
    Negates false (some (.header header)) chunk
  | fresh {chunk : Bytes} : (nextHead invalid false chunk).head.size < -3 →
    Negates false none chunk

section Negative

variable {fd : Fd} {q : Queue} {handshake : Bool}

theorem nextHead_invalid_ne (bytes : Bytes) : (nextHead invalid false bytes).head.size ≠ -2 := by
  obtain ⟨head, kept⟩ := nextHead_kept bytes
  intro same
  rw [head] at same
  have size : (readSize (nextHead invalid false bytes).buffer).size = -2 := by
    have negative : (readSize (nextHead invalid false bytes).buffer).size < 0 := by
      by_contra nonneg
      have clamped := clamp_nonneg.mpr (Int.not_lt.mp nonneg)
      omega
    rw [clamp_of_neg negative] at same
    exact same
  rw [size] at kept
  cases kept

/-- `push_more` throws away what `malloc` would refuse. -/
theorem nextHead_invalidOrClose (bytes : Bytes) :
    -1 ≤ (nextHead invalidOrClose false bytes).head.size := by
  obtain ⟨p, head, -, -, -, read, kept, -, found⟩ :=
    nextHead_cut le_of_invalidOrClose (.start : Cut bytes 0) (Nat.zero_le _)
  rw [List.drop_zero] at found
  rw [found]
  have size : -1 ≤ head.size := by
    by_contra less
    have thrown : invalidOrClose head.size = true := by simp [invalidOrClose]; omega
    rw [thrown] at kept
    cases kept
  by_cases negative : head.size < 0
  · rw [clamp_of_neg negative]
    exact size
  · have nonneg : 0 ≤ head.clamp.size := clamp_nonneg.mpr (Int.not_lt.mp negative)
    omega

theorem pushMore_ne_negative (q : Queue) (buffer : Bytes) :
    pushMore handshake fd q buffer ≠ .error .negativeSize := by
  cases handshake with
  | true =>
    obtain ⟨q', ran⟩ := pushMore_handshake fd q buffer
    rw [ran]
    exact ok_ne_error
  | false =>
    induction length : buffer.length using Nat.strongRecOn generalizing buffer q with
    | ind whole ih =>
      have least := nextHead_invalidOrClose buffer
      rw [pushMore_eq]
      generalize next : nextHead invalidOrClose false buffer = scan at least
      simp only
      split
      · split
        · rename_i fault failed
          rw [savedHeader_error failed]
          exact fun same => by cases same
        · exact ok_ne_error
      · split
        · exact ok_ne_error
        · rename_i waits short
          cases got : malloc scan.head.size with
          | error fault =>
            have negative := malloc_neg got
            omega
          | ok packSize =>
            simp only
            split
            · rename_i more
              refine ih _ ?_ _ _ rfl
              rw [← next] at got more ⊢
              obtain ⟨positive, le⟩ := nextHead_pos got
              simp only [List.length_drop] at more ⊢
              omega
            · exact ok_ne_error

theorem fillBody_ne_negative {size : Nat} {read chunk : Bytes} {mask : Option Mask}
    {hasunmaskSize : Nat} :
    fillBody handshake fd q size read mask hasunmaskSize chunk ≠ .error .negativeSize := by
  simp only [fillBody]
  split
  · exact ok_ne_error
  · split
    · exact ok_ne_error
    · cases ran : pushMore handshake fd (q.pushData fd
          (read ++ (decodeWsmaskData mask hasunmaskSize (chunk.take (size - read.length))).1))
          (chunk.drop (size - read.length)) with
      | error fault =>
        rintro same
        cases same
        exact pushMore_ne_negative _ _ ran
      | ok q' => exact ok_ne_error

/-- The loop over a pending header ends with a size of a header. -/
theorem fillHeader_size {header chunk : Bytes} {fill : Fill} (some : chunk ≠ [])
    (ran : fillHeader true header chunk = .ok fill) : -1 ≤ fill.head.size := by
  induction chunk generalizing header fill with
  | nil => exact absurd rfl some
  | cons b chunk ih =>
    have found : -1 ≤ (pendingHead true (header ++ [b])).head.size := by
      unfold pendingHead
      split
      · exact Int.le_trans (by decide) (Int.natCast_nonneg headersize)
      · rw [nextHead_handshake]
        rcases getHttpHeader_bounds (header ++ [b]) with missing | ⟨least, -⟩
        · exact Int.le_of_eq missing.symm
        · show -1 ≤ getHttpHeader (header ++ [b])
          omega
    rcases fillHeader_cases rfl ran with ⟨-, head, -⟩ | ⟨-, more, fill', later, head, -⟩
    · rw [head]
      exact found
    · rw [head]
      exact ih more later

theorem filterHeader_negative {header chunk : Bytes}
    (failed : filterHeader handshake fd q header chunk = .error .negativeSize) :
    Negates handshake (some (.header header)) chunk := by
  cases ran : fillHeader handshake header chunk with
  | error fault =>
    simp only [filterHeader, ran] at failed
    rw [fillHeader_fault ran] at failed
    cases failed
  | ok fill =>
    simp only [filterHeader, ran] at failed
    split at failed
    · cases failed
    · split at failed
      · cases failed
      · rename_i waits close
        cases got : malloc fill.head.size with
        | ok size =>
          rw [got] at failed
          exact (fillBody_ne_negative failed).elim
        | error fault =>
          have negative := malloc_neg got
          have some : chunk ≠ [] := by
            rintro rfl
            cases ran
            exact absurd negative (Int.lt_irrefl 0)
          cases handshake with
          | true =>
            have least := fillHeader_size some ran
            omega
          | false =>
            obtain ⟨taken, split, -, head, -, ends⟩ := fillHeader_ends some ran
            have last : fill.buffer = [] := ends.resolve_left (by omega)
            rw [last, List.append_nil] at split
            have other := nextHead_invalid_ne (header ++ chunk)
            rw [head, ← split] at negative waits close
            exact .header some (by omega)

theorem filterFresh_negative {chunk : Bytes}
    (failed : filterFresh handshake fd q chunk = .error .negativeSize) :
    Negates handshake none chunk := by
  unfold filterFresh at failed
  generalize next : nextHead invalid handshake chunk = scan at failed
  simp only at failed
  split at failed
  · split at failed
    · rename_i fault saved
      rw [savedHeader_error saved] at failed
      cases failed
    · cases failed
  · split at failed
    · cases failed
    · split at failed
      · cases failed
      · rename_i waits close short
        cases got : malloc scan.head.size with
        | ok size =>
          simp only [got] at failed
          split at failed
          · cases failed
          · cases more : pushMore handshake fd _ _ with
            | error fault =>
              rw [more] at failed
              cases failed
              exact (pushMore_ne_negative _ _ more).elim
            | ok q' =>
              rw [more] at failed
              cases failed
        | error fault =>
          have negative := malloc_neg got
          cases handshake with
          | true =>
            rw [nextHead_handshake] at next
            rw [← next] at waits negative
            rcases getHttpHeader_bounds chunk with missing | ⟨least, -⟩
            · exact (waits missing).elim
            · have size : getHttpHeader chunk < 0 := negative
              omega
          | false =>
            have other := nextHead_invalid_ne chunk
            rw [← next] at waits negative close
            exact .fresh (by omega)

theorem filterData_negative {chunk : Bytes}
    (failed : filterData handshake fd q chunk = .error .negativeSize) :
    Negates handshake (q.pending fd).head? chunk := by
  cases records : q.pending fd with
  | nil =>
    rw [filterData_fresh records] at failed
    exact filterFresh_negative failed
  | cons uc ucs =>
    cases uc with
    | header header =>
      rw [filterData_header records] at failed
      exact filterHeader_negative failed
    | body size read mask hasunmaskSize =>
      rw [filterData_body records] at failed
      exact (fillBody_ne_negative failed).elim

/-- Such a chunk fails, by the one write or by the other. -/
theorem Negates.fails {chunk : Bytes} (negates : Negates handshake (q.pending fd).head? chunk) :
    ∃ fault, filterData handshake fd q chunk = .error fault := by
  cases records : q.pending fd with
  | nil =>
    rw [records] at negates
    cases negates with
    | fresh negative =>
      have size : (nextHead invalid false chunk).head.size < -3 := negative
      refine ⟨.negativeSize, ?_⟩
      rw [filterData_fresh records]
      unfold filterFresh
      simp only [malloc]
      rw [if_neg (by omega), if_neg (by omega), if_neg (by omega), if_pos (by omega)]
  | cons uc ucs =>
    rw [records] at negates
    cases uc with
    | body size read mask hasunmaskSize => cases negates
    | header header =>
      cases negates with
      | header some negative =>
        rw [filterData_header records]
        cases ran : fillHeader false header chunk with
        | error fault => exact ⟨fault, by simp only [filterHeader, ran]⟩
        | ok fill =>
          obtain ⟨taken, split, -, head, -, ends⟩ := fillHeader_ends some ran
          have size : fill.head.size < -3 := by
            rcases ends with found | last
            · rw [head] at found
              rw [split, ← List.append_assoc, nextHead_append_of_nonneg found] at negative
              omega
            · rw [last, List.append_nil] at split
              rw [head, ← split]
              exact negative
          refine ⟨.negativeSize, ?_⟩
          simp only [filterHeader, ran, malloc]
          rw [if_neg (by omega), if_neg (by omega), if_pos (by omega)]

end Negative

/-- The filter fails at a chunk exactly when it overruns a header or negates a size. -/
theorem filter_error_iff {handshake : Bool} {fd : Fd} {q : Queue} {chunk : Bytes} :
    (∃ fault, filter handshake fd q chunk = .error fault) ↔
      Overruns handshake (q.pending fd).head? chunk ∨
        Negates handshake (q.pending fd).head? chunk := by
  have data : ∀ fault, filter handshake fd q chunk = .error fault ↔
      filterData handshake fd { q with reads := [] } chunk = .error fault := by
    intro fault
    unfold filter
    cases filterData handshake fd { q with reads := [] } chunk with
    | error fault' => exact ⟨fun same => by cases same; rfl, fun same => by cases same; rfl⟩
    | ok result => exact iff_of_false ok_ne_error ok_ne_error
  constructor
  · intro failed
    obtain ⟨fault, failed⟩ := failed
    cases fault with
    | headerOverflow => exact .inl (filter_overflow_iff.mp failed)
    | negativeSize => exact .inr (filterData_negative (q := { q with reads := [] }) ((data _).mp failed))
  · intro faulty
    rcases faulty with overruns | negates
    · exact ⟨_, filter_overflow_iff.mpr overruns⟩
    · obtain ⟨fault, failed⟩ := Negates.fails (q := { q with reads := [] }) negates
      exact ⟨fault, (data fault).mpr failed⟩

end RillServer.Netpack
