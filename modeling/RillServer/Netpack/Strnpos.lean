import RillServer.Lib.Occurrences
import RillServer.Netpack.Filter

/-!
# Looking for a terminator

`websocket_strnpos` of `lualib-src/lua-websocketnetpack.c`, and its copy in
`lualib-src/lua-clientwebsocket.c`, with the loop condition `i < (int) (haystack_length -
needle_length + 1)` in 32 bits: the difference is unsigned and wraps around, and it is compared with
an unsigned counter, so that the cast changes nothing.

The server refuses a haystack that is shorter than the needle, and always finds the first occurrence
(`server_eq`), as the packet filter is modelled (`websocketStrnpos_eq`). The client does not. Its
bound is zero where the haystack is shorter by one; from two on it is close to `2 ^ 32`, and the loop
runs over the end of the haystack (`exact_iff`).
-/

namespace RillServer.Netpack

open Occurrences

/-- A number as a `uint32_t`. -/
def uint32 (n : Int) : Nat := (n % 2 ^ 32).toNat

/-- A number as an `int`. -/
def int32 (n : Int) : Int := Int.bmod n (2 ^ 32)

/-- `memcmp(haystack, needle, needle_length) == 0` at index `i`; nothing if it reads beyond the
haystack. -/
def memcmp (haystack needle : Bytes) (i : Nat) : Option Bool :=
  if i + needle.length ≤ haystack.length then
    some (decide ((haystack.drop i).take needle.length = needle))
  else none

/-- The condition of the loop's body at index `i`. -/
def occursAt (haystack needle : Bytes) (i : Nat) : Option Bool :=
  match haystack[i]? with
  | some b => if needle.head? = some b then memcmp haystack needle i else some false
  | none => none

/-- The loop, for the rounds that are left from index `i` on. -/
def searchFrom (haystack needle : Bytes) : Nat → Nat → Option Int
  | 0, _ => some (-1)
  | rounds + 1, i =>
    match occursAt haystack needle i with
    | some true => some (int32 i)
    | some false => searchFrom haystack needle rounds (i + 1)
    | none => none

/-- `(int) (haystack_length - needle_length + 1)`, as it is compared with `i`. -/
def bound (haystackLength needleLength : Nat) : Nat :=
  uint32 (int32 (uint32 ((haystackLength : Int) - needleLength + 1)))

/-- `websocket_strnpos` of the server, behind its assertion. -/
def serverStrnpos (haystack needle : Bytes) : Option Int :=
  if haystack.length < needle.length then some (-1)
  else searchFrom haystack needle (bound haystack.length needle.length) 0

/-- `websocket_strnpos` of the client. -/
def clientStrnpos (haystack needle : Bytes) : Option Int :=
  if needle.length ≤ 0 then some (-1)
  else searchFrom haystack needle (bound haystack.length needle.length) 0

/-- The least index at which the needle occurs, or -1. -/
def position (haystack needle : Bytes) : Int :=
  match firstAt needle haystack with
  | some i => i
  | none => -1

/-- Both copies return the position, without reading beyond the haystack. -/
structure Exact (haystack needle : Bytes) : Prop where
  server : serverStrnpos haystack needle = some (position haystack needle)
  client : clientStrnpos haystack needle = some (position haystack needle)

/-! ## The bound -/

theorem bound_eq (haystackLength needleLength : Nat) :
    bound haystackLength needleLength = uint32 ((haystackLength : Int) - needleLength + 1) := by
  have fits : ∀ n : Int, (uint32 n : Int) = n % 2 ^ 32 := by
    intro n
    exact Int.toNat_of_nonneg (Int.emod_nonneg n (by decide))
  have modulus : ((2 ^ 32 : Nat) : Int) = 2 ^ 32 := rfl
  rw [bound, uint32, int32, fits, ← modulus, Int.bmod_emod, Int.emod_emod, uint32, modulus]

/-- It is the number of indices at which the needle has room. -/
theorem bound_of_le {h n : Nat} (positive : 0 < n) (room : n ≤ h + 1) (short : h < 2 ^ 31) :
    bound h n = h + 1 - n := by
  rw [bound_eq, uint32]
  omega

/-- Or it is more than the length of the haystack. -/
theorem lt_bound {h n : Nat} (long : h + 1 < n) (short : h < 2 ^ 31) (width : n < 2 ^ 32) :
    h < bound h n := by
  rw [bound_eq, uint32]
  omega

/-! ## The loop -/

section Search

variable {haystack needle : Bytes}

/-- Where the needle has room, its bytes are compared. -/
theorem occursAt_eq (nonempty : needle ≠ []) {i : Nat}
    (room : i + needle.length ≤ haystack.length) :
    occursAt haystack needle i = some (decide (needle <+: haystack.drop i)) := by
  have positive := List.length_pos_iff.mpr nonempty
  have inside : i < haystack.length := by omega
  rw [occursAt, List.getElem?_eq_getElem inside]
  by_cases head : needle.head? = some haystack[i]
  · have same : (haystack.drop i).take needle.length = needle ↔ needle <+: haystack.drop i := by
      rw [List.prefix_iff_eq_take]
      exact eq_comm
    simp only [if_pos head, memcmp, if_pos room, same]
  · have other : ¬ needle <+: haystack.drop i := by
      intro here
      apply head
      obtain ⟨b, rest, split⟩ := List.exists_cons_of_ne_nil nonempty
      rw [split, List.drop_eq_getElem_cons inside] at here
      rw [split, (List.cons_prefix_cons.mp here).1]
      rfl
    simp only [if_neg head, decide_eq_false other]

/-- The loop finds the first occurrence from an index on. -/
theorem searchFrom_eq (nonempty : needle ≠ []) (short : haystack.length < 2 ^ 31) :
    ∀ {rounds i : Nat}, rounds + i + needle.length = haystack.length + 1 →
      searchFrom haystack needle rounds i = some (match firstAt needle (haystack.drop i) with
        | some j => ((i + j : Nat) : Int)
        | none => -1) := by
  have positive := List.length_pos_iff.mpr nonempty
  intro rounds
  induction rounds with
  | zero =>
    intro i last
    have missing : firstAt needle (haystack.drop i) = none := by
      rw [firstAt_eq_none]
      intro inside
      have fits := inside.length_le
      rw [List.length_drop] at fits
      omega
    rw [searchFrom, missing]
  | succ rounds ih =>
    intro i left
    have inside : i < haystack.length := by omega
    rw [searchFrom, occursAt_eq nonempty (by omega)]
    by_cases here : needle <+: haystack.drop i
    · have low : int32 i = i := by
        rw [int32]
        apply Int.bmod_eq_of_le
        · omega
        · omega
      rw [firstAt_of_begins here, decide_eq_true here]
      exact congrArg some low
    · have later := ih (show rounds + (i + 1) + needle.length = haystack.length + 1 by omega)
      have next : firstAt needle (haystack.drop i) =
          (firstAt needle (haystack.drop (i + 1))).map (· + 1) := by
        rw [List.drop_eq_getElem_cons inside] at here ⊢
        exact firstAt_cons here
      rw [decide_eq_false here, next]
      simp only [later]
      cases firstAt needle (haystack.drop (i + 1)) with
      | none => rfl
      | some j =>
        have moved : i + 1 + j = i + (j + 1) := by omega
        simp only [Option.map_some, moved]

/-- With enough rounds, the loop runs over the end of a haystack that is shorter than the needle. -/
theorem searchFrom_beyond (long : haystack.length < needle.length) :
    ∀ {rounds i : Nat}, i ≤ haystack.length → haystack.length < rounds + i →
      searchFrom haystack needle rounds i = none := by
  intro rounds
  induction rounds with
  | zero =>
    intro i inside enough
    omega
  | succ rounds ih =>
    intro i inside enough
    rw [searchFrom, occursAt]
    rcases Nat.eq_or_lt_of_le inside with last | before
    · rw [List.getElem?_eq_none (by omega)]
    · rw [List.getElem?_eq_getElem before]
      by_cases head : needle.head? = some haystack[i]
      · have noRoom : ¬ i + needle.length ≤ haystack.length := by omega
        simp only [if_pos head, memcmp, if_neg noRoom]
      · simp only [if_neg head]
        exact ih before (by omega)

end Search

/-! ## The two copies -/

section Copies

variable {haystack needle : Bytes}

/-- Where the needle has room somewhere, or is longer by one, the loop is right. -/
theorem searchFrom_bound (nonempty : needle ≠ []) (short : haystack.length < 2 ^ 31)
    (room : needle.length ≤ haystack.length + 1) :
    searchFrom haystack needle (bound haystack.length needle.length) 0 =
      some (position haystack needle) := by
  have positive := List.length_pos_iff.mpr nonempty
  have rounds := bound_of_le positive room short
  rw [rounds, searchFrom_eq nonempty short (by omega), List.drop_zero, position]
  cases firstAt needle haystack with
  | none => rfl
  | some j => simp only [Nat.zero_add]

theorem position_of_long (long : haystack.length < needle.length) :
    position haystack needle = -1 := by
  have missing : firstAt needle haystack = none := by
    rw [firstAt_eq_none]
    intro inside
    exact absurd inside.length_le (Nat.not_le.mpr long)
  rw [position, missing]

/-- The server finds the first occurrence. -/
theorem server_eq (nonempty : needle ≠ []) (short : haystack.length < 2 ^ 31) :
    serverStrnpos haystack needle = some (position haystack needle) := by
  rw [serverStrnpos]
  split
  · rename_i long
    rw [position_of_long long]
  · rename_i room
    exact searchFrom_bound nonempty short (by omega)

/-- **The copies are exact and agree** if and only if the haystack is shorter than the needle by one
byte at the most. -/
theorem exact_iff (nonempty : needle ≠ []) (short : haystack.length < 2 ^ 31)
    (width : needle.length < 2 ^ 32) :
    serverStrnpos haystack needle = some (position haystack needle) ∧
      (Exact haystack needle ↔ needle.length ≤ haystack.length + 1) := by
  have positive : ¬ needle.length ≤ 0 := Nat.not_le.mpr (List.length_pos_iff.mpr nonempty)
  have server := server_eq nonempty short
  refine ⟨server, ?_⟩
  constructor
  · intro exact
    by_contra long
    have beyond : clientStrnpos haystack needle = none := by
      rw [clientStrnpos, if_neg positive]
      have rounds := lt_bound (show haystack.length + 1 < needle.length by omega) short width
      apply searchFrom_beyond
      · omega
      · exact Nat.zero_le _
      · rw [Nat.add_zero]
        exact rounds
    have client := exact.client
    rw [beyond] at client
    cases client
  · intro room
    refine ⟨server, ?_⟩
    rw [clientStrnpos, if_neg positive]
    exact searchFrom_bound nonempty short room

/-- A needle that is longer by one byte. -/
theorem exact_three : Exact [72, 84, 84] [13, 10, 13, 10] :=
  (exact_iff (by decide) (by decide) (by decide)).2.mpr (by decide)

/-- After the first two bytes of a response the client reads beyond them. -/
theorem partial_response_not_exact :
    ¬ ∀ haystack needle : Bytes, haystack.length < 2 ^ 31 → needle ≠ [] →
      needle.length < 2 ^ 32 → Exact haystack needle := by
  intro exact
  have client := (exact [72, 84] [13, 10, 13, 10] (by decide) (by decide) (by decide)).client
  have beyond : clientStrnpos [72, 84] [13, 10, 13, 10] = none := by
    rw [clientStrnpos, if_neg (by decide)]
    apply searchFrom_beyond
    · decide
    · exact Nat.zero_le _
    · rw [Nat.add_zero]
      exact lt_bound (by decide) (by decide) (by decide)
  rw [beyond] at client
  cases client

end Copies

/-! ## The packet filter -/

theorem strnposLoop_eq {needle : Bytes} (nonempty : needle ≠ []) :
    ∀ (haystack : Bytes) (i : Nat),
      strnposLoop needle (haystack.length + 1 - needle.length) i haystack =
        match firstAt needle haystack with
        | some j => ((i + j : Nat) : Int)
        | none => -1 := by
  have positive := List.length_pos_iff.mpr nonempty
  intro haystack
  induction haystack with
  | nil =>
    intro i
    have none' : ([] : Bytes).length + 1 - needle.length = 0 := by
      rw [List.length_nil]
      omega
    rw [none', firstAt, if_neg nonempty]
    rfl
  | cons b rest ih =>
    intro i
    by_cases here : needle <+: b :: rest
    · have fits := here.length_le
      have rounds : (b :: rest).length + 1 - needle.length =
          (b :: rest).length - needle.length + 1 := by omega
      have same : (b :: rest).take needle.length = needle :=
        (List.prefix_iff_eq_take.mp here).symm
      rw [firstAt_of_begins here, rounds, strnposLoop, if_pos same]
      rfl
    · rw [firstAt_cons here]
      by_cases room : needle.length ≤ (b :: rest).length
      · have rounds : (b :: rest).length + 1 - needle.length =
            rest.length + 1 - needle.length + 1 := by
          rw [List.length_cons] at room ⊢
          omega
        have other : (b :: rest).take needle.length ≠ needle :=
          fun same => here (List.prefix_iff_eq_take.mpr same.symm)
        rw [rounds, strnposLoop, if_neg other, List.tail_cons, ih]
        cases firstAt needle rest with
        | none => rfl
        | some j =>
          have moved : i + 1 + j = i + (j + 1) := by omega
          simp only [Option.map_some, moved]
      · have none' : (b :: rest).length + 1 - needle.length = 0 := by omega
        have missing : firstAt needle rest = none := by
          rw [firstAt_eq_none]
          intro inside
          have fits := inside.length_le
          rw [List.length_cons] at room
          omega
        rw [none', missing]
        rfl

/-- The packet filter is modelled with the position. -/
theorem websocketStrnpos_eq {needle : Bytes} (nonempty : needle ≠ []) (haystack : Bytes) :
    websocketStrnpos haystack needle = position haystack needle := by
  rw [websocketStrnpos]
  split
  · rename_i long
    rw [position_of_long long]
  · rename_i room
    have rounds : haystack.length - needle.length + 1 = haystack.length + 1 - needle.length := by
      omega
    rw [rounds, strnposLoop_eq nonempty, position]
    cases firstAt needle haystack with
    | none => rfl
    | some j => simp only [Nat.zero_add]

end RillServer.Netpack
