import RillServer.Lib.Integers
import RillServer.Rooms.Pool
import Mathlib.Data.Int.Interval
import Mathlib.Data.Int.LeastGreatest

/-!
# Numbers for rooms

`selectRoomIdx` of `service/roompool.lua` again, now with the integers of Lua and with an order of
its own for each pass over `roomlist`. The room pool is modelled with natural numbers and with one
order; the number it selects is the least free one as well (`selectRoomIdx_least`).

The function only reads the ids of the entries. `roomIdx` moves on when it meets an id, so that it
never passes a number that is free, and a pass that moves it nowhere has compared it with each id
(`selectPass_spec`). So the loop ends at the least free number, whatever the orders are
(`selectPasses_least`), provided that there is one: behind `math.maxinteger` the numbers begin again
at the other end (`wrapped_not_least`).
-/

namespace RillServer.RoomPool

open LuaInteger

/-- A pass of `selectRoomIdx` over the ids, with `has`. -/
def selectPass (order : List Int) (roomIdx : Int) (has : Bool) : Int × Bool :=
  order.foldl (fun (roomIdx, has) id =>
    if roomIdx = id then (wrap (roomIdx + 1), true) else (roomIdx, has)) (roomIdx, has)

/-- `selectRoomIdx`, whose passes go over the ids in these orders; nothing if it takes more passes
than that. -/
def selectPasses (orders : Nat → List Int) : Nat → Nat → Int → Option Int
  | 0, _, _ => none
  | passes + 1, pass, roomIdx =>
    match selectPass (orders pass) roomIdx false with
    | (roomIdx, true) => selectPasses orders passes (pass + 1) roomIdx
    | (roomIdx, false) => some roomIdx

/-- The least integer from `start` on that is no id. -/
structure Least (ids : List Int) (start idx : Int) : Prop where
  le : start ≤ idx
  free : idx ∉ ids
  least : ∀ n, start ≤ n → n ∉ ids → idx ≤ n

/-! ## A pass -/

theorem selectPass_cons_same (roomIdx : Int) (rest : List Int) (has : Bool) :
    selectPass (roomIdx :: rest) roomIdx has = selectPass rest (wrap (roomIdx + 1)) true := by
  simp [selectPass]

theorem selectPass_cons_other {roomIdx id : Int} (other : roomIdx ≠ id) (rest : List Int)
    (has : Bool) : selectPass (id :: rest) roomIdx has = selectPass rest roomIdx has := by
  simp [selectPass, other]

/-- A pass does not go beyond a free number. Either it moves on, or `roomIdx` is no id. -/
theorem selectPass_spec {order : List Int} {idx : Int} (free : idx ∉ order)
    (fits : idx ≤ maxinteger) : ∀ {roomIdx : Int} (has : Bool), mininteger ≤ roomIdx →
      roomIdx ≤ idx → ∃ roomIdx' has', selectPass order roomIdx has = (roomIdx', has') ∧
        roomIdx ≤ roomIdx' ∧ roomIdx' ≤ idx ∧
          ((has' = true ∧ roomIdx < roomIdx') ∨
            (has' = has ∧ roomIdx' = roomIdx ∧ roomIdx ∉ order)) := by
  induction order with
  | nil =>
    intro roomIdx has _ before
    exact ⟨roomIdx, has, rfl, le_rfl, before, .inr ⟨rfl, rfl, List.not_mem_nil⟩⟩
  | cons id rest ih =>
    intro roomIdx has low before
    obtain ⟨other, free'⟩ := not_or.mp (mt List.mem_cons.mpr free)
    by_cases same : roomIdx = id
    · subst same
      have next : wrap (roomIdx + 1) = roomIdx + 1 := by
        apply wrap_of_le
        · omega
        · omega
      rw [selectPass_cons_same, next]
      obtain ⟨roomIdx', has', pass, after, inside, ends⟩ :=
        ih free' true (by omega) (show roomIdx + 1 ≤ idx by omega)
      refine ⟨roomIdx', has', pass, by omega, inside, .inl ⟨?_, by omega⟩⟩
      rcases ends with ⟨moved, -⟩ | ⟨kept, -, -⟩
      · exact moved
      · exact kept
    · rw [selectPass_cons_other same]
      obtain ⟨roomIdx', has', pass, after, inside, ends⟩ := ih free' has low before
      refine ⟨roomIdx', has', pass, after, inside, ?_⟩
      rcases ends with moved | ⟨kept, stays, missing⟩
      · exact .inl moved
      · refine .inr ⟨kept, stays, ?_⟩
        rw [List.mem_cons, not_or]
        exact ⟨same, missing⟩

/-! ## The loop -/

section Loop

variable {ids : List Int} {orders : Nat → List Int} {start idx : Int}

/-- The loop ends at the least free number, after at most as many passes as it is away. -/
theorem selectPasses_of_least (perm : ∀ pass, (orders pass).Perm ids) (least : Least ids start idx)
    (fits : idx ≤ maxinteger) : ∀ {passes pass : Nat} {roomIdx : Int}, mininteger ≤ roomIdx →
      start ≤ roomIdx → roomIdx ≤ idx → (idx - roomIdx).toNat < passes →
        selectPasses orders passes pass roomIdx = some idx := by
  intro passes
  induction passes with
  | zero =>
    intro pass roomIdx _ _ _ enough
    exact (Nat.not_lt_zero _ enough).elim
  | succ passes ih =>
    intro pass roomIdx low after before enough
    have free : idx ∉ orders pass := by
      rw [(perm pass).mem_iff]
      exact least.free
    obtain ⟨roomIdx', has', moves, later, inside, ends⟩ :=
      selectPass_spec free fits false low before
    rw [selectPasses, moves]
    rcases ends with ⟨rfl, farther⟩ | ⟨rfl, rfl, missing⟩
    · apply ih
      · omega
      · omega
      · exact inside
      · omega
    · rw [(perm pass).mem_iff] at missing
      have reached := least.least roomIdx' after missing
      exact congrArg some (Int.le_antisymm before reached)

/-- All numbers before the least free one are ids. -/
theorem Least.distance_le (least : Least ids start idx) : (idx - start).toNat ≤ ids.length := by
  have covered : Finset.Ico start idx ⊆ ids.toFinset := by
    intro n inside
    obtain ⟨after, before⟩ := Finset.mem_Ico.mp inside
    rw [List.mem_toFinset]
    by_contra missing
    exact absurd (least.least n after missing) (Int.not_le.mpr before)
  calc (idx - start).toNat = (Finset.Ico start idx).card := (Int.card_Ico start idx).symm
    _ ≤ ids.toFinset.card := Finset.card_le_card covered
    _ ≤ ids.length := List.toFinset_card_le ids

/-- If there is a free number, there is a least one. -/
theorem exists_least {n : Int} (after : start ≤ n) (free : n ∉ ids) :
    ∃ idx, Least ids start idx ∧ idx ≤ n := by
  obtain ⟨idx, found, first⟩ := Int.exists_least_of_bdd
    (P := fun n => start ≤ n ∧ n ∉ ids) ⟨start, fun _ found => found.1⟩ ⟨n, after, free⟩
  exact ⟨idx, ⟨found.1, found.2, fun n after free => first n ⟨after, free⟩⟩, first n ⟨after, free⟩⟩

/-- **`selectRoomIdx` finds the least free number**: whatever the order of the ids in each pass, it
ends, after one pass more than there are ids at the most. -/
theorem selectPasses_least (perm : ∀ pass, (orders pass).Perm ids) (low : mininteger ≤ start)
    (exists_free : ∃ n, start ≤ n ∧ n ≤ maxinteger ∧ n ∉ ids) :
    ∃ idx, selectPasses orders (ids.length + 1) 0 start = some idx ∧ Least ids start idx := by
  obtain ⟨n, after, fits, free⟩ := exists_free
  obtain ⟨idx, least, before⟩ := exists_least after free
  refine ⟨idx, ?_, least⟩
  exact selectPasses_of_least perm least (before.trans fits) low le_rfl least.le
    (Nat.lt_succ_of_le least.distance_le)

/-- A gap, in two orders. -/
theorem selectPasses_least_gap :
    ∃ idx, selectPasses (fun pass => if pass = 0 then [2, 1, 4] else [4, 1, 2]) 4 0 1 = some idx ∧
      Least [1, 2, 4] 1 idx := by
  refine @selectPasses_least [1, 2, 4] _ 1 ?_ ?_ ?_
  · intro pass
    split
    · decide
    · decide
  · decide
  · exact ⟨3, by decide, by decide, by decide⟩

/-- If the last integer is taken, the number after it is the first one. -/
theorem wrapped_not_least :
    ¬ ∀ (ids : List Int) (orders : Nat → List Int) (start : Int),
      (∀ pass, (orders pass).Perm ids) → mininteger ≤ start → start ≤ maxinteger →
        ∃ passes idx, selectPasses orders passes 0 start = some idx ∧ Least ids start idx := by
  intro finds
  obtain ⟨passes, idx, found, least⟩ := finds [maxinteger] (fun _ => [maxinteger]) maxinteger
    (fun _ => List.Perm.refl _) (by decide) le_rfl
  have wraps : selectPass [maxinteger] maxinteger false = (mininteger, true) := by decide
  have stays : selectPass [maxinteger] mininteger false = (mininteger, false) := by decide
  have low : idx = mininteger := by
    match passes with
    | 0 => cases found
    | 1 =>
      rw [selectPasses, wraps] at found
      cases found
    | passes + 2 =>
      rw [selectPasses, wraps] at found
      simp only [selectPasses, stays] at found
      exact (Option.some.inj found).symm
  have le := least.le
  rw [low] at le
  exact absurd le (by decide)

end Loop

/-! ## The number of the room pool -/

section Pool

variable {roomlist : List Entry} {idx : Int}

/-- The ids of the entries, as integers. -/
def integerIds (roomlist : List Entry) : List Int := roomlist.map fun entry => (entry.id : Int)

theorem selectPass_natCast (fits : idx ≤ maxinteger) (free : idx ∉ integerIds roomlist) :
    ∀ (roomIdx : Nat) (has : Bool), (roomIdx : Int) ≤ idx →
      selectPass (integerIds roomlist) roomIdx has =
        (((selectRound roomlist roomIdx has).1 : Int), (selectRound roomlist roomIdx has).2) := by
  induction roomlist with
  | nil => exact fun roomIdx has _ => rfl
  | cons entry rest ih =>
    intro roomIdx has before
    obtain ⟨other, free'⟩ := not_or.mp (mt List.mem_cons.mpr free)
    by_cases same : roomIdx = entry.id
    · have first : selectRound (entry :: rest) roomIdx has =
          selectRound rest (roomIdx + 1) true := by
        simp [selectRound, same]
      have here : integerIds (entry :: rest) = (roomIdx : Int) :: integerIds rest := by
        rw [same]
        rfl
      have last : idx ≠ (entry.id : Int) := other
      have strict : (roomIdx : Int) < idx := by omega
      have next : wrap ((roomIdx : Int) + 1) = ((roomIdx + 1 : Nat) : Int) := by
        apply wrap_of_nonneg
        · omega
        · omega
      rw [here, selectPass_cons_same, next, first]
      exact ih free' (roomIdx + 1) true (by omega)
    · have first : selectRound (entry :: rest) roomIdx has = selectRound rest roomIdx has := by
        simp [selectRound, same]
      have other' : (roomIdx : Int) ≠ entry.id := fun cast => same (Int.ofNat.inj cast)
      have here : integerIds (entry :: rest) = (entry.id : Int) :: integerIds rest := rfl
      rw [here, selectPass_cons_other other', first]
      exact ih free' roomIdx has before

theorem selectRounds_natCast (fits : idx ≤ maxinteger) (free : idx ∉ integerIds roomlist) :
    ∀ {passes pass roomIdx : Nat} {found : Int}, (roomIdx : Int) ≤ idx →
      selectPasses (fun _ => integerIds roomlist) passes pass roomIdx = some found →
        found = selectRounds roomlist passes roomIdx := by
  intro passes
  induction passes with
  | zero =>
    intro pass roomIdx found _ ends
    cases ends
  | succ passes ih =>
    intro pass roomIdx found before ends
    have moves := selectPass_natCast fits free roomIdx false before
    obtain ⟨next, has, same⟩ : ∃ next has, selectRound roomlist roomIdx false = (next, has) :=
      ⟨_, _, rfl⟩
    rw [same] at moves
    rw [selectPasses, moves] at ends
    rw [selectRounds, same]
    cases has with
    | true =>
      have inside : (next : Int) ≤ idx := by
        obtain ⟨roomIdx', has', pass', -, inside, -⟩ :=
          selectPass_spec free fits false (Int.le_trans (by decide) (Int.natCast_nonneg roomIdx))
            before
        rw [moves] at pass'
        cases pass'
        exact inside
      exact ih inside ends
    | false => exact (Option.some.inj ends).symm

/-- Among as many numbers as there are ids, and one more, there is a free one. -/
theorem exists_free (ids : List Int) (start : Int) :
    ∃ n, start ≤ n ∧ n ≤ start + ids.length ∧ n ∉ ids := by
  have more : ids.toFinset.card < (Finset.Icc start (start + ids.length)).card := by
    have fewer := List.toFinset_card_le ids
    rw [Int.card_Icc]
    omega
  obtain ⟨n, inside, free⟩ := Finset.exists_mem_notMem_of_card_lt_card more
  obtain ⟨after, before⟩ := Finset.mem_Icc.mp inside
  exact ⟨n, after, before, fun member => free (List.mem_toFinset.mpr member)⟩

/-- The room pool selects the least free number. -/
theorem selectRoomIdx_least {start : Nat} (fits : (start + roomlist.length : Int) ≤ maxinteger) :
    Least (integerIds roomlist) start (selectRoomIdx roomlist start) := by
  have length : (integerIds roomlist).length = roomlist.length := List.length_map _
  obtain ⟨n, after, before, free⟩ := exists_free (integerIds roomlist) start
  rw [length] at before
  obtain ⟨idx, ends, least⟩ := @selectPasses_least _ (fun _ => integerIds roomlist) _
    (fun _ => List.Perm.refl _) (Int.le_trans (by decide) (Int.natCast_nonneg start))
    ⟨n, after, before.trans fits, free⟩
  have inside : idx ≤ maxinteger := (least.least n after free).trans (before.trans fits)
  have same := selectRounds_natCast inside least.free least.le ends
  rw [length] at same
  rw [selectRoomIdx, ← same]
  exact least

end Pool

end RillServer.RoomPool
