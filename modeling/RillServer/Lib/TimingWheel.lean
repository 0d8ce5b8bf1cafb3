import Mathlib.Algebra.Order.Group.Nat
import Mathlib.Algebra.Ring.Nat
import Mathlib.Data.List.Basic
import Mathlib.Logic.Function.Basic

/-!
# Hierarchical timing wheels

Entries that are due at a later time lie in slots: in a near one for each of the next times, or in a
coarse one for a stretch of times, the coarser the later. `TimingWheel.place` is the slot of an entry,
and `TimingWheel.turned` the slot whose entries have to be placed anew when time goes on by one. Every
other entry stays in its place, and the places of those that are moved were empty (`place_succ`), so
that slots keep their entries in one order (`turn_spec`).
-/

namespace TimingWheel

/-- The numbers of bits of a near slot and of a coarse one, and the coarsest level. -/
structure Shape where
  near : Nat
  level : Nat
  top : Nat

/-- A slot. -/
inductive Slot : Type where
  | near (index : Nat)
  | coarse (level index : Nat)
  deriving DecidableEq

variable (w : Shape)

/-- How many times a coarse slot of a level stands for. -/
def gran (i : Nat) : Nat := 2 ^ (w.near + w.level * i)

/-- The level of an entry that is in no near slot, looked for from `i` on. -/
def levelFrom (t due : Nat) : Nat → Nat → Nat
  | 0, i => i
  | fuel + 1, i => if t / gran w (i + 1) = due / gran w (i + 1) then i else levelFrom t due fuel (i + 1)

/-- The slot, at time `t`, of an entry that is due at `due`. -/
def place (t due : Nat) : Slot :=
  if t / gran w 0 = due / gran w 0 then .near (due % gran w 0)
  else
    let i := levelFrom w t due w.top 0
    .coarse i (due / gran w i % 2 ^ w.level)

/-- The slot that has come up at time `t`, looked for from level `i` on. -/
def turnedFrom (t : Nat) : Nat → Nat → Slot
  | 0, i => .coarse i (t / gran w i % 2 ^ w.level)
  | fuel + 1, i =>
      if t / gran w i % 2 ^ w.level ≠ 0 then .coarse i (t / gran w i % 2 ^ w.level)
      else turnedFrom t fuel (i + 1)

/-- The slot whose entries are placed anew when it is `t`. -/
def turned (t : Nat) : Option Slot := if gran w 0 ∣ t then some (turnedFrom w t w.top 0) else none

variable {w}

theorem gran_pos (i : Nat) : 0 < gran w i := Nat.two_pow_pos _

theorem gran_succ (i : Nat) : gran w (i + 1) = gran w i * 2 ^ w.level := by
  rw [gran, gran, ← Nat.pow_add, Nat.mul_succ, Nat.add_assoc]

theorem gran_dvd {i j : Nat} (less : i ≤ j) : gran w i ∣ gran w j := by
  induction j, less using Nat.le_induction with
  | base => exact Nat.dvd_refl _
  | succ j _ ih =>
      rw [gran_succ]
      exact Nat.dvd_trans ih (Nat.dvd_mul_right _ _)

/-- What two times have in common at a level they have in common at coarser ones. -/
theorem agree_mono {t due i j : Nat} (agree : t / gran w i = due / gran w i) (less : i ≤ j) :
    t / gran w j = due / gran w j := by
  obtain ⟨k, more⟩ := gran_dvd (w := w) less
  rw [more, ← Nat.div_div_eq_div_mul, ← Nat.div_div_eq_div_mul, agree]

/-- At which level an entry is that is in no near slot. -/
structure AtLevel (w : Shape) (t due i : Nat) : Prop where
  le_top : i ≤ w.top
  apart : t / gran w i ≠ due / gran w i
  agree : i < w.top → t / gran w (i + 1) = due / gran w (i + 1)

theorem AtLevel.unique {t due i j : Nat} (here : AtLevel w t due i) (there : AtLevel w t due j) :
    i = j := by
  rcases Nat.lt_trichotomy i j with less | same | more
  · exact absurd (agree_mono (here.agree (Nat.lt_of_lt_of_le less there.le_top)) less) there.apart
  · exact same
  · exact absurd (agree_mono (there.agree (Nat.lt_of_lt_of_le more here.le_top)) more) here.apart

theorem levelFrom_spec {t due fuel i : Nat} (whole : i + fuel = w.top)
    (apart : t / gran w i ≠ due / gran w i) : AtLevel w t due (levelFrom w t due fuel i) := by
  induction fuel generalizing i with
  | zero => exact ⟨by rw [levelFrom]; omega, apart, fun less => by rw [levelFrom] at less; omega⟩
  | succ fuel ih =>
      rw [levelFrom]
      split_ifs with agree
      · exact ⟨by omega, apart, fun _ => agree⟩
      · exact ih (by omega) agree

/-- An entry is in a near slot, or in a coarse one of its level. -/
theorem place_cases (t due : Nat) :
    (t / gran w 0 = due / gran w 0 ∧ place w t due = .near (due % gran w 0)) ∨
      ∃ i, AtLevel w t due i ∧ place w t due = .coarse i (due / gran w i % 2 ^ w.level) := by
  by_cases agree : t / gran w 0 = due / gran w 0
  · exact .inl ⟨agree, if_pos agree⟩
  · exact .inr ⟨_, levelFrom_spec (Nat.zero_add _) agree, if_neg agree⟩

theorem place_of_atLevel {t due i : Nat} (level : AtLevel w t due i) :
    place w t due = .coarse i (due / gran w i % 2 ^ w.level) := by
  rcases place_cases (w := w) t due with ⟨agree, _⟩ | ⟨j, there, placed⟩
  · exact absurd (agree_mono agree (Nat.zero_le i)) level.apart
  · rw [placed, level.unique there]

/-- An entry that agrees with the time at a level is in a near slot or in a finer one. -/
theorem place_of_agree {t due i : Nat} (agree : t / gran w i = due / gran w i) :
    place w t due = .near (due % gran w 0) ∨
      ∃ j < i, place w t due = .coarse j (due / gran w j % 2 ^ w.level) := by
  rcases place_cases (w := w) t due with ⟨_, placed⟩ | ⟨j, level, placed⟩
  · exact .inl placed
  · refine .inr ⟨j, ?_, placed⟩
    by_contra less
    exact level.apart (agree_mono agree (Nat.not_lt.mp less))

/-! ## One time later -/

/-- The level whose slot comes up at time `t`. -/
structure Turns (w : Shape) (t i : Nat) : Prop where
  le_top : i ≤ w.top
  divides : gran w i ∣ t
  coarser : i < w.top → ¬gran w (i + 1) ∣ t

theorem gran_succ_dvd {t i : Nat} (divides : gran w i ∣ t) :
    gran w (i + 1) ∣ t ↔ t / gran w i % 2 ^ w.level = 0 := by
  obtain ⟨q, rfl⟩ := divides
  rw [gran_succ, Nat.mul_dvd_mul_iff_left (gran_pos i), Nat.mul_div_cancel_left _ (gran_pos i),
    Nat.dvd_iff_mod_eq_zero]

theorem turnedFrom_spec {t fuel i : Nat} (whole : i + fuel = w.top) (divides : gran w i ∣ t) :
    ∃ j, Turns w t j ∧ turnedFrom w t fuel i = .coarse j (t / gran w j % 2 ^ w.level) := by
  induction fuel generalizing i with
  | zero => exact ⟨i, ⟨by omega, divides, fun less => by omega⟩, rfl⟩
  | succ fuel ih =>
      rw [turnedFrom]
      split_ifs with index
      · exact ⟨i, ⟨by omega, divides, fun _ more => index ((gran_succ_dvd divides).mp more)⟩, rfl⟩
      · exact ih (by omega) ((gran_succ_dvd divides).mpr (not_not.mp index))

theorem turned_eq_some {t : Nat} {s : Slot} (turn : turned w t = some s) :
    ∃ j, Turns w t j ∧ s = .coarse j (t / gran w j % 2 ^ w.level) := by
  rw [turned] at turn
  split_ifs at turn with divides
  obtain ⟨j, turns, found⟩ := turnedFrom_spec (Nat.zero_add w.top) divides
  exact ⟨j, turns, (Option.some.inj turn).symm.trans found⟩

theorem succ_div_of_dvd {t i : Nat} (divides : gran w i ∣ t + 1) :
    (t + 1) / gran w i = t / gran w i + 1 := by
  rw [Nat.succ_div, if_pos divides]

theorem succ_div_of_not_dvd {t i : Nat} (not : ¬gran w i ∣ t + 1) :
    (t + 1) / gran w i = t / gran w i := by
  rw [Nat.succ_div, if_neg not, Nat.add_zero]

/-- When no slot comes up, every entry stays in its place. -/
theorem place_unturned {t : Nat} (turn : turned w (t + 1) = none) (due : Nat) :
    place w (t + 1) due = place w t due := by
  have same : ∀ i, (t + 1) / gran w i = t / gran w i := by
    intro i
    apply succ_div_of_not_dvd
    intro divides
    rw [turned, if_pos (Nat.dvd_trans (gran_dvd (Nat.zero_le i)) divides)] at turn
    cases turn
  have levels : ∀ fuel i, levelFrom w (t + 1) due fuel i = levelFrom w t due fuel i := by
    intro fuel
    induction fuel with
    | zero => exact fun _ => rfl
    | succ fuel ih => exact fun i => by rw [levelFrom, levelFrom, same, ih]
  rw [place, place, same, levels]

/-- An entry that is due later than `t` does not agree with it where a slot comes up. -/
theorem apart_of_dvd {t due i : Nat} (later : t < due) (divides : gran w i ∣ t + 1) :
    t / gran w i ≠ due / gran w i := by
  have less : (t + 1) / gran w i ≤ due / gran w i := Nat.div_le_div_right later
  rw [succ_div_of_dvd divides] at less
  omega

/-- The level of an entry is no finer than that of the slot that comes up. -/
theorem Turns.le_level {t due i j : Nat} (turns : Turns w (t + 1) j) (later : t < due)
    (level : AtLevel w t due i) : j ≤ i := by
  by_contra less
  rw [Nat.not_le] at less
  have agree := level.agree (Nat.lt_of_lt_of_le less turns.le_top)
  exact apart_of_dvd later (Nat.dvd_trans (gran_dvd less) turns.divides) agree

theorem Turns.atLevel {t due j : Nat} (turns : Turns w (t + 1) j) (later : t < due) :
    ∃ i, j ≤ i ∧ AtLevel w t due i ∧ place w t due = .coarse i (due / gran w i % 2 ^ w.level) := by
  rcases place_cases (w := w) t due with ⟨agree, _⟩ | ⟨i, level, placed⟩
  · exact absurd agree
      (apart_of_dvd later (Nat.dvd_trans (gran_dvd (Nat.zero_le j)) turns.divides))
  · exact ⟨i, turns.le_level later level, level, placed⟩

/-- What time `t + 1` does to an entry that is due later than `t`, and not too late: it stays in its
place, or it was in the slot that comes up. Then it goes to a place where no entry was. -/
theorem place_succ {t due : Nat} {s : Slot} (turn : turned w (t + 1) = some s) (later : t < due)
    (bound : due / gran w w.top < (t + 1) / gran w w.top + 2 ^ w.level) :
    (place w t due ≠ s → place w (t + 1) due = place w t due) ∧ place w (t + 1) due ≠ s ∧
      (place w t due = s → ∀ due', t < due' → place w t due' ≠ place w (t + 1) due) := by
  obtain ⟨j, turns, rfl⟩ := turned_eq_some turn
  obtain ⟨i, le_level, level, placed⟩ := turns.atLevel later
  have coarser : ∀ m, j < m → m ≤ w.top → (t + 1) / gran w m = t / gran w m := by
    intro m more le_top
    apply succ_div_of_not_dvd
    intro divides
    exact turns.coarser (by omega) (Nat.dvd_trans (gran_dvd more) divides)
  by_cases agree : (t + 1) / gran w j = due / gran w j
  · -- the entry is in the slot that comes up
    have same : i = j := by
      by_contra other
      have more : j < i := by omega
      apply level.apart
      rw [← coarser i more level.le_top]
      exact agree_mono agree le_level
    subst same
    have here : place w t due = .coarse i ((t + 1) / gran w i % 2 ^ w.level) := by
      rw [placed, agree]
    refine ⟨fun other => absurd here other, ?_, fun _ due' later' => ?_⟩
    · rcases place_of_agree agree with finer | ⟨m, less, finer⟩ <;> rw [finer]
      · exact Slot.noConfusion
      · intro same
        exact absurd (Slot.coarse.inj same).1 (Nat.ne_of_lt less)
    · obtain ⟨i', le_level', _, placed'⟩ := turns.atLevel later'
      rw [placed']
      rcases place_of_agree agree with finer | ⟨m, less, finer⟩ <;> rw [finer]
      · exact Slot.noConfusion
      · intro same
        have := (Slot.coarse.inj same).1
        omega
  · -- the entry keeps its level
    have level' : AtLevel w (t + 1) due i := by
      refine ⟨level.le_top, ?_, fun less => ?_⟩
      · rcases Nat.eq_or_lt_of_le le_level with rfl | more
        · exact agree
        · rw [coarser i more level.le_top]
          exact level.apart
      · rw [coarser (i + 1) (by omega) less]
        exact level.agree less
    have stays := place_of_atLevel level'
    have other : place w (t + 1) due ≠ .coarse j ((t + 1) / gran w j % 2 ^ w.level) := by
      rw [stays]
      intro same
      obtain ⟨rfl, index⟩ := Slot.coarse.inj same
      apply agree
      by_cases less : i < w.top
      · have whole := level'.agree less
        rw [gran_succ, ← Nat.div_div_eq_div_mul, ← Nat.div_div_eq_div_mul] at whole
        rw [← Nat.div_add_mod ((t + 1) / gran w i) (2 ^ w.level), whole, ← index, Nat.div_add_mod]
      · obtain rfl : i = w.top := by
          have := level.le_top
          omega
        have below : (t + 1) / gran w w.top ≤ due / gran w w.top := Nat.div_le_div_right later
        have none := Nat.sub_mod_eq_zero_of_mod_eq index
        rw [Nat.mod_eq_of_lt (by omega)] at none
        omega
    exact ⟨fun _ => stays.trans placed.symm, other,
      fun here => absurd (stays.trans (placed.symm.trans here)) other⟩

/-! ## Slots and what they hold -/

section

variable {α β : Type}

/-- Put entries into their slots, behind what is there. -/
def refile (slot : β → Slot) (wheel : Slot → List β) (xs : List β) : Slot → List β :=
  xs.foldl (fun wheel x => Function.update wheel (slot x) (wheel (slot x) ++ [x])) wheel

theorem refile_apply (slot : β → Slot) (wheel : Slot → List β) (xs : List β) (s : Slot) :
    refile slot wheel xs s = wheel s ++ xs.filter fun x => slot x = s := by
  induction xs generalizing wheel with
  | nil => exact (List.append_nil _).symm
  | cons x xs ih =>
      rw [refile, List.foldl_cons, ← refile, ih, List.filter_cons, Function.update_apply]
      by_cases here : slot x = s
      · rw [if_pos here.symm, if_pos (decide_eq_true here), here, List.append_assoc]
        rfl
      · rw [if_neg (Ne.symm here), if_neg (by simpa using here)]

/-- Slots that hold entries in the order of a list hold the next ones in that order when the entries of
the slot that comes up have been placed anew. -/
theorem turn_spec {t : Nat} {entries : List α} {due : α → Nat} {node : α → β}
    {wheel : Slot → List β} {slot : β → Slot} {s : Slot} (turn : turned w (t + 1) = some s)
    (later : ∀ x ∈ entries, t < due x)
    (bound : ∀ x ∈ entries, due x / gran w w.top < (t + 1) / gran w w.top + 2 ^ w.level)
    (holds : ∀ s, wheel s = (entries.filter fun x => place w t (due x) = s).map node)
    (placed : ∀ x ∈ entries, slot (node x) = place w (t + 1) (due x)) (s' : Slot) :
    refile slot (Function.update wheel s []) (wheel s) s' =
      (entries.filter fun x => place w (t + 1) (due x) = s').map node := by
  have moves := fun x among => place_succ turn (later x among) (bound x among)
  have moved : (wheel s).filter (fun y => slot y = s') =
      (entries.filter fun x => place w t (due x) = s ∧ place w (t + 1) (due x) = s').map node := by
    rw [holds, List.filter_map, List.filter_filter]
    congr 1
    apply List.filter_congr
    intro x among
    simp [placed x among, Bool.and_comm]
  rw [refile_apply, moved, Function.update_apply]
  by_cases same : s' = s
  · have none : ∀ x ∈ entries, place w (t + 1) (due x) ≠ s' := fun x among =>
      same ▸ (moves x among).2.1
    rw [if_pos same, List.nil_append]
    congr 1
    apply List.filter_congr
    intro x among
    simp [none x among]
  · rw [if_neg same, holds, ← List.map_append]
    congr 1
    by_cases some : ∃ x ∈ entries, place w t (due x) = s ∧ place w (t + 1) (due x) = s'
    · -- some entry comes to the slot, which was empty
      obtain ⟨x, among, here, there⟩ := some
      have none : (entries.filter fun y => place w t (due y) = s') = [] := by
        rw [List.filter_eq_nil_iff]
        intro y other
        simpa [there] using (moves x among).2.2 here (due y) (later y other)
      rw [none, List.nil_append]
      apply List.filter_congr
      intro y other
      by_cases from_s : place w t (due y) = s
      · simp [from_s]
      · have stays := (moves y other).1 from_s
        have away : place w t (due y) ≠ s' := by
          rw [← there]
          exact (moves x among).2.2 here (due y) (later y other)
        simp [from_s, stays, away]
    · -- no entry comes to the slot, and those in it stay
      rw [not_exists] at some
      have none : (entries.filter fun x =>
          place w t (due x) = s ∧ place w (t + 1) (due x) = s') = [] := by
        rw [List.filter_eq_nil_iff]
        intro x among both
        exact some x ⟨among, of_decide_eq_true both⟩
      rw [none, List.append_nil]
      apply List.filter_congr
      intro x among
      by_cases from_s : place w t (due x) = s
      · have away : place w (t + 1) (due x) ≠ s' := fun there => some x ⟨among, from_s, there⟩
        simp [from_s, away, Ne.symm same]
      · rw [(moves x among).1 from_s]

end

end TimingWheel
