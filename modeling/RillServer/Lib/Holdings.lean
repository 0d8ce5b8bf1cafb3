import Mathlib.Data.List.Basic
import Mathlib.Algebra.Ring.Nat

/-!
# What a pool of threads holds

Each thread of a pool holds some resources, those of the list `holdings`. `Holdings.total` is how many
of a resource the threads hold together. When one thread goes on the total changes by what this thread
takes or gives back (`total_set`), and a resource of which there is one at most is held by one thread at
most (`unique_holder`).
-/

namespace Holdings

variable {T R : Type} [BEq R] {holdings : T → List R} {threads : List T}

/-- How many of a resource all threads hold together. -/
def total (holdings : T → List R) (threads : List T) (r : R) : Nat :=
  (threads.flatMap holdings).count r

theorem total_cons (a : T) (threads : List T) (r : R) :
    total holdings (a :: threads) r = (holdings a).count r + total holdings threads r := by
  rw [total, List.flatMap_cons, List.count_append]
  rfl

/-- A thread holds no more than all threads together. -/
theorem le_total {t : Nat} {a : T} (here : threads[t]? = some a) (r : R) :
    (holdings a).count r ≤ total holdings threads r := by
  induction threads generalizing t with
  | nil => cases here
  | cons b threads ih =>
      rw [total_cons]
      cases t with
      | zero =>
          obtain rfl : b = a := Option.some.inj here
          exact Nat.le_add_right _ _
      | succ t => exact Nat.le_trans (ih here) (Nat.le_add_left _ _)

/-- When a thread goes on, the total changes by what the thread takes and gives back. -/
theorem total_set {t : Nat} {a : T} (here : threads[t]? = some a) (b : T) (r : R) :
    total holdings (threads.set t b) r + (holdings a).count r =
      total holdings threads r + (holdings b).count r := by
  induction threads generalizing t with
  | nil => cases here
  | cons c threads ih =>
      cases t with
      | zero =>
          obtain rfl : c = a := Option.some.inj here
          rw [List.set_cons_zero, total_cons, total_cons]
          omega
      | succ t =>
          have rest := ih here
          rw [List.set_cons_succ, total_cons, total_cons]
          omega

/-- Two threads hold no more than all threads together. -/
theorem add_le_total {t t' : Nat} {a a' : T} (here : threads[t]? = some a)
    (there : threads[t']? = some a') (other : t < t') (r : R) :
    (holdings a).count r + (holdings a').count r ≤ total holdings threads r := by
  induction threads generalizing t t' with
  | nil => cases here
  | cons b threads ih =>
      rw [total_cons]
      obtain ⟨t', rfl⟩ := Nat.exists_eq_succ_of_ne_zero (Nat.ne_of_gt (Nat.zero_lt_of_lt other))
      cases t with
      | zero =>
          obtain rfl : b = a := Option.some.inj here
          have later : threads[t']? = some a' := there
          exact Nat.add_le_add_left (le_total later r) _
      | succ t =>
          exact Nat.le_trans (ih here there (Nat.lt_of_succ_lt_succ other)) (Nat.le_add_left _ _)

/-- A resource of which there is one at most has one holder at most. -/
theorem unique_holder [LawfulBEq R] {t t' : Nat} {a a' : T} {r : R} (single : total holdings threads r ≤ 1)
    (here : threads[t]? = some a) (there : threads[t']? = some a') (holds : r ∈ holdings a)
    (holds' : r ∈ holdings a') : t = t' := by
  rw [← List.count_pos_iff] at holds holds'
  rcases Nat.lt_trichotomy t t' with before | same | after
  · have both : (holdings a).count r + (holdings a').count r ≤ total holdings threads r :=
      add_le_total here there before r
    omega
  · exact same
  · have both : (holdings a').count r + (holdings a).count r ≤ total holdings threads r :=
      add_le_total there here after r
    omega

/-- Threads that hold nothing of a resource. -/
theorem total_eq_zero {r : R} (none : ∀ a ∈ threads, (holdings a).count r = 0) :
    total holdings threads r = 0 := by
  induction threads with
  | nil => rfl
  | cons a threads ih =>
      rw [List.forall_mem_cons] at none
      rw [total_cons, none.1, Nat.zero_add]
      exact ih none.2

end Holdings
