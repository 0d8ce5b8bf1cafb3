import RillServer.Lib.Bytes

/-!
# Readers

A reader gives what it has read, with the bytes that are left, or an error. A reader that recurs under
a bound has one error for when the bound is reached. `Readers.Consumes` says that it is not reached, and
that at least so many bytes are read; it is put together along `>>=` (`Consumes.bind`).
-/

namespace Readers

section Results

variable {ε α β : Type}

/-- What is done after something else ends well if and only if both do. -/
theorem bind_eq_ok {x : Except ε α} {f : α → Except ε β} {b : β} :
    (x >>= f) = .ok b ↔ ∃ a, x = .ok a ∧ f a = .ok b := by
  cases x <;> simp [bind, Except.bind]

theorem ok_bind (a : α) (f : α → Except ε β) : (.ok a >>= f) = f a := rfl

end Results

section Consumes

variable {ε α β : Type} {stop : ε} {k j : Nat} {rb : Bytes} {x : Except ε (α × Bytes)}

/-- What was read, if anything, is at least so many bytes, and the reader did not stop at its bound. -/
def Consumes (stop : ε) (k : Nat) (rb : Bytes) : Except ε (α × Bytes) → Prop
  | .error e => e ≠ stop
  | .ok p => p.2.length + k ≤ rb.length

theorem Consumes.bind {f : α × Bytes → Except ε (β × Bytes)} (first : Consumes stop k rb x)
    (later : ∀ p, p.2.length + k ≤ rb.length → Consumes stop j p.2 (f p)) :
    Consumes stop (k + j) rb (x >>= f) := by
  cases x with
  | error e => exact first
  | ok p =>
      show Consumes stop (k + j) rb (f p)
      have rest := later p first
      cases done : f p with
      | error e => rwa [done] at rest
      | ok q =>
          rw [done] at rest
          have here : p.2.length + k ≤ rb.length := first
          have there : q.2.length + j ≤ p.2.length := rest
          show q.2.length + (k + j) ≤ rb.length
          omega

theorem Consumes.mono (le : j ≤ k) (first : Consumes stop k rb x) : Consumes stop j rb x := by
  cases x with
  | error e => exact first
  | ok p => exact Nat.le_trans (Nat.add_le_add_left le _) first

theorem Consumes.ok (a : α) (rb : Bytes) : Consumes stop 0 rb (.ok (a, rb)) := Nat.le_refl _

/-- Reads, and makes something of it. -/
theorem Consumes.map {g : α × Bytes → β × Bytes} (first : Consumes stop k rb x)
    (same : ∀ p, (g p).2 = p.2) : Consumes stop k rb (x >>= fun p => pure (g p)) :=
  first.bind (j := 0) (f := fun p => pure (g p)) fun p _ =>
    Nat.le_of_eq (congrArg List.length (same p))

end Consumes

end Readers
