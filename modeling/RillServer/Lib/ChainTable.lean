import Mathlib.Logic.Function.Basic

/-!
# A hash table with chains

Every key has its chain among `n`, given by `hash`. An entry is put in front of its chain without
looking at what the chain holds, and taking a key removes the first entry that has it. So the table
keeps for each key a stack of values (`stack`), whatever keys share its chain: `put` pushes on the
stack of its key, `take` pops it, and neither touches the stack of another key.
-/

/-- The chains of a hash table. -/
structure ChainTable {K : Type} {n : Nat} (hash : K → Fin n) (V : Type) where
  chains : Fin n → List (K × V)

namespace ChainTable

variable {K V : Type} {n : Nat} {hash : K → Fin n}

/-- A table without entries. -/
def empty : ChainTable hash V := ⟨fun _ => []⟩

/-- Put an entry in front of its chain. -/
def put (t : ChainTable hash V) (k : K) (v : V) : ChainTable hash V :=
  ⟨Function.update t.chains (hash k) ((k, v) :: t.chains (hash k))⟩

variable [DecidableEq K]

/-- Unlink the first entry of a chain that has the key. -/
def unlink (k : K) : List (K × V) → Option V × List (K × V)
  | [] => (none, [])
  | (k', v) :: chain =>
      if k' = k then (some v, chain) else ((unlink k chain).1, (k', v) :: (unlink k chain).2)

/-- Take the first entry that has the key out of the table. -/
def take (t : ChainTable hash V) (k : K) : Option V × ChainTable hash V :=
  let (found, chain) := unlink k (t.chains (hash k))
  (found, ⟨Function.update t.chains (hash k) chain⟩)

/-- The values that a chain has for a key, first to last. -/
def valuesOf (k : K) (chain : List (K × V)) : List V :=
  (chain.filter fun entry => entry.1 = k).map Prod.snd

/-- The values of a key, the one that `take` would find first. -/
def stack (t : ChainTable hash V) (k : K) : List V := valuesOf k (t.chains (hash k))

theorem unlink_found (k : K) (chain : List (K × V)) :
    (unlink k chain).1 = (valuesOf k chain).head? := by
  induction chain with
  | nil => rfl
  | cons entry chain ih =>
      by_cases here : entry.1 = k
      · simp [unlink, valuesOf, here]
      · simpa [unlink, valuesOf, here] using ih

theorem valuesOf_unlink (k : K) (chain : List (K × V)) :
    valuesOf k (unlink k chain).2 = (valuesOf k chain).tail := by
  induction chain with
  | nil => rfl
  | cons entry chain ih =>
      by_cases here : entry.1 = k
      · simp [unlink, valuesOf, here]
      · simpa [unlink, valuesOf, here] using ih

theorem valuesOf_unlink_of_ne {k k' : K} (other : k' ≠ k) (chain : List (K × V)) :
    valuesOf k' (unlink k chain).2 = valuesOf k' chain := by
  induction chain with
  | nil => rfl
  | cons entry chain ih =>
      by_cases here : entry.1 = k
      · simp [unlink, valuesOf, here, Ne.symm other]
      · by_cases mine : entry.1 = k'
        · simpa [unlink, valuesOf, here, mine, other] using ih
        · simpa [unlink, valuesOf, here, mine] using ih

@[simp]
theorem take_found (t : ChainTable hash V) (k : K) : (t.take k).1 = (t.stack k).head? :=
  unlink_found k _

@[simp]
theorem stack_take (t : ChainTable hash V) (k : K) :
    (t.take k).2.stack k = (t.stack k).tail := by
  simp [take, stack, valuesOf_unlink]

theorem stack_take_of_ne (t : ChainTable hash V) {k k' : K} (other : k' ≠ k) :
    (t.take k).2.stack k' = t.stack k' := by
  by_cases shared : hash k' = hash k
  · simp [take, stack, shared, valuesOf_unlink_of_ne other]
  · simp [take, stack, Function.update_of_ne shared]

@[simp]
theorem stack_put (t : ChainTable hash V) (k : K) (v : V) :
    (t.put k v).stack k = v :: t.stack k := by
  simp [put, stack, valuesOf]

theorem stack_put_of_ne (t : ChainTable hash V) {k k' : K} (v : V) (other : k' ≠ k) :
    (t.put k v).stack k' = t.stack k' := by
  by_cases shared : hash k' = hash k
  · simp [put, stack, shared, valuesOf, Ne.symm other]
  · simp [put, stack, Function.update_of_ne shared]

end ChainTable
