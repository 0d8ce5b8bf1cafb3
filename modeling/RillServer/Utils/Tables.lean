import RillServer.Lib.Trees

/-!
# Copying and comparing tables

`Table.clone` and `Table.compare` of `lualib/base/utils/tables.lua`. For a value that is a table
both call a global function, `clone` or `compare`, which nobody defines: the call raises an error.
And `compare` skips a table if there is nothing in the other one under its key.

A table is copied if and only if no value in it is a table. Comparing two tables is right if and
only if none of their values is a table, or `compare` comes to a difference before it comes to a
table that it has to compare (`clone_compare_iff`).
-/

namespace RillServer.Tables

/-- The values that are no tables: `==` on them, and the ones that count as true. -/
structure Scalars (S : Type) where
  eq : S → S → Bool
  symm : ∀ s s', eq s s' = eq s' s
  truthy : S → Bool

variable {K S : Type}

/-- `if v`. -/
def truthy (scalars : Scalars S) : TableTree K S → Bool
  | .leaf s => scalars.truthy s
  | .table _ => true

/-- The global `clone`. -/
def globalClone (_ : TableTree K S) : Except String (TableTree K S) :=
  .error "attempt to call a nil value (global 'clone')"

/-- The loop of `Table.clone`. -/
def cloneEntries : TableEntries K S → Except String (TableEntries K S)
  | .nil => .ok .nil
  | .cons k v rest => do
    let v ← match v with
      | .table entries => globalClone (.table entries)
      | .leaf s => pure (.leaf s)
    let rt ← cloneEntries rest
    return .cons k v rt

/-- `Table.clone`. -/
def clone : TableTree K S → Except String (Option (TableTree K S))
  | .leaf _ => .ok none
  | .table entries => do
    let rt ← cloneEntries entries
    return some (.table rt)

/-- The global `compare`. -/
def globalCompare (_ _ : TableTree K S) : Except String Bool :=
  .error "attempt to call a nil value (global 'compare')"

section Compare

variable [DecidableEq K] (scalars : Scalars S)

/-- A round of `Table.compare`: a value, and what the other table has under its key. -/
def compareValue : TableTree K S → Option (TableTree K S) → Except String Bool
  | .table entries, some v' =>
    if truthy scalars v' then globalCompare (.table entries) v' else .ok true
  | .table _, none => .ok true
  | .leaf s, some (.leaf s') => .ok (scalars.eq s' s)
  | .leaf _, _ => .ok false

/-- A loop of `Table.compare`. -/
def compareEntries : TableEntries K S → TableEntries K S → Except String Bool
  | .nil, _ => .ok true
  | .cons i v rest, other => do
    let rst ← compareValue scalars v (other.lookup i)
    if rst then compareEntries rest other else return false

/-- `Table.compare`. -/
def compare : TableTree K S → TableTree K S → Except String Bool
  | .table ta, .table tb => do
    let rst ← compareEntries scalars ta tb
    if rst then compareEntries scalars tb ta else return false
  | _, _ => .ok false

end Compare

/-- A table that is a tree, in which each key stands once. -/
structure Table (K S : Type) where
  entries : TableEntries K S
  distinct : entries.Distinct

/-- No value is a table. -/
def Flat (entries : TableEntries K S) : Prop :=
  ∀ k v, (k, v) ∈ entries.toList → ∃ s, v = .leaf s

section Correct

variable [DecidableEq K] (scalars : Scalars S)

/-- `Table.clone` returns a table that is the same. -/
def Cloned (a : Table K S) : Prop :=
  ∃ c, clone (.table a.entries) = .ok (some c) ∧ (TableTree.table a.entries).Same (· = ·) c

/-- The tables have the same keys, with the same values at every level. -/
def Equal (a b : Table K S) : Prop :=
  (TableTree.table a.entries).Same (fun s s' => scalars.eq s s' = true) (.table b.entries)

/-- `Table.compare` returns `true` if the tables are the same, and `false` if they are not. -/
def Compared (a b : Table K S) : Prop :=
  (Equal scalars a b → compare scalars (.table a.entries) (.table b.entries) = .ok true) ∧
    (¬ Equal scalars a b → compare scalars (.table a.entries) (.table b.entries) = .ok false)

/-- What is under the key in the other table is equal to a value that is no table, and counts as
false if the value is a table. -/
def Agrees : TableTree K S → Option (TableTree K S) → Prop
  | .leaf s, v' => ∃ s', v' = some (.leaf s') ∧ scalars.eq s' s = true
  | .table _, v' => ∀ v'' ∈ v', truthy scalars v'' = false

/-- Nothing that `compare` looks at differs, and no table meets a value that counts as true. -/
def Agree (a b : TableEntries K S) : Prop :=
  ∀ k v, (k, v) ∈ a.toList → Agrees scalars v (b.lookup k)

/-- In the order of `pairs`, a value that is no table and has no equal one under its key comes
before any table that meets a value that counts as true. -/
def DiffersFirst : TableEntries K S → TableEntries K S → Prop
  | .nil, _ => False
  | .cons k (.leaf s) rest, b =>
    Agrees scalars (.leaf s) (b.lookup k) → DiffersFirst rest b
  | .cons k (.table entries) rest, b =>
    Agrees scalars (.table entries) (b.lookup k) ∧ DiffersFirst rest b

end Correct

/-! ## Copies -/

/-- A loop over no tables copies all of them. -/
theorem cloneEntries_flat : ∀ {entries : TableEntries K S}, Flat entries →
    cloneEntries entries = .ok entries
  | .nil, _ => rfl
  | .cons k v rest, flat => by
    obtain ⟨s, leaf⟩ := flat k v List.mem_cons_self
    have later : cloneEntries rest = .ok rest :=
      cloneEntries_flat fun k' v' member => flat k' v' (List.mem_cons_of_mem _ member)
    subst leaf
    rw [cloneEntries, later]
    rfl

/-- A loop that ends has met no table. -/
theorem flat_of_cloneEntries : ∀ {entries rt : TableEntries K S}, cloneEntries entries = .ok rt →
    Flat entries
  | .nil, _, _, k, v, member => by cases member
  | .cons k (.table entries) rest, rt, copied, _, _, _ => by cases copied
  | .cons k (.leaf s) rest, rt, copied, k', v', member => by
    rw [cloneEntries] at copied
    cases later : cloneEntries rest with
    | error e =>
      rw [later] at copied
      cases copied
    | ok rt' =>
      rcases List.mem_cons.mp member with here | there
      · cases here
        exact ⟨s, rfl⟩
      · exact flat_of_cloneEntries later k' v' there

/-- A table is copied if and only if it has no tables in it. -/
theorem cloned_iff [DecidableEq K] (a : Table K S) : Cloned a ↔ Flat a.entries := by
  constructor
  · intro cloned
    obtain ⟨c, copied, -⟩ := cloned
    rw [clone] at copied
    cases entries : cloneEntries a.entries with
    | error e =>
      rw [entries] at copied
      cases copied
    | ok rt => exact flat_of_cloneEntries entries
  · intro flat
    refine ⟨.table a.entries, ?_, TableTree.same_refl (fun _ => rfl) ?_⟩
    · rw [clone, cloneEntries_flat flat]
      rfl
    · rw [TableTree.Distinct]
      exact a.distinct

/-! ## Comparisons -/

section Comparisons

variable {scalars : Scalars S}

theorem compareValue_eq_true {v : TableTree K S} {v' : Option (TableTree K S)} :
    compareValue scalars v v' = .ok true ↔ Agrees scalars v v' := by
  cases v with
  | leaf s =>
    rw [Agrees]
    cases v' with
    | none => simp [compareValue]
    | some v' =>
      cases v' with
      | leaf s' => simp [compareValue]
      | table entries' => simp [compareValue]
  | table entries =>
    rw [Agrees]
    cases v' with
    | none => simp [compareValue]
    | some v' => simp [compareValue, globalCompare]

/-- A value that is no table is compared without an error. -/
theorem compareValue_leaf {s : S} {v' : Option (TableTree K S)} :
    ∃ rst, compareValue scalars (.leaf s) v' = .ok rst := by
  rcases v' with - | s' | entries'
  · exact ⟨false, rfl⟩
  · exact ⟨scalars.eq s' s, rfl⟩
  · exact ⟨false, rfl⟩

/-- A table that is compared without an error is passed over. -/
theorem compareValue_table {entries : TableEntries K S} {v' : Option (TableTree K S)} {rst : Bool}
    (compared : compareValue scalars (.table entries) v' = .ok rst) : rst = true := by
  cases v' with
  | none =>
    cases compared
    rfl
  | some v' =>
    rw [compareValue] at compared
    split at compared
    · cases compared
    · cases compared
      rfl

variable [DecidableEq K]

theorem compareEntries_eq_true : ∀ {entries other : TableEntries K S},
    compareEntries scalars entries other = .ok true ↔ Agree scalars entries other
  | .nil, other => by simp [compareEntries, Agree, TableEntries.toList]
  | .cons k v rest, other => by
    have later : compareEntries scalars rest other = .ok true ↔ Agree scalars rest other :=
      compareEntries_eq_true
    have both : Agree scalars (.cons k v rest) other ↔
        Agrees scalars v (other.lookup k) ∧ Agree scalars rest other := by
      simp only [Agree, TableEntries.toList, List.mem_cons, Prod.mk.injEq, or_imp, forall_and]
      constructor
      · intro agree
        exact ⟨agree.1 k v ⟨rfl, rfl⟩, agree.2⟩
      · intro agree
        refine ⟨?_, agree.2⟩
        intro k' v' here
        rw [here.1, here.2]
        exact agree.1
    rw [both, ← later, ← compareValue_eq_true, compareEntries]
    cases compareValue scalars v (other.lookup k) with
    | error e => simp [bind, Except.bind]
    | ok rst => cases rst <;> simp [bind, Except.bind, pure, Except.pure]

theorem compareEntries_eq_false : ∀ {entries other : TableEntries K S},
    compareEntries scalars entries other = .ok false ↔ DiffersFirst scalars entries other
  | .nil, other => by simp [compareEntries, DiffersFirst]
  | .cons k (.leaf s) rest, other => by
    have later : compareEntries scalars rest other = .ok false ↔ DiffersFirst scalars rest other :=
      compareEntries_eq_false
    rw [DiffersFirst, ← later, ← compareValue_eq_true, compareEntries]
    obtain ⟨rst, compared⟩ : ∃ rst, compareValue scalars (.leaf s) (other.lookup k) = .ok rst :=
      compareValue_leaf
    rw [compared]
    cases rst <;> simp [bind, Except.bind, pure, Except.pure]
  | .cons k (.table entries) rest, other => by
    have later : compareEntries scalars rest other = .ok false ↔ DiffersFirst scalars rest other :=
      compareEntries_eq_false
    rw [DiffersFirst, ← later, ← compareValue_eq_true, compareEntries]
    cases compared : compareValue scalars (.table entries) (other.lookup k) with
    | error e => simp [bind, Except.bind]
    | ok rst =>
      obtain rfl : rst = true := compareValue_table compared
      simp [bind, Except.bind]

theorem compare_eq_true {a b : TableEntries K S} :
    compare scalars (.table a) (.table b) = .ok true ↔
      Agree scalars a b ∧ Agree scalars b a := by
  rw [← compareEntries_eq_true, ← compareEntries_eq_true, compare]
  cases compareEntries scalars a b with
  | error e => simp [bind, Except.bind]
  | ok rst => cases rst <;> simp [bind, Except.bind, pure, Except.pure]

theorem compare_eq_false {a b : TableEntries K S} :
    compare scalars (.table a) (.table b) = .ok false ↔
      DiffersFirst scalars a b ∨ (Agree scalars a b ∧ DiffersFirst scalars b a) := by
  rw [← compareEntries_eq_false, ← compareEntries_eq_true, ← compareEntries_eq_false, compare]
  cases compareEntries scalars a b with
  | error e => simp [bind, Except.bind]
  | ok rst => cases rst <;> simp [bind, Except.bind, pure, Except.pure]

/-- A loop over no tables ends. -/
theorem compareEntries_flat : ∀ {entries other : TableEntries K S}, Flat entries →
    ∃ rst, compareEntries scalars entries other = .ok rst
  | .nil, _, _ => ⟨true, rfl⟩
  | .cons k v rest, other, flat => by
    obtain ⟨s, leaf⟩ := flat k v List.mem_cons_self
    obtain ⟨rst, later⟩ : ∃ rst, compareEntries scalars rest other = .ok rst :=
      compareEntries_flat fun k' v' member => flat k' v' (List.mem_cons_of_mem _ member)
    subst leaf
    obtain ⟨rst', compared⟩ : ∃ rst, compareValue scalars (.leaf s) (other.lookup k) = .ok rst :=
      compareValue_leaf
    rw [compareEntries, compared]
    cases rst' with
    | false => exact ⟨false, rfl⟩
    | true => exact ⟨rst, later⟩

theorem compare_flat {a b : TableEntries K S} (flat : Flat a) (flat' : Flat b) :
    ∃ rst, compare scalars (.table a) (.table b) = .ok rst := by
  obtain ⟨rst, first⟩ : ∃ rst, compareEntries scalars a b = .ok rst := compareEntries_flat flat
  rw [compare, first]
  cases rst with
  | false => exact ⟨false, rfl⟩
  | true => exact compareEntries_flat flat'

variable {a b : Table K S}

/-- The same tables have the same values under a key. -/
theorem Equal.lookup (equal : Equal scalars a b) {k : K} {v : TableTree K S}
    (member : (k, v) ∈ a.entries.toList) : ∃ v', b.entries.lookup k = some v' ∧
      v.Same (fun s s' => scalars.eq s s' = true) v' := by
  rw [Equal, TableTree.Same, TableEntries.below_iff] at equal
  exact equal.1 k v member

theorem Equal.lookup' (equal : Equal scalars a b) {k : K} {v : TableTree K S}
    (member : (k, v) ∈ b.entries.toList) : ∃ v', a.entries.lookup k = some v' ∧
      v'.Same (fun s s' => scalars.eq s s' = true) v := by
  have key : k ∈ a.entries.keys := by
    rw [Equal, TableTree.Same] at equal
    exact equal.2 k (List.mem_map.mpr ⟨_, member, rfl⟩)
  cases found : a.entries.lookup k with
  | none => exact (TableEntries.lookup_eq_none.mp found key).elim
  | some v' =>
    obtain ⟨v'', found', same⟩ := equal.lookup (TableEntries.mem_of_lookup found)
    rw [TableEntries.lookup_of_mem b.distinct member] at found'
    cases found'
    exact ⟨v', rfl, same⟩

/-- A table that is the same as one is a table. -/
theorem truthy_of_same {R : S → S → Prop} {entries : TableEntries K S} {v : TableTree K S}
    (same : (TableTree.table entries).Same R v ∨ v.Same R (.table entries)) :
    truthy scalars v = true := by
  cases v with
  | table entries' => rfl
  | leaf s =>
    rw [TableTree.Same, TableTree.Same] at same
    exact same.elim False.elim False.elim

/-- Comparing the same tables ends in an error if there is a table in them. -/
theorem flat_of_equal (equal : Equal scalars a b) (agree : Agree scalars a.entries b.entries)
    (agree' : Agree scalars b.entries a.entries) : Flat a.entries ∧ Flat b.entries := by
  constructor
  · intro k v member
    cases v with
    | leaf s => exact ⟨s, rfl⟩
    | table entries =>
      obtain ⟨v', found, same⟩ := equal.lookup member
      have falsy := agree k _ member v' found
      rw [truthy_of_same (.inl same)] at falsy
      cases falsy
  · intro k v member
    cases v with
    | leaf s => exact ⟨s, rfl⟩
    | table entries =>
      obtain ⟨v', found, same⟩ := equal.lookup' member
      have falsy := agree' k _ member v' found
      rw [truthy_of_same (.inr same)] at falsy
      cases falsy

/-- Without tables in them, the same tables agree. -/
theorem agree_of_equal (equal : Equal scalars a b) (flat : Flat a.entries)
    (flat' : Flat b.entries) :
    Agree scalars a.entries b.entries ∧ Agree scalars b.entries a.entries := by
  constructor
  · intro k v member
    obtain ⟨s, rfl⟩ := flat k v member
    obtain ⟨v', found, same⟩ := equal.lookup member
    obtain ⟨s', rfl⟩ := flat' k v' (TableEntries.mem_of_lookup found)
    rw [TableTree.Same] at same
    rw [found, Agrees]
    refine ⟨s', rfl, ?_⟩
    rw [scalars.symm]
    exact same
  · intro k v member
    obtain ⟨s, rfl⟩ := flat' k v member
    obtain ⟨v', found, same⟩ := equal.lookup' member
    obtain ⟨s', rfl⟩ := flat k v' (TableEntries.mem_of_lookup found)
    rw [TableTree.Same] at same
    rw [found, Agrees]
    exact ⟨s', rfl, same⟩

/-- And tables that agree are the same. -/
theorem equal_of_agree (flat : Flat a.entries) (flat' : Flat b.entries)
    (agree : Agree scalars a.entries b.entries) (agree' : Agree scalars b.entries a.entries) :
    Equal scalars a b := by
  rw [Equal, TableTree.Same, TableEntries.below_iff]
  constructor
  · intro k v member
    obtain ⟨s, rfl⟩ := flat k v member
    obtain ⟨s', found, same⟩ := agree k _ member
    refine ⟨.leaf s', found, ?_⟩
    rw [TableTree.Same, scalars.symm]
    exact same
  · intro k key
    obtain ⟨entry, member, rfl⟩ := List.mem_map.mp key
    obtain ⟨s, leaf⟩ := flat' entry.1 entry.2 member
    have agrees := agree' entry.1 entry.2 member
    rw [leaf] at agrees
    obtain ⟨s', found, -⟩ := agrees
    by_contra missing
    rw [TableEntries.lookup_eq_none.mpr missing] at found
    cases found

/-- Before a loop ends at a difference, it has come to a value that is no table and has no equal one
under its key. -/
theorem DiffersFirst.leaf : ∀ {entries other : TableEntries K S},
    DiffersFirst scalars entries other →
    ∃ k s, (k, .leaf s) ∈ entries.toList ∧ ¬ Agrees scalars (.leaf s) (other.lookup k)
  | .cons k (.leaf s) rest, other, differs => by
    by_cases agrees : Agrees scalars (.leaf s) (other.lookup k)
    · obtain ⟨k', s', member, different⟩ := DiffersFirst.leaf (differs agrees)
      exact ⟨k', s', List.mem_cons_of_mem _ member, different⟩
    · exact ⟨k, s, List.mem_cons_self, agrees⟩
  | .cons k (.table entries) rest, other, differs => by
    obtain ⟨k', s', member, different⟩ := DiffersFirst.leaf differs.2
    exact ⟨k', s', List.mem_cons_of_mem _ member, different⟩

/-- A loop over one of two tables that are the same does not end at a difference. -/
theorem Equal.not_differsFirst (equal : Equal scalars a b) :
    ¬ DiffersFirst scalars a.entries b.entries ∧ ¬ DiffersFirst scalars b.entries a.entries := by
  constructor
  · intro differs
    obtain ⟨k, s, member, different⟩ := differs.leaf
    obtain ⟨v', found, same⟩ := equal.lookup member
    rw [found] at different
    cases v' with
    | table entries =>
      rw [TableTree.Same] at same
      exact same
    | leaf s' =>
      rw [TableTree.Same, scalars.symm] at same
      exact different ⟨s', rfl, same⟩
  · intro differs
    obtain ⟨k, s, member, different⟩ := differs.leaf
    obtain ⟨v', found, same⟩ := equal.lookup' member
    rw [found] at different
    cases v' with
    | table entries =>
      rw [TableTree.Same] at same
      exact same
    | leaf s' =>
      rw [TableTree.Same] at same
      exact different ⟨s', rfl, same⟩

/-- **`Table.clone` and `Table.compare`**: the one is right if and only if there is no table in the
table; the other one if and only if there is none in both of them, or one of its two loops comes to
a difference before it comes to a table that it has to compare. -/
theorem clone_compare_iff (scalars : Scalars S) (a b : Table K S) :
    (Cloned a ↔ Flat a.entries) ∧
      (Compared scalars a b ↔ (Flat a.entries ∧ Flat b.entries) ∨
        DiffersFirst scalars a.entries b.entries ∨
          (Agree scalars a.entries b.entries ∧ DiffersFirst scalars b.entries a.entries)) := by
  refine ⟨cloned_iff a, ?_⟩
  rw [← compare_eq_false, Compared]
  constructor
  · intro compared
    by_cases equal : Equal scalars a b
    · obtain ⟨agree, agree'⟩ := compare_eq_true.mp (compared.1 equal)
      exact .inl (flat_of_equal equal agree agree')
    · exact .inr (compared.2 equal)
  · intro condition
    rcases condition with ⟨flat, flat'⟩ | differs
    · constructor
      · intro equal
        exact compare_eq_true.mpr (agree_of_equal equal flat flat')
      · intro different
        obtain ⟨rst, compared⟩ :
            ∃ rst, compare scalars (.table a.entries) (.table b.entries) = .ok rst :=
          compare_flat flat flat'
        cases rst with
        | false => exact compared
        | true =>
          obtain ⟨agree, agree'⟩ := compare_eq_true.mp compared
          exact (different (equal_of_agree flat flat' agree agree')).elim
    · constructor
      · intro equal
        rcases compare_eq_false.mp differs with first | ⟨-, second⟩
        · exact (equal.not_differsFirst.1 first).elim
        · exact (equal.not_differsFirst.2 second).elim
      · intro _
        exact differs

end Comparisons

/-- Numbers and booleans, for the tables below. -/
def someScalars : Scalars (Nat ⊕ Bool) where
  eq s s' := decide (s = s')
  symm _ _ := decide_eq_decide.mpr eq_comm
  truthy s := s ≠ .inr false

/-- `{[1] = {}}` -/
def nested : Table Nat (Nat ⊕ Bool) where
  entries := .cons 1 (.table .nil) .nil
  distinct := by simp [TableEntries.Distinct, TableTree.Distinct, TableEntries.keys,
    TableEntries.toList]

/-- It is not copied, and it is taken for an empty table. -/
theorem nested_not_cloned :
    ¬ ∀ a b : Table Nat (Nat ⊕ Bool), Cloned a ∧ Compared someScalars a b := by
  intro correct
  have cloned : Cloned nested := (correct nested ⟨.nil, trivial⟩).1
  obtain ⟨c, copied, -⟩ := cloned
  cases copied

example : compare someScalars (.table nested.entries) (.table .nil) = .ok true := rfl

end RillServer.Tables
