import Mathlib.Data.List.Nodup

/-!
# Trees of tables

Tables whose values are leaves or tables again, with the entries of each table in some order.
`Same` is equality of the tables as maps at every level, whatever the order of the entries and with
some relation between leaves; a table in which each key stands once is the same as itself
(`TableTree.same_refl`).
-/

variable (K S : Type)

mutual

/-- A leaf or a table. -/
inductive TableTree where
  | leaf (s : S)
  | table (entries : TableEntries)

/-- The entries of a table, in the order in which they are traversed. -/
inductive TableEntries where
  | nil
  | cons (k : K) (v : TableTree) (rest : TableEntries)

end

variable {K S}

namespace TableEntries

def toList : TableEntries K S → List (K × TableTree K S)
  | nil => []
  | cons k v rest => (k, v) :: rest.toList

def keys (entries : TableEntries K S) : List K := entries.toList.map Prod.fst

/-- The value of a key. -/
def lookup [DecidableEq K] (key : K) : TableEntries K S → Option (TableTree K S)
  | nil => none
  | cons k v rest => if key = k then some v else rest.lookup key

end TableEntries

mutual

/-- Something holds of each key and of each leaf. -/
def TableTree.Forall (P : K → Prop) (Q : S → Prop) : TableTree K S → Prop
  | .leaf s => Q s
  | .table entries => entries.Forall P Q

def TableEntries.Forall (P : K → Prop) (Q : S → Prop) : TableEntries K S → Prop
  | .nil => True
  | .cons k v rest => P k ∧ v.Forall P Q ∧ rest.Forall P Q

end

mutual

/-- Each key stands once in its table. -/
def TableTree.Distinct : TableTree K S → Prop
  | .leaf _ => True
  | .table entries => entries.Distinct

def TableEntries.Distinct : TableEntries K S → Prop
  | .nil => True
  | .cons k v rest => k ∉ rest.keys ∧ v.Distinct ∧ rest.Distinct

end

variable [DecidableEq K]

mutual

/-- Leaves that are related, or tables with the same keys and the same values under them. -/
def TableTree.Same (R : S → S → Prop) : TableTree K S → TableTree K S → Prop
  | .leaf s, .leaf s' => R s s'
  | .table entries, .table entries' =>
    entries.Below R entries' ∧ ∀ k ∈ entries'.keys, k ∈ entries.keys
  | .leaf _, .table _ | .table _, .leaf _ => False

/-- What stands in the one table stands in the other as well. -/
def TableEntries.Below (R : S → S → Prop) : TableEntries K S → TableEntries K S → Prop
  | .nil, _ => True
  | .cons k v rest, entries =>
    (∃ v', entries.lookup k = some v' ∧ v.Same R v') ∧ rest.Below R entries

end

namespace TableEntries

variable {k : K} {v : TableTree K S}

theorem lookup_eq_none : ∀ {entries : TableEntries K S}, entries.lookup k = none ↔ k ∉ entries.keys
  | .nil => by simp [lookup, keys, toList]
  | .cons k' v rest => by
    have later : rest.lookup k = none ↔ k ∉ rest.keys := lookup_eq_none
    rw [lookup]
    split
    · rename_i same
      simp [keys, toList, same]
    · rename_i other
      rw [later]
      simp [keys, toList, other]

theorem mem_of_lookup : ∀ {entries : TableEntries K S}, entries.lookup k = some v →
    (k, v) ∈ entries.toList
  | .cons k' v' rest, found => by
    rw [lookup] at found
    split at found
    · rename_i same
      cases found
      rw [same]
      exact List.mem_cons_self
    · exact List.mem_cons_of_mem _ (mem_of_lookup found)

theorem lookup_of_mem : ∀ {entries : TableEntries K S}, entries.Distinct → (k, v) ∈ entries.toList →
    entries.lookup k = some v
  | .cons k' v' rest, distinct, member => by
    obtain ⟨missing, -, distinct'⟩ := distinct
    rw [lookup]
    rcases List.mem_cons.mp member with here | later
    · cases here
      rw [if_pos rfl]
    · have other : k ≠ k' := by
        intro same
        rw [← same] at missing
        exact missing (List.mem_map.mpr ⟨_, later, rfl⟩)
      rw [if_neg other]
      exact lookup_of_mem distinct' later

theorem below_iff {R : S → S → Prop} : ∀ {entries entries' : TableEntries K S},
    entries.Below R entries' ↔
      ∀ k v, (k, v) ∈ entries.toList → ∃ v', entries'.lookup k = some v' ∧ v.Same R v'
  | .nil, _ => by simp [Below, toList]
  | .cons k v rest, entries' => by
    have later : rest.Below R entries' ↔ ∀ k v, (k, v) ∈ rest.toList →
        ∃ v', entries'.lookup k = some v' ∧ v.Same R v' := below_iff
    rw [Below, later, toList]
    constructor
    · intro below k' v' member
      rcases List.mem_cons.mp member with here | there
      · cases here
        exact below.1
      · exact below.2 k' v' there
    · intro below
      exact ⟨below k v List.mem_cons_self,
        fun k' v' member => below k' v' (List.mem_cons_of_mem _ member)⟩

end TableEntries

mutual

/-- A tree is the same as itself. -/
theorem TableTree.same_refl {R : S → S → Prop} (reflexive : ∀ s, R s s) :
    ∀ {t : TableTree K S}, t.Distinct → t.Same R t
  | .leaf s, _ => by
    rw [TableTree.Same]
    exact reflexive s
  | .table entries, distinct => by
    rw [TableTree.Same]
    refine ⟨?_, fun k member => member⟩
    rw [TableEntries.below_iff]
    intro k v member
    rw [TableTree.Distinct] at distinct
    exact ⟨v, TableEntries.lookup_of_mem distinct member,
      TableEntries.same_refl reflexive distinct k v member⟩

theorem TableEntries.same_refl {R : S → S → Prop} (reflexive : ∀ s, R s s) :
    ∀ {entries : TableEntries K S}, entries.Distinct →
      ∀ k v, (k, v) ∈ entries.toList → v.Same R v
  | .cons k v rest, distinct, k', v', member => by
    obtain ⟨-, distinctV, distinct'⟩ := distinct
    rcases List.mem_cons.mp member with here | later
    · cases here
      exact TableTree.same_refl reflexive distinctV
    · exact TableEntries.same_refl reflexive distinct' k' v' later

end
