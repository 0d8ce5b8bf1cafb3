import RillServer.Lib.Coroutine
import Mathlib.Data.Set.Card

/-!
# Counting activities

How many activities of a world are of some kind. Only finitely many have begun in a world that was
reached from one without activities, so that the number goes up by one when an activity becomes one
of the kind (`World.count_succ`) and stays when none enters or leaves it (`World.count_same`).
-/

namespace Coroutine

variable {σ Ora Env Req Pc Val : Type}

/-- The activities of a kind. -/
def World.those (w : World σ Req Pc Val) (kind : Activity Req Pc Val → Prop) : Set Nat :=
  {id | ∃ a, w.acts id = some a ∧ kind a}

/-- The number of activities of a kind. -/
noncomputable def World.count (w : World σ Req Pc Val) (kind : Activity Req Pc Val → Prop) : Nat :=
  (w.those kind).ncard

/-- Finitely many activities have begun. -/
def World.Finite (w : World σ Req Pc Val) : Prop := {id | w.acts id ≠ none}.Finite

theorem World.Finite.those {w : World σ Req Pc Val} (finite : w.Finite)
    (kind : Activity Req Pc Val → Prop) : (w.those kind).Finite := by
  apply finite.subset
  intro id found
  obtain ⟨a, begun, -⟩ := found
  simp [begun]

theorem World.Finite.update {w : World σ Req Pc Val} (finite : w.Finite) (s' : σ) (id : Nat)
    (a' : Activity Req Pc Val) : World.Finite ⟨s', Function.update w.acts id (some a')⟩ := by
  apply (finite.insert id).subset
  intro i begun
  by_cases same : i = id
  · exact .inl same
  · refine .inr ?_
    have earlier : Function.update w.acts id (some a') i ≠ none := begun
    rwa [Function.update_of_ne same] at earlier

theorem mem_those_update {w : World σ Req Pc Val} {s' : σ} {id i : Nat}
    {a' : Activity Req Pc Val} {kind : Activity Req Pc Val → Prop} :
    i ∈ World.those ⟨s', Function.update w.acts id (some a')⟩ kind ↔
      (i = id ∧ kind a') ∨ (i ≠ id ∧ i ∈ w.those kind) := by
  constructor
  · intro member
    obtain ⟨a, found, good⟩ := member
    rcases Code.acts_update found with ⟨same, rfl⟩ | ⟨other, before⟩
    · exact .inl ⟨same, good⟩
    · exact .inr ⟨other, a, before, good⟩
  · intro cases
    rcases cases with ⟨rfl, good⟩ | ⟨other, a, before, good⟩
    · exact ⟨a', Function.update_self .., good⟩
    · exact ⟨a, (Function.update_of_ne other _ _).trans before, good⟩

/-- An activity that is of the kind before and after, or neither, does not change the number. -/
theorem World.count_same {w : World σ Req Pc Val} {s' : σ} {id : Nat}
    {a' : Activity Req Pc Val} {kind : Activity Req Pc Val → Prop}
    (same : id ∈ w.those kind ↔ kind a') :
    World.count ⟨s', Function.update w.acts id (some a')⟩ kind = w.count kind := by
  unfold World.count
  congr 1
  ext i
  rw [mem_those_update]
  by_cases here : i = id
  · subst here
    simp [same]
  · simp [here]

/-- An activity that becomes one of the kind. -/
theorem World.count_succ {w : World σ Req Pc Val} (finite : w.Finite) {s' : σ} {id : Nat}
    {a' : Activity Req Pc Val} {kind : Activity Req Pc Val → Prop}
    (before : id ∉ w.those kind) (after : kind a') :
    World.count ⟨s', Function.update w.acts id (some a')⟩ kind = w.count kind + 1 := by
  have grown : World.those ⟨s', Function.update w.acts id (some a')⟩ kind =
      insert id (w.those kind) := by
    ext i
    rw [mem_those_update, Set.mem_insert_iff]
    by_cases here : i = id
    · simp [here, after]
    · simp [here]
  rw [World.count, grown, Set.ncard_insert_of_notMem before (finite.those kind), World.count]

end Coroutine
