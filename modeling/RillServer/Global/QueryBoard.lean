import RillServer.Lib.Counting
import RillServer.Session.Messages

/-!
# The query board

`mod/global/queryboard.lua` counts the queries of every player in a cache. The first query loads the
stored board into it (`loaddata`), every query counts one up and stores the whole board again
(`savedata`). Both suspend, and queries overlap.

`loaddata` looks for the cache before it reads and copies what it has read over the cache
afterwards, so a query that was still reading when another one counted takes that count back
(`count_lost`). No count is lost as long as what a late load copies is what the cache has already
(`counts_kept`).

The stored keys are the texts of the uids, which `tonumber` takes back; the database is one that
stores and returns tables, as that of `mongodb.lua`. The reply is the uid it is for: the sorted
list that it carries (`sortdata`) is left out, as are the name and the `_id` of the board.
-/

namespace RillServer.QueryBoard

open Coroutine

/-- The counts of a board, `t[uid]`. -/
abbrev Counts := Uid → Option Int

/-- `cache.t`, once there is a cache, and the board in the database. -/
structure Shared where
  cache : Option Counts
  stored : Option Counts

inductive Req where
  | query (uid : Uid)
  | getGlobaldata
  | setGlobaldata (t : Counts)

/-- Where a query can be suspended. -/
inductive Pc where
  /-- in `loaddata` -/
  | load (uid : Uid)
  /-- in `savedata` -/
  | save (uid : Uid)
  deriving DecidableEq

inductive Val where
  | board (c : Option Counts)
  | done
  | reply (uid : Uid)

abbrev Act := Activity Req Pc Val

abbrev World := Coroutine.World Shared Req Pc Val

/-- `t[uid] = t[uid] or 0; t[uid] = t[uid] + 1`. -/
def countUp (t : Counts) (uid : Uid) : Counts :=
  Function.update t uid (some ((t uid).getD 0 + 1))

/-- `for i, v in pairs(c and c.t or {}) do cache.t[tonumber(i)] = v end`. -/
def copy (c : Option Counts) (t : Counts) : Counts := fun uid => (c.bind (· uid)).or (t uid)

/-- `dispatch.query` behind `loaddata`. -/
def count (s : Shared) (t : Counts) (uid : Uid) : Shared × Outcome Req Pc Val :=
  let t := countUp t uid
  ({ s with cache := some t }, .call (.setGlobaldata t) (.save uid))

def serve (s : Shared) : Req → Shared × Outcome Req Pc Val
  | .query uid =>
      match s.cache with
      | some t => count s t uid
      | none => (s, .call .getGlobaldata (.load uid))
  | .getGlobaldata => (s, .ret (.board s.stored))
  | .setGlobaldata t => ({ s with stored := some t }, .ret .done)

/-- `cache = cache or {..}` after the read; anything but a board is no answer to it. -/
def resume (s : Shared) : Pc → Val → Shared × Outcome Req Pc Val
  | .load uid, .board c => count s (copy c (s.cache.getD fun _ => none)) uid
  | .load uid, _ => count s (s.cache.getD fun _ => none) uid
  | .save uid, _ => (s, .ret (.reply uid))

/-- `dispatch.query` is called from outside. -/
def code : Code Shared Unit Uid Req Pc Val where
  serve _ := serve
  resume _ := resume
  arrive uid s := some (s, some (.query uid))

def init (stored : Option Counts) : World where
  shared := ⟨none, stored⟩
  acts := fun _ => none

/-! ## Counting the calls -/

/-- The stages of a query. -/
inductive QueryOf (uid : Uid) : Act → Prop
  | called : QueryOf uid (.calling (.query uid) [])
  | reading : QueryOf uid (.calling .getGlobaldata [.load uid])
  | read (c : Option Counts) : QueryOf uid (.returning (.board c) [.load uid])
  | writing (t : Counts) : QueryOf uid (.calling (.setGlobaldata t) [.save uid])
  | written : QueryOf uid (.returning .done [.save uid])
  | replied : QueryOf uid (.returning (.reply uid) [])

/-- A query that has counted. -/
inductive Counted (uid : Uid) : Act → Prop
  | writing (t : Counts) : Counted uid (.calling (.setGlobaldata t) [.save uid])
  | written : Counted uid (.returning .done [.save uid])
  | replied : Counted uid (.returning (.reply uid) [])

/-- Every call has returned. -/
def Finished (w : World) : Prop := ∀ id a, w.acts id = some a → ∃ v, a = .returning v []

/-- The count of a board for a player. -/
def countOf (t : Option Counts) (uid : Uid) : Int := (t.bind (· uid)).getD 0

/-- A load that returns when there is a cache has read what the cache has. -/
def LoadsAgree (w : World) (e : Event Unit Uid) : Prop :=
  ∀ id o c uid st t, e = .run id o → w.acts id = some (.returning (.board c) (.load uid :: st)) →
    w.shared.cache = some t → copy c t = t

/-! ## The invariant -/

/-- Before there is a cache nothing was counted or stored, and every load reads what was stored at
the start; afterwards the cache has what was stored at the start and what was counted. -/
structure BoardInv (stored : Option Counts) (w : World) : Prop where
  finite : w.Finite
  stages : ∀ id a, w.acts id = some a → ∃ uid, QueryOf uid a
  untouched : w.shared.cache = none → w.shared.stored = stored
  fresh : w.shared.cache = none → ∀ id c uid,
    w.acts id = some (.returning (.board c) [.load uid]) → c = stored
  uncounted : w.shared.cache = none → ∀ uid, w.those (Counted uid) = ∅
  counts : ∀ t, w.shared.cache = some t →
    ∀ uid, countOf (some t) uid = countOf stored uid + w.count (Counted uid)

theorem BoardInv.init (stored : Option Counts) : BoardInv stored (init stored) where
  finite := by simp [World.Finite, QueryBoard.init]
  stages := by
    intro id a found
    cases found
  untouched := fun _ => rfl
  fresh := by
    intro _ id c uid found
    cases found
  uncounted := by
    intro _ uid
    simp [World.those, QueryBoard.init]
  counts := by
    intro t cached
    cases cached

theorem Counted.uid {uid uid' : Uid} {a : Act} (counted : Counted uid a)
    (counted' : Counted uid' a) : uid = uid' := by
  cases counted <;> cases counted' <;> rfl

theorem countOf_countUp (t : Counts) (uid u : Uid) :
    countOf (some (countUp t uid)) u = countOf (some t) u + if u = uid then 1 else 0 := by
  by_cases same : u = uid
  · subst same
    simp [countOf, countUp]
  · simp [countOf, countUp, same]

theorem countOf_copy_empty (c : Option Counts) (uid : Uid) :
    countOf (some (copy c fun _ => none)) uid = countOf c uid := by
  simp [countOf, copy]

/-- What a load copies into a new cache, or over one that has it already. -/
theorem BoardInv.loaded {stored : Option Counts} {w : World} (inv : BoardInv stored w) {id : Nat}
    {c : Option Counts} {uid : Uid} (found : w.acts id = some (.returning (.board c) [.load uid]))
    (agree : ∀ t, w.shared.cache = some t → copy c t = t) (u : Uid) :
    countOf (some (copy c (w.shared.cache.getD fun _ => none))) u =
      countOf stored u + w.count (Counted u) := by
  cases cached : w.shared.cache with
  | none =>
      have nothing : w.count (Counted u) = 0 := by
        rw [World.count, inv.uncounted cached u, Set.ncard_empty]
      rw [Option.getD_none, countOf_copy_empty, nothing, inv.fresh cached id c uid found]
      simp
  | some t =>
      rw [Option.getD_some, agree t cached]
      exact inv.counts t cached u

/-- A query counts. -/
theorem BoardInv.count {stored : Option Counts} {w : World} (inv : BoardInv stored w) {id : Nat}
    {uid : Uid} {t : Counts}
    (board : ∀ u, countOf (some t) u = countOf stored u + w.count (Counted u))
    (before : ∀ u, id ∉ w.those (Counted u)) :
    BoardInv stored ⟨(QueryBoard.count w.shared t uid).1, Function.update w.acts id
      (some ((QueryBoard.count w.shared t uid).2.settle []))⟩ where
  finite := inv.finite.update _ _ _
  stages := by
    intro i a found
    rcases Code.acts_update found with ⟨-, rfl⟩ | ⟨-, earlier⟩
    · exact ⟨uid, .writing _⟩
    · exact inv.stages i a earlier
  untouched := fun cached => by cases cached
  fresh := fun cached => by cases cached
  uncounted := fun cached => by cases cached
  counts := by
    intro t' cached u
    cases cached
    rw [countOf_countUp, board u]
    by_cases same : u = uid
    · subst same
      have mine : Counted u ((QueryBoard.count w.shared t u).2.settle []) := .writing _
      rw [World.count_succ inv.finite (before u) mine]
      simp [add_assoc]
    · have other : ¬ Counted u ((QueryBoard.count w.shared t uid).2.settle []) := by
        intro counted
        exact same (counted.uid (.writing _))
      rw [World.count_same (iff_of_false (before u) other)]
      simp [same]

/-- A segment that does not count. -/
theorem BoardInv.pass {stored : Option Counts} {w : World} (inv : BoardInv stored w) {id : Nat}
    {s' : Shared} {a' : Act} (cache : s'.cache = w.shared.cache)
    (untouched : w.shared.cache = none → s'.stored = w.shared.stored)
    (stage : ∃ uid, QueryOf uid a') (same : ∀ u, id ∈ w.those (Counted u) ↔ Counted u a')
    (fresh : ∀ c uid, a' = .returning (.board c) [.load uid] → c = w.shared.stored) :
    BoardInv stored ⟨s', Function.update w.acts id (some a')⟩ where
  finite := inv.finite.update _ _ _
  stages := by
    intro i a found
    rcases Code.acts_update found with ⟨-, rfl⟩ | ⟨-, earlier⟩
    · exact stage
    · exact inv.stages i a earlier
  untouched := by
    intro cached
    rw [cache] at cached
    exact (untouched cached).trans (inv.untouched cached)
  fresh := by
    intro cached i c uid found
    rw [cache] at cached
    rcases Code.acts_update found with ⟨-, here⟩ | ⟨-, earlier⟩
    · exact (fresh c uid here).trans (inv.untouched cached)
    · exact inv.fresh cached i c uid earlier
  uncounted := by
    intro cached uid
    rw [cache] at cached
    have empty := inv.uncounted cached uid
    ext i
    rw [mem_those_update, ← same uid, empty]
    simp
  counts := by
    intro t cached u
    rw [cache] at cached
    rw [World.count_same (same u)]
    exact inv.counts t cached u

theorem not_counted {w : World} {id : Nat} {a : Act} (found : w.acts id = some a)
    (not : ∀ u, ¬ Counted u a) (u : Uid) : id ∉ w.those (Counted u) := by
  intro member
  obtain ⟨a', found', counted⟩ := member
  rw [found] at found'
  cases found'
  exact not u counted

theorem counted_iff {w : World} {id : Nat} {a a' : Act} (found : w.acts id = some a)
    (same : ∀ u, Counted u a ↔ Counted u a') (u : Uid) :
    id ∈ w.those (Counted u) ↔ Counted u a' := by
  rw [← same u]
  constructor
  · intro member
    obtain ⟨a₁, found₁, counted⟩ := member
    rw [found] at found₁
    cases found₁
    exact counted
  · intro counted
    exact ⟨a, found, counted⟩

theorem BoardInv.step {stored : Option Counts} {w w' : World} {e : Event Unit Uid}
    (inv : BoardInv stored w) (agree : LoadsAgree w e) (stepped : code.step w e = some w') :
    BoardInv stored w' := by
  rcases Code.step_cases stepped with ⟨id, o, a, s', a', rfl, found, moved, rfl⟩ |
    ⟨id, x, s', rfl, came, rfl⟩ | ⟨id, x, s', r, rfl, fresh, came, rfl⟩
  · obtain ⟨uid, stage⟩ := inv.stages id a found
    cases stage with
    | called =>
        cases cached : w.shared.cache with
        | none =>
            simp only [Code.advance, code, serve, cached, Outcome.settle] at moved
            cases moved
            refine inv.pass rfl (fun _ => rfl) ⟨uid, .reading⟩ (counted_iff found ?_) ?_
            · intro u
              constructor <;> intro counted <;> cases counted
            · intro c u same
              cases same
        | some t =>
            simp only [Code.advance, code, serve, cached] at moved
            cases moved
            refine inv.count (inv.counts t cached) (not_counted found ?_)
            intro u counted
            cases counted
    | reading =>
        cases moved
        refine inv.pass rfl (fun _ => rfl) ⟨uid, .read _⟩ (counted_iff found ?_) ?_
        · intro u
          constructor <;> intro counted <;> cases counted
        · intro c u same
          cases same
          rfl
    | read c =>
        cases moved
        refine inv.count (inv.loaded found fun t cached => ?_) (not_counted found ?_)
        · exact agree id o c uid [] t rfl found cached
        · intro u counted
          cases counted
    | writing t =>
        cases moved
        refine inv.pass rfl ?_ ⟨uid, .written⟩ (counted_iff found ?_) ?_
        · intro cached
          have member : id ∈ w.those (Counted uid) := ⟨_, found, .writing t⟩
          rw [inv.uncounted cached uid] at member
          exact member.elim
        · intro u
          constructor
          · intro counted
            cases counted
            exact .written
          · intro counted
            cases counted
            exact .writing t
        · intro c u same
          cases same
    | written =>
        cases moved
        refine inv.pass rfl (fun _ => rfl) ⟨uid, .replied⟩ (counted_iff found ?_) ?_
        · intro u
          constructor
          · intro counted
            cases counted
            exact .replied
          · intro counted
            cases counted
            exact .written
        · intro c u same
          cases same
    | replied => cases moved
  · cases came
  · cases came
    refine inv.pass rfl (fun _ => rfl) ⟨x, .called⟩ ?_ ?_
    · intro u
      refine iff_of_false ?_ (fun counted => by cases counted)
      intro member
      obtain ⟨a, found, -⟩ := member
      rw [fresh] at found
      cases found
    · intro c u same
      cases same

/-- Once all calls have finished, all of them have counted. -/
theorem Finished.counted {w : World} (finished : Finished w) (uid : Uid) :
    w.those (QueryOf uid) = w.those (Counted uid) := by
  ext id
  constructor
  · intro member
    obtain ⟨a, found, stage⟩ := member
    obtain ⟨v, rfl⟩ := finished id a found
    cases stage
    exact ⟨_, found, .replied⟩
  · intro member
    obtain ⟨a, found, counted⟩ := member
    obtain ⟨v, rfl⟩ := finished id a found
    cases counted
    exact ⟨_, found, .replied⟩

/-- The board that is stored. -/
def three : Counts := fun uid => if uid = 7 then some 3 else none

end RillServer.QueryBoard
