import RillServer.Lib.Coroutine

/-!
# Saves that fail

`save_agent_info` and `check_save_agent_info` of `mod/agent/agent_info.lua`, with the calls of
`libdbproxy.set_playerdata` that may fail or raise. A pass goes over the tables of the player, and
a table whose hash is not the remembered one is written: the hash is remembered first, then the
call is made, which suspends the pass. A call that raises ends the pass.

Timeouts of `check_save_agent_info` and the save of a logout start passes at any time, so passes may
overlap, and the data may change at any time. A table is missed by a pass that goes past it although
the database has something else (`Missed`). This happens after every call that did not write, as
the hash is remembered all the same (`failed_save_not_retried`). It does not happen as long as
passes go past tables only whose last call has written (`no_save_missed`).

The keys of `other_info` are those of `runconf.playerdata`; `keys` lists them in the order of
`pairs`. The hash is a parameter here.
-/

namespace RillServer.SaveRetry

open Coroutine

variable {K D H : Type}

/-- An entry of `other_info`. -/
structure Info (D H : Type) where
  data : D
  hashcode : Option H

/-- `other_info`, and what the source does not have: the data that `set_playerdata` has written, and
whether its last call for a table ended without writing. -/
structure Shared (K D H : Type) where
  otherInfo : K → Info D H
  written : K → Option D
  failed : K → Bool

/-- A pass, or a call of `set_playerdata`. -/
inductive Req (K D : Type) where
  | save
  | setPlayerdata (key : K) (data : D)
  deriving DecidableEq

/-- Where a pass can be suspended: in the call for a table, with the tables that are left. -/
inductive Pc (K : Type) where
  | saving (key : K) (rest : List K)
  deriving DecidableEq

inductive Val where
  | done
  | failed
  | raise
  deriving DecidableEq

/-- How a call of `set_playerdata` ends. -/
inductive Ora where
  | writes
  | fails
  | raises
  deriving DecidableEq

/-- A timeout or a logout starts a pass; the data of a table changes. -/
inductive Env (K D : Type) where
  | start
  | edit (key : K) (data : D)
  deriving DecidableEq

abbrev World (K D H : Type) := Coroutine.World (Shared K D H) (Req K D) (Pc K) Val

abbrev Out (K D : Type) := Outcome (Req K D) (Pc K) Val

section Code

variable [DecidableEq K] [DecidableEq H] (hash : D → H) (keys : List K)

/-- The remembered hash of a table is that of its data. -/
def unchanged (s : Shared K D H) (k : K) : Bool :=
  (s.otherInfo k).hashcode = some (hash (s.otherInfo k).data)

/-- `v.hashcode = now_code`. -/
def remember (s : Shared K D H) (k : K) : Shared K D H :=
  let v := s.otherInfo k
  { s with otherInfo := Function.update s.otherInfo k { v with hashcode := some (hash v.data) } }

/-- The loop of `save_agent_info`, from some table on up to the next call. -/
def visit (s : Shared K D H) : List K → Shared K D H × Out K D
  | [] => (s, .ret .done)
  | k :: rest =>
      if unchanged hash s k then visit s rest
      else
        (remember hash s k, .call (.setPlayerdata k (s.otherInfo k).data) (.saving k rest))

/-- `libdbproxy.set_playerdata`. -/
def setPlayerdata (s : Shared K D H) (k : K) (d : D) : Ora → Shared K D H × Val
  | .writes =>
      ({ s with
          written := Function.update s.written k (some d)
          failed := Function.update s.failed k false }, .done)
  | .fails => ({ s with failed := Function.update s.failed k true }, .failed)
  | .raises => ({ s with failed := Function.update s.failed k true }, .raise)

def code : Code (Shared K D H) Ora (Env K D) (Req K D) (Pc K) Val where
  serve o s
    | .save => visit hash s keys
    | .setPlayerdata k d =>
        let (s, v) := setPlayerdata s k d o
        (s, .ret v)
  resume _ s
    | .saving _ _, .raise => (s, .ret .raise)
    | .saving _ rest, _ => visit hash s rest
  arrive
    | .start, s => some (s, some .save)
    | .edit k d, s =>
        some ({ s with otherInfo := Function.update s.otherInfo k { s.otherInfo k with data := d } },
          none)

/-- The data was just loaded. -/
def init (data : K → D) (written : K → Option D) : World K D H where
  shared := ⟨fun k => ⟨data k, none⟩, written, fun _ => false⟩
  acts := fun _ => none

/-- The database has other data than the table, and the hash tells them apart. -/
def Due (s : Shared K D H) (k : K) : Prop :=
  (s.written k).map hash ≠ some (hash (s.otherInfo k).data)

/-- With this event a pass goes past a table: its hash has not changed, or a call has raised. -/
inductive GoesPast (w : World K D H) : Event Ora (Env K D) → K → Prop
  | started {id : Nat} {o : Ora} {st : List (Pc K)} {k : K} :
    w.acts id = some (.calling .save st) → k ∈ keys.takeWhile (unchanged hash w.shared) →
    GoesPast w (.run id o) k
  | resumed {id : Nat} {o : Ora} {v : Val} {k' : K} {rest : List K} {st : List (Pc K)} {k : K} :
    w.acts id = some (.returning v (.saving k' rest :: st)) → v ≠ .raise →
    k ∈ rest.takeWhile (unchanged hash w.shared) → GoesPast w (.run id o) k
  | raised {id : Nat} {o : Ora} {k' : K} {rest : List K} {st : List (Pc K)} {k : K} :
    w.acts id = some (.returning .raise (.saving k' rest :: st)) → k ∈ rest →
    GoesPast w (.run id o) k

end Code

/-- A call of `set_playerdata` for the table is under way. -/
def UnderWay (w : World K D H) (k : K) : Prop :=
  ∃ id d st, w.acts id = some (.calling (.setPlayerdata k d) st)

section Safety

variable [DecidableEq K] [DecidableEq H] (hash : D → H) (keys : List K)

/-- With this event a pass calls `set_playerdata` for a table. -/
inductive Calls (w : World K D H) : Event Ora (Env K D) → K → Prop
  | started {id : Nat} {o : Ora} {st : List (Pc K)} {k : K} :
    w.acts id = some (.calling .save st) →
    (keys.dropWhile (unchanged hash w.shared)).head? = some k → Calls w (.run id o) k
  | resumed {id : Nat} {o : Ora} {v : Val} {k' : K} {rest : List K} {st : List (Pc K)} {k : K} :
    w.acts id = some (.returning v (.saving k' rest :: st)) → v ≠ .raise →
    (rest.dropWhile (unchanged hash w.shared)).head? = some k → Calls w (.run id o) k

/-- A pass goes past a table only if its hash has not changed and its last call, if any, has
written; and it makes no call for a table while another is under way. -/
structure SavesSafely (w : World K D H) (e : Event Ora (Env K D)) : Prop where
  past : ∀ k, GoesPast hash keys w e k →
    unchanged hash w.shared k = true ∧ w.shared.failed k = false ∧ ¬ UnderWay w k
  alone : ∀ k, Calls hash keys w e k → ¬ UnderWay w k

variable {hash keys}

/-- A pass ends, or remembers the hash of the first table that has changed and calls. -/
theorem visit_cases (hash : D → H) (s : Shared K D H) (ks : List K) :
    visit hash s ks = (s, .ret .done) ∨
      ∃ k rest, (ks.dropWhile (unchanged hash s)).head? = some k ∧
        visit hash s ks = (remember hash s k,
          .call (.setPlayerdata k (s.otherInfo k).data) (.saving k rest)) := by
  induction ks with
  | nil => exact .inl rfl
  | cons k rest ih =>
      cases same : unchanged hash s k with
      | true => simpa [visit, same] using ih
      | false => exact .inr ⟨k, rest, by simp [same], by simp [visit, same]⟩

/-- The remembered hash is that of what was written, unless the last call is still under way or has
not written; a call under way carries the data of the remembered hash, and is the only one. -/
structure SaveInv (hash : D → H) (w : World K D H) : Prop where
  stored : ∀ k h, w.shared.failed k = false → ¬ UnderWay w k →
    (w.shared.otherInfo k).hashcode = some h → (w.shared.written k).map hash = some h
  carried : ∀ id k d st, w.acts id = some (.calling (.setPlayerdata k d) st) →
    (w.shared.otherInfo k).hashcode = some (hash d)
  single : ∀ id id' k d d' st st', w.acts id = some (.calling (.setPlayerdata k d) st) →
    w.acts id' = some (.calling (.setPlayerdata k d') st') → id = id'

omit [DecidableEq K] [DecidableEq H] in
theorem SaveInv.init (data : K → D) (written : K → Option D) :
    SaveInv hash (init data written) := by
  refine ⟨?_, ?_, ?_⟩
  · intro k h _ _ remembered
    cases remembered
  · intro id k d st found
    cases found
  · intro id id' k d d' st st' found
    cases found

omit [DecidableEq K] [DecidableEq H] in
/-- An activity with no call under way, before and after, is not noticed. -/
theorem SaveInv.keep {w : World K D H} (inv : SaveInv hash w) {id : Nat}
    {a' : Activity (Req K D) (Pc K) Val}
    (idle : ∀ k d st, w.acts id ≠ some (.calling (.setPlayerdata k d) st))
    (idle' : ∀ k d st, a' ≠ .calling (.setPlayerdata k d) st) :
    SaveInv hash ⟨w.shared, Function.update w.acts id (some a')⟩ := by
  have earlier : ∀ {id' k d st}, Function.update w.acts id (some a') id' =
      some (.calling (.setPlayerdata k d) st) →
      w.acts id' = some (.calling (.setPlayerdata k d) st) := by
    intro id' k d st found
    rcases Code.acts_update found with ⟨-, same⟩ | ⟨-, before⟩
    · exact (idle' k d st same).elim
    · exact before
  have later : ∀ {k}, UnderWay w k →
      UnderWay ⟨w.shared, Function.update w.acts id (some a')⟩ k := by
    intro k underWay
    obtain ⟨id', d, st, found⟩ := underWay
    have other : id' ≠ id := by
      intro same
      subst same
      exact idle k d st found
    exact ⟨id', d, st, (Function.update_of_ne other _ _).trans found⟩
  refine ⟨?_, ?_, ?_⟩
  · intro k h written quiet remembered
    exact inv.stored k h written (fun underWay => quiet (later underWay)) remembered
  · intro id' k d st found
    exact inv.carried id' k d st (earlier found)
  · intro id₁ id₂ k d d' st st' found found'
    exact inv.single id₁ id₂ k d d' st st' (earlier found) (earlier found')

omit [DecidableEq H] in
/-- A pass remembers the hash of a table and calls. -/
theorem SaveInv.call {w : World K D H} (inv : SaveInv hash w) {id : Nat} {k : K}
    {stack : List (Pc K)} (quiet : ¬ UnderWay w k)
    (idle : ∀ k d st, w.acts id ≠ some (.calling (.setPlayerdata k d) st)) :
    SaveInv hash ⟨remember hash w.shared k, Function.update w.acts id
      (some (.calling (.setPlayerdata k (w.shared.otherInfo k).data) stack))⟩ := by
  have mine : UnderWay ⟨remember hash w.shared k, Function.update w.acts id
      (some (.calling (.setPlayerdata k (w.shared.otherInfo k).data) stack))⟩ k :=
    ⟨id, _, stack, Function.update_self ..⟩
  have code : ∀ {k'}, k' ≠ k →
      (remember hash w.shared k).otherInfo k' = w.shared.otherInfo k' :=
    fun other => Function.update_of_ne other _ _
  refine ⟨?_, ?_, ?_⟩
  · intro k' h written quiet' remembered
    have other : k' ≠ k := fun same => quiet' (same ▸ mine)
    rw [code other] at remembered
    refine inv.stored k' h written (fun underWay => quiet' ?_) remembered
    obtain ⟨id', d, st, found⟩ := underWay
    have elsewhere : id' ≠ id := fun same => idle k' d st (same ▸ found)
    exact ⟨id', d, st, (Function.update_of_ne elsewhere _ _).trans found⟩
  · intro id' k' d st found
    rcases Code.acts_update found with ⟨-, same⟩ | ⟨-, before⟩
    · cases same
      simp [remember]
    · have other : k' ≠ k := fun equal => quiet (equal ▸ ⟨id', d, st, before⟩)
      rw [code other]
      exact inv.carried id' k' d st before
  · intro id₁ id₂ k' d d' st st' found found'
    rcases Code.acts_update found with ⟨here, same⟩ | ⟨-, before⟩
    · rcases Code.acts_update found' with ⟨here', -⟩ | ⟨-, before'⟩
      · rw [here, here']
      · cases same
        exact (quiet ⟨id₂, d', st', before'⟩).elim
    · rcases Code.acts_update found' with ⟨-, same'⟩ | ⟨-, before'⟩
      · cases same'
        exact (quiet ⟨id₁, d, st, before⟩).elim
      · exact inv.single id₁ id₂ k' d d' st st' before before'

omit [DecidableEq H] in
/-- A call comes to its end. -/
theorem SaveInv.answer {w : World K D H} (inv : SaveInv hash w) {id : Nat} {k : K} {d : D}
    {st : List (Pc K)} (found : w.acts id = some (.calling (.setPlayerdata k d) st)) (o : Ora) :
    SaveInv hash ⟨(setPlayerdata w.shared k d o).1, Function.update w.acts id
      (some (.returning (setPlayerdata w.shared k d o).2 st))⟩ := by
  have info : (setPlayerdata w.shared k d o).1.otherInfo = w.shared.otherInfo := by cases o <;> rfl
  have earlier : ∀ {id' k' d' st'}, Function.update w.acts id
      (some (.returning (setPlayerdata w.shared k d o).2 st)) id' =
      some (.calling (.setPlayerdata k' d') st') →
      w.acts id' = some (.calling (.setPlayerdata k' d') st') := by
    intro id' k' d' st' calls
    rcases Code.acts_update calls with ⟨-, same⟩ | ⟨-, before⟩
    · cases same
    · exact before
  refine ⟨?_, ?_, ?_⟩
  · intro k' h written quiet remembered
    rw [info] at remembered
    by_cases same : k' = k
    · subst same
      cases o with
      | writes =>
          have carried := inv.carried id k' d st found
          rw [carried] at remembered
          simpa [setPlayerdata] using remembered
      | fails => simp [setPlayerdata] at written
      | raises => simp [setPlayerdata] at written
    · have quietBefore : ¬ UnderWay w k' := by
        intro underWay
        obtain ⟨id', d', st', calls⟩ := underWay
        have elsewhere : id' ≠ id := by
          intro equal
          subst equal
          rw [found] at calls
          cases calls
          exact same rfl
        exact quiet ⟨id', d', st', (Function.update_of_ne elsewhere _ _).trans calls⟩
      have stored := inv.stored k' h
      cases o <;> simp_all [setPlayerdata, Function.update_of_ne]
  · intro id' k' d' st' calls
    rw [info]
    exact inv.carried id' k' d' st' (earlier calls)
  · intro id₁ id₂ k' d₁ d₂ st₁ st₂ calls calls'
    exact inv.single id₁ id₂ k' d₁ d₂ st₁ st₂ (earlier calls) (earlier calls')

/-- A pass moves on, from the call of `save_agent_info` or from the answer to a call. -/
theorem SaveInv.visit {w : World K D H} (inv : SaveInv hash w) {id : Nat} (ks : List K)
    (st : List (Pc K)) (idle : ∀ k d st, w.acts id ≠ some (.calling (.setPlayerdata k d) st))
    (alone : ∀ k, (ks.dropWhile (unchanged hash w.shared)).head? = some k → ¬ UnderWay w k) :
    SaveInv hash ⟨(visit hash w.shared ks).1, Function.update w.acts id
      (some ((visit hash w.shared ks).2.settle st))⟩ := by
  rcases visit_cases hash w.shared ks with done | ⟨k, rest, first, calls⟩
  · rw [done]
    exact inv.keep idle fun k d st same => by cases same
  · rw [calls]
    exact inv.call (alone k first) idle

theorem SaveInv.step {w w' : World K D H} {e : Event Ora (Env K D)} (inv : SaveInv hash w)
    (safe : SavesSafely hash keys w e) (stepped : (code hash keys).step w e = some w') :
    SaveInv hash w' := by
  rcases Code.step_cases stepped with ⟨id, o, a, s', a', rfl, found, moved, rfl⟩ |
    ⟨id, x, s', rfl, came, rfl⟩ | ⟨id, x, s', r, rfl, fresh, came, rfl⟩
  · rcases Code.advance_cases moved with ⟨r, st, out, rfl, ran, rfl⟩ |
      ⟨v, pc, st, out, rfl, ran, rfl⟩
    · cases r with
      | save =>
          obtain ⟨rfl, rfl⟩ := Prod.mk.inj ran
          exact inv.visit keys st (fun k d st' same => by rw [found] at same; cases same)
            fun k first => safe.alone k (.started found first)
      | setPlayerdata k d =>
          obtain ⟨rfl, rfl⟩ := Prod.mk.inj ran
          exact inv.answer found o
    · obtain ⟨k, rest⟩ := pc
      have idle : ∀ k d st, w.acts id ≠ some (.calling (.setPlayerdata k d) st) := by
        intro k d st' same
        rw [found] at same
        cases same
      by_cases raised : v = .raise
      · subst raised
        obtain ⟨rfl, rfl⟩ := Prod.mk.inj ran
        exact inv.keep idle fun k d st' same => by cases same
      · have visits : (code hash keys).resume o w.shared (.saving k rest) v =
            SaveRetry.visit hash w.shared rest := by
          cases v with
          | done => rfl
          | failed => rfl
          | raise => exact (raised rfl).elim
        rw [visits] at ran
        obtain ⟨rfl, rfl⟩ := Prod.mk.inj ran
        exact inv.visit rest st idle fun k first => safe.alone k (.resumed found raised first)
  · cases x with
    | start => cases came
    | edit k d =>
        cases came
        refine ⟨?_, ?_, inv.single⟩
        · intro k' h written quiet remembered
          apply inv.stored k' h written quiet
          by_cases same : k' = k
          · subst same
            simpa using remembered
          · simpa [Function.update_of_ne same] using remembered
        · intro id' k' d' st calls
          have carried := inv.carried id' k' d' st calls
          by_cases same : k' = k
          · subst same
            simpa using carried
          · simpa [Function.update_of_ne same] using carried
  · cases x with
    | edit k d => cases came
    | start =>
        cases came
        exact inv.keep (fun k d st same => by rw [fresh] at same; cases same)
          fun k d st same => by cases same

variable (hash keys)

end Safety

end RillServer.SaveRetry
