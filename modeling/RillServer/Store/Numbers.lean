import RillServer.Store.Counter

/-!
# Numbers do not repeat

The invariant behind `numbers_distinct`. A number that was returned is stored: its name has a row,
and every row of the name has this number or a later one. The allocations of a name that wait for
their updates have their numbers in the order of their tickets, all above the numbers of those that
do not wait any more, so that an update never stores a smaller number over a larger one. An
allocation whose update found no row is the only one of its name.
-/

namespace RillServer.Counter

open Coroutine

/-- The number is stored for the name: there is a row, and every row has this number or a later
one. -/
def Held (rows : List KeyRow) (cname : Cname) (uuid : Int) : Prop :=
  ¬ Mysql.Absent KeyRow.keyName rows cname ∧
    ∀ row ∈ rows, row.keyName = cname → uuid ≤ row.uuid

/-- What a query for the name may give: one of its rows, if there is one. -/
def Found (rows : List KeyRow) (cname : Cname) : Option KeyRow → Prop
  | none => Mysql.Absent KeyRow.keyName rows cname
  | some row => row ∈ rows ∧ row.keyName = cname

theorem found_findOne (choice : Mysql.Choice KeyRow) (rows : List KeyRow) (cname : Cname) :
    Found rows cname (Mysql.findOne KeyRow.keyName choice rows cname) := by
  cases found : Mysql.findOne KeyRow.keyName choice rows cname with
  | none => exact Mysql.absent_iff_findOne.mpr found
  | some row => exact Mysql.of_findOne found

/-- What is known of an allocation by itself. -/
structure AllocationOk (s : Shared) (cname : Cname) (uuid : Int) (phase : Phase) : Prop where
  counted : uuid ≤ s.uuid cname
  fresh : (cname, uuid) ∉ s.returned
  waiting : ∀ ticket, phase = .waiting ticket →
    ticket < s.sent ∧ ∀ u, (cname, u) ∈ s.returned → u < uuid
  missing : phase = .missing → Mysql.Absent KeyRow.keyName s.rows cname
  stored : phase = .stored → Held s.rows cname uuid

/-- What is known of two allocations for one name: they are in the order of their tickets, and those
that wait come after those that do not. -/
structure PairOk (uuid uuid' : Int) (phase phase' : Phase) : Prop where
  distinct : uuid ≠ uuid'
  ordered : ∀ ticket ticket', phase = .waiting ticket → phase' = .waiting ticket' →
    ticket ≠ ticket' ∧ (ticket < ticket' → uuid < uuid')
  behind : ∀ ticket, phase = .waiting ticket → (∀ ticket', phase' ≠ .waiting ticket') → uuid' < uuid

/-- The allocations of the present life, the numbers that were returned and the rows; while
`event.start` is under way there are no allocations, and the numbers of the names that it has not
read are not known to be below the counter. -/
structure CounterInv (w : World) : Prop where
  kinds : ∀ id a, w.acts id = some a → Kind w.shared a
  nodup : w.shared.returned.Nodup
  held : ∀ cname uuid, (cname, uuid) ∈ w.shared.returned → Held w.shared.rows cname uuid
  allocations : ∀ id a cname uuid phase, w.acts id = some a →
    Allocating w.shared.life cname uuid phase a → AllocationOk w.shared cname uuid phase
  pairs : ∀ id id' a a' cname uuid uuid' phase phase', id ≠ id' →
    w.acts id = some a → w.acts id' = some a' →
    Allocating w.shared.life cname uuid phase a → Allocating w.shared.life cname uuid' phase' a' →
    PairOk uuid uuid' phase phase' ∧ ¬ Mysql.Absent KeyRow.keyName w.shared.rows cname
  loaded : w.shared.up = true → ∀ cname,
    (∀ id a names, w.acts id = some a → Starting w.shared.life names a → cname ∉ names) →
    ∀ uuid, (cname, uuid) ∈ w.shared.returned → uuid ≤ w.shared.uuid cname
  reads : ∀ id ret cname rest,
    w.acts id = some (.returning (.row ret) [.startFind w.shared.life cname rest]) →
    Found w.shared.rows cname ret
  alone : ∀ id id' a a' names, w.acts id = some a → w.acts id' = some a' →
    Starting w.shared.life names a →
    (∀ names', Starting w.shared.life names' a' → id = id') ∧
      ∀ cname uuid phase, ¬ Allocating w.shared.life cname uuid phase a'

theorem CounterInv.init (rows : List KeyRow) : CounterInv (init rows) where
  kinds := by
    intro id a found
    cases found
  nodup := List.nodup_nil
  held := by
    intro cname uuid member
    cases member
  allocations := by
    intro id a cname uuid phase found
    cases found
  pairs := by
    intro id id' a a' cname uuid uuid' phase phase' _ found
    cases found
  loaded := fun up => by cases up
  reads := by
    intro id ret cname rest found
    cases found
  alone := by
    intro id id' a a' names found
    cases found

/-- What an activity can be does not change. -/
theorem Kind.mono {s s' : Shared} {a : Act} (kind : Kind s a) (later : s.life ≤ s'.life) :
    Kind s' a := by
  cases kind with
  | allocating older flight => exact .allocating (Nat.le_trans older later) flight
  | starting older reads => exact .starting (Nat.le_trans older later) reads
  | aside other =>
      refine .aside ?_
      cases other with
      | asked life cname older => exact .asked life cname (Nat.le_trans older later)
      | exit life older => exact .exit life (Nat.le_trans older later)
      | exiting life ticket uuid rest older =>
          exact .exiting life ticket uuid rest (Nat.le_trans older later)
      | exited life v rest older => exact .exited life v rest (Nat.le_trans older later)
      | finished v => exact .finished v

/-! ### Rows -/

theorem absent_keyUpdate {rows : List KeyRow} {cname cname' : Cname} (uuid : Int) :
    Mysql.Absent KeyRow.keyName
        (Mysql.update KeyRow.keyName rows cname fun _ => ⟨cname, uuid⟩) cname' ↔
      Mysql.Absent KeyRow.keyName rows cname' :=
  Mysql.absent_update fun _ _ => rfl

theorem Held.update {rows : List KeyRow} {cname cname' : Cname} {uuid uuid' : Int}
    (held : Held rows cname' uuid') (later : cname' = cname → uuid' ≤ uuid) :
    Held (Mysql.update KeyRow.keyName rows cname fun _ => ⟨cname, uuid⟩) cname' uuid' := by
  obtain ⟨present, above⟩ := held
  refine ⟨fun absent => present ((absent_keyUpdate uuid).mp absent), ?_⟩
  intro row member same
  obtain ⟨old, inside, rfl⟩ := Mysql.mem_update.mp member
  split at same
  · rename_i mine
    rw [if_pos mine]
    exact later same.symm
  · rename_i other
    rw [if_neg other]
    exact above old inside same

/-- An update stores its number in the rows that there are. -/
theorem held_update {rows : List KeyRow} {cname : Cname} (uuid : Int)
    (present : ¬ Mysql.Absent KeyRow.keyName rows cname) :
    Held (Mysql.update KeyRow.keyName rows cname fun _ => ⟨cname, uuid⟩) cname uuid := by
  refine ⟨fun absent => present ((absent_keyUpdate uuid).mp absent), ?_⟩
  intro row member same
  obtain ⟨old, inside, rfl⟩ := Mysql.mem_update.mp member
  split
  · exact Int.le_refl _
  · rename_i other
    rw [if_neg other] at same
    exact (other same).elim

theorem not_absent_insert {rows : List KeyRow} {cname : Cname} {row : KeyRow}
    (present : ¬ Mysql.Absent KeyRow.keyName rows cname) :
    ¬ Mysql.Absent KeyRow.keyName (Mysql.insert rows row) cname := by
  intro absent
  exact present fun old inside => absent old (List.mem_append_left _ inside)

theorem Held.insert {rows : List KeyRow} {cname : Cname} {uuid : Int} {row : KeyRow}
    (held : Held rows cname uuid) (other : row.keyName ≠ cname) :
    Held (Mysql.insert rows row) cname uuid := by
  refine ⟨not_absent_insert held.1, ?_⟩
  intro row' member same
  rcases List.mem_append.mp member with old | added
  · exact held.2 row' old same
  · rw [List.mem_singleton.mp added] at same
    exact (other same).elim

/-- An insertion stores its number when there is no row. -/
theorem held_insert {rows : List KeyRow} {cname : Cname} (uuid : Int)
    (absent : Mysql.Absent KeyRow.keyName rows cname) :
    Held (Mysql.insert rows ⟨cname, uuid⟩) cname uuid := by
  refine ⟨fun none => none ⟨cname, uuid⟩ (List.mem_append_right _ List.mem_cons_self) rfl, ?_⟩
  intro row member same
  rcases List.mem_append.mp member with old | added
  · exact (absent row old same).elim
  · obtain rfl := List.mem_singleton.mp added
    exact Int.le_refl _

/-! ### What a step keeps -/

/-- Other tickets, or a service that has stopped. -/
theorem CounterInv.lapse {w : World} (inv : CounterInv w) {n : Nat} {up : Bool}
    (more : w.shared.sent ≤ n) (stays : up = true → w.shared.up = true) :
    CounterInv ⟨{ w.shared with sent := n, up }, w.acts⟩ where
  kinds := fun i a found => (inv.kinds i a found).mono (Nat.le_refl _)
  nodup := inv.nodup
  held := inv.held
  allocations := by
    intro i a cname uuid phase found flight
    have ok := inv.allocations i a cname uuid phase found flight
    exact ⟨ok.counted, ok.fresh, fun ticket waits =>
      ⟨Nat.lt_of_lt_of_le (ok.waiting ticket waits).1 more, (ok.waiting ticket waits).2⟩,
      ok.missing, ok.stored⟩
  pairs := inv.pairs
  loaded := fun lives => inv.loaded (stays lives)
  reads := inv.reads
  alone := inv.alone

/-- A segment of another activity. -/
theorem CounterInv.beside {w : World} (inv : CounterInv w) {id : Nat} {a' : Act}
    (before : w.shared.up = true → ∀ a, w.acts id = some a →
      ∀ names, ¬ Starting w.shared.life names a)
    (kind : Kind w.shared a')
    (flights : ∀ cname uuid phase, ¬ Allocating w.shared.life cname uuid phase a')
    (starts : ∀ names, ¬ Starting w.shared.life names a') :
    CounterInv ⟨w.shared, Function.update w.acts id (some a')⟩ where
  kinds := by
    intro i a found
    rcases Code.acts_update found with ⟨-, rfl⟩ | ⟨-, earlier⟩
    · exact kind
    · exact inv.kinds i a earlier
  nodup := inv.nodup
  held := inv.held
  allocations := by
    intro i a cname uuid phase found flight
    rcases Code.acts_update found with ⟨-, rfl⟩ | ⟨-, earlier⟩
    · exact (flights cname uuid phase flight).elim
    · exact inv.allocations i a cname uuid phase earlier flight
  pairs := by
    intro i j a b cname uuid uuid' phase phase' other found found' flight flight'
    rcases Code.acts_update found with ⟨-, rfl⟩ | ⟨-, earlier⟩
    · exact (flights cname uuid phase flight).elim
    · rcases Code.acts_update found' with ⟨-, rfl⟩ | ⟨-, earlier'⟩
      · exact (flights cname uuid' phase' flight').elim
      · exact inv.pairs i j a b cname uuid uuid' phase phase' other earlier earlier' flight flight'
  loaded := by
    intro up cname read uuid member
    refine inv.loaded up cname ?_ uuid member
    intro i a names found starting
    have elsewhere : i ≠ id := by
      intro same
      subst same
      exact before up a found names starting
    exact read i a names ((Function.update_of_ne elsewhere _ _).trans found) starting
  reads := by
    intro i ret cname rest found
    rcases Code.acts_update found with ⟨-, same⟩ | ⟨-, earlier⟩
    · rw [same] at starts
      exact (starts _ (.read ret cname rest)).elim
    · exact inv.reads i ret cname rest earlier
  alone := by
    intro i j a b names found found' starting
    rcases Code.acts_update found with ⟨-, rfl⟩ | ⟨-, earlier⟩
    · exact (starts names starting).elim
    · rcases Code.acts_update found' with ⟨-, rfl⟩ | ⟨-, earlier'⟩
      · exact ⟨fun names' starting' => (starts names' starting').elim, flights⟩
      · exact inv.alone i j a b names earlier earlier' starting

/-- The service is started: all that was under way is gone. -/
theorem CounterInv.restart {w : World} (inv : CounterInv w) {id : Nat} {tableDesc : Bool}
    {uuid : Cname → Int} :
    CounterInv ⟨{ w.shared with life := w.shared.life + 1, up := true, uuid, tableDesc },
      Function.update w.acts id (some (.calling (.start (w.shared.life + 1)) []))⟩ := by
  have older : ∀ {life}, life ≤ w.shared.life → life ≠ w.shared.life + 1 := by
    intro life bound
    omega
  have flights : ∀ {i a cname uuid phase}, w.acts i = some a →
      ¬ Allocating (w.shared.life + 1) cname uuid phase a := by
    intro i a cname uuid phase found flight
    cases inv.kinds i a found with
    | allocating bound flight' => cases flight <;> cases flight' <;> exact older bound rfl
    | starting bound starting => cases flight <;> cases starting
    | aside other => cases flight <;> cases other
  have starts : ∀ {i a names}, w.acts i = some a →
      ¬ Starting (w.shared.life + 1) names a := by
    intro i a names found starting
    cases inv.kinds i a found with
    | allocating bound flight => cases starting <;> cases flight
    | starting bound starting' => cases starting <;> cases starting' <;> exact older bound rfl
    | aside other => cases starting <;> cases other
  refine ⟨?_, inv.nodup, inv.held, ?_, ?_, ?_, ?_, ?_⟩
  · intro i a found
    rcases Code.acts_update found with ⟨-, rfl⟩ | ⟨-, earlier⟩
    · exact .starting (Nat.le_refl _) .called
    · exact (inv.kinds i a earlier).mono (Nat.le_succ _)
  · intro i a cname uuid phase found flight
    rcases Code.acts_update found with ⟨-, rfl⟩ | ⟨-, earlier⟩
    · cases flight
    · exact (flights earlier flight).elim
  · intro i j a b cname uuid uuid' phase phase' _ found _ flight _
    rcases Code.acts_update found with ⟨-, rfl⟩ | ⟨-, earlier⟩
    · cases flight
    · exact (flights earlier flight).elim
  · intro _ cname read
    exact (read id _ Cname.all (Function.update_self ..) .called cname.mem_all).elim
  · intro i ret cname rest found
    rcases Code.acts_update found with ⟨-, same⟩ | ⟨-, earlier⟩
    · cases same
    · exact (starts earlier (.read ret cname rest)).elim
  · intro i j a b names found found' starting
    rcases Code.acts_update found with ⟨here, rfl⟩ | ⟨-, earlier⟩
    · rcases Code.acts_update found' with ⟨here', rfl⟩ | ⟨-, earlier'⟩
      · exact ⟨fun _ _ => here.trans here'.symm, fun cname uuid phase flight => by cases flight⟩
      · exact ⟨fun names' starting' => (starts earlier' starting').elim,
          fun cname uuid phase => flights earlier'⟩
    · exact (starts earlier starting).elim

/-- A segment of an allocation. No `event.start` is under way then. -/
theorem CounterInv.allocate {w : World} (inv : CounterInv w) {id : Nat} {s' : Shared} {a' : Act}
    (quiet : ¬ Loading w) (life : s'.life = w.shared.life) (kind : Kind s' a')
    (finished : ∀ names, ¬ Starting w.shared.life names a')
    (nodup : s'.returned.Nodup)
    (held : ∀ cname uuid, (cname, uuid) ∈ s'.returned → Held s'.rows cname uuid)
    (loaded : s'.up = true → ∀ cname uuid, (cname, uuid) ∈ s'.returned → uuid ≤ s'.uuid cname)
    (present : ∀ cname, ¬ Mysql.Absent KeyRow.keyName w.shared.rows cname →
      ¬ Mysql.Absent KeyRow.keyName s'.rows cname)
    (mine : ∀ cname uuid phase, Allocating w.shared.life cname uuid phase a' →
      AllocationOk s' cname uuid phase)
    (others : ∀ i a cname uuid phase, i ≠ id → w.acts i = some a →
      Allocating w.shared.life cname uuid phase a → AllocationOk s' cname uuid phase)
    (pairs : ∀ i a cname uuid uuid' phase phase', i ≠ id → w.acts i = some a →
      Allocating w.shared.life cname uuid phase a' → Allocating w.shared.life cname uuid' phase' a →
      PairOk uuid uuid' phase phase' ∧ PairOk uuid' uuid phase' phase ∧
        ¬ Mysql.Absent KeyRow.keyName s'.rows cname) :
    CounterInv ⟨s', Function.update w.acts id (some a')⟩ := by
  have idle : ∀ {i a names}, Function.update w.acts id (some a') i = some a →
      ¬ Starting s'.life names a := by
    intro i a names found starting
    rw [life] at starting
    rcases Code.acts_update found with ⟨-, rfl⟩ | ⟨-, earlier⟩
    · exact finished names starting
    · exact quiet ⟨i, a, names, earlier, starting⟩
  refine ⟨?_, nodup, held, ?_, ?_, ?_, ?_, ?_⟩
  · intro i a found
    rcases Code.acts_update found with ⟨-, rfl⟩ | ⟨-, earlier⟩
    · exact kind
    · exact (inv.kinds i a earlier).mono (Nat.le_of_eq life.symm)
  · intro i a cname uuid phase found flight
    simp only [life] at flight
    rcases Code.acts_update found with ⟨-, rfl⟩ | ⟨other, earlier⟩
    · exact mine cname uuid phase flight
    · exact others i a cname uuid phase other earlier flight
  · intro i j a b cname uuid uuid' phase phase' apart found found' flight flight'
    simp only [life] at flight flight'
    rcases Code.acts_update found with ⟨here, rfl⟩ | ⟨other, earlier⟩
    · rcases Code.acts_update found' with ⟨here', -⟩ | ⟨other', earlier'⟩
      · exact (apart (here.trans here'.symm)).elim
      · obtain ⟨first, -, there⟩ :=
          pairs j b cname uuid uuid' phase phase' other' earlier' flight flight'
        exact ⟨first, there⟩
    · rcases Code.acts_update found' with ⟨-, rfl⟩ | ⟨-, earlier'⟩
      · obtain ⟨-, second, there⟩ :=
          pairs i a cname uuid' uuid phase' phase other earlier flight' flight
        exact ⟨second, there⟩
      · obtain ⟨both, there⟩ := inv.pairs i j a b cname uuid uuid' phase phase' apart earlier
          earlier' flight flight'
        exact ⟨both, present cname there⟩
  · intro up cname _ uuid member
    exact loaded up cname uuid member
  · intro i ret cname rest found
    exact (idle found (.read ret cname rest)).elim
  · intro i j a b names found found' starting
    exact (idle found starting).elim

/-- A segment of `event.start`: some names may have been read, and nothing else changed. -/
theorem CounterInv.start {w : World} (inv : CounterInv w) {id : Nat} {a a' : Act} {n : Nat}
    {uuid' : Cname → Int} {names : List Cname} (names' : List Cname)
    (found : w.acts id = some a) (starting : Starting w.shared.life names a)
    (kind : Kind { w.shared with uuid := uuid', sent := n } a')
    (next : ∀ rest, Starting w.shared.life rest a' → rest = names')
    (finished : (∀ rest, ¬ Starting w.shared.life rest a') → names' = [])
    (flights : ∀ cname uuid phase, ¬ Allocating w.shared.life cname uuid phase a')
    (reads : ∀ ret cname rest, a' = .returning (.row ret) [.startFind w.shared.life cname rest] →
      Found w.shared.rows cname ret)
    (kept : ∀ cname, cname ∉ names → uuid' cname = w.shared.uuid cname)
    (read : ∀ cname, cname ∈ names → cname ∉ names' → ∀ uuid, (cname, uuid) ∈ w.shared.returned →
      uuid ≤ uuid' cname) :
    CounterInv ⟨{ w.shared with uuid := uuid', sent := n },
      Function.update w.acts id (some a')⟩ := by
  have nobody : ∀ {i b}, w.acts i = some b → ∀ cname uuid phase,
      ¬ Allocating w.shared.life cname uuid phase b := by
    intro i b found'
    exact (inv.alone id i a b names found found' starting).2
  have only : ∀ {i b rest}, w.acts i = some b → Starting w.shared.life rest b → i = id := by
    intro i b rest found' starting'
    exact ((inv.alone id i a b names found found' starting).1 rest starting').symm
  have idle : ∀ {i b cname uuid phase}, Function.update w.acts id (some a') i = some b →
      ¬ Allocating w.shared.life cname uuid phase b := by
    intro i b cname uuid phase found' flight
    rcases Code.acts_update found' with ⟨-, rfl⟩ | ⟨-, earlier⟩
    · exact flights cname uuid phase flight
    · exact nobody earlier cname uuid phase flight
  have only' : ∀ {i b rest}, Function.update w.acts id (some a') i = some b →
      Starting w.shared.life rest b → i = id := by
    intro i b rest found' starting'
    rcases Code.acts_update found' with ⟨here, -⟩ | ⟨-, earlier⟩
    · exact here
    · exact only earlier starting'
  refine ⟨?_, inv.nodup, inv.held, ?_, ?_, ?_, ?_, ?_⟩
  · intro i b found'
    rcases Code.acts_update found' with ⟨-, rfl⟩ | ⟨-, earlier⟩
    · exact kind
    · exact (inv.kinds i b earlier).mono (Nat.le_refl _)
  · intro i b cname uuid phase found' flight
    exact (idle found' flight).elim
  · intro i j b c cname uuid uuid₂ phase phase₂ _ found' _ flight
    exact (idle found' flight).elim
  · intro up cname done uuid member
    have left : cname ∉ names' := by
      by_cases goes : ∃ rest, Starting w.shared.life rest a'
      · obtain ⟨rest, starting'⟩ := goes
        rw [← next rest starting']
        exact done id a' rest (Function.update_self ..) starting'
      · rw [finished fun rest starting' => goes ⟨rest, starting'⟩]
        exact List.not_mem_nil
    by_cases earlier : cname ∈ names
    · exact read cname earlier left uuid member
    · have before : ∀ i b rest, w.acts i = some b → Starting w.shared.life rest b →
          cname ∉ rest := by
        intro i b rest found' starting'
        have here := only found' starting'
        subst here
        rw [found] at found'
        cases found'
        have same : rest = names := by
          cases starting <;> cases starting' <;> rfl
        rw [same]
        exact earlier
      have bound := inv.loaded up cname before uuid member
      rw [← kept cname earlier] at bound
      exact bound
  · intro i ret cname rest found'
    rcases Code.acts_update found' with ⟨-, same⟩ | ⟨other, earlier⟩
    · exact reads ret cname rest same
    · exact (other (only earlier (.read ret cname rest))).elim
  · intro i j b c rest found' found₂ starting'
    refine ⟨fun rest₂ starting₂ => ?_, fun cname uuid phase => idle found₂⟩
    exact (only' found' starting').trans (only' found₂ starting₂).symm

/-! ### Allocations -/

section Allocations

variable {w : World} {id : Nat} {cname : Cname} {uuid : Int}

/-- Beside an allocation there is no `event.start`. -/
theorem CounterInv.not_loading (inv : CounterInv w) {a : Act} {phase : Phase}
    (found : w.acts id = some a)
    (flight : Allocating w.shared.life cname uuid phase a) : ¬ Loading w := by
  intro loading
  obtain ⟨i, b, names, found', starting⟩ := loading
  exact (inv.alone i id b a names found' found starting).2 cname uuid phase flight

theorem CounterInv.loaded_of_quiet (inv : CounterInv w) (alive : w.shared.up = true)
    (quiet : ¬ Loading w) {c : Cname} {u : Int} (member : (c, u) ∈ w.shared.returned) :
    u ≤ w.shared.uuid c :=
  inv.loaded alive c (fun i a names found starting => (quiet ⟨i, a, names, found, starting⟩).elim)
    u member

/-- An allocation begins. -/
theorem CounterInv.begins (inv : CounterInv w) (alive : w.shared.up = true) (quiet : ¬ Loading w)
    (alone : Mysql.Absent KeyRow.keyName w.shared.rows cname → ¬ Allocates w cname) :
    let s' := { w.shared with
      uuid := Function.update w.shared.uuid cname (w.shared.uuid cname + 1)
      sent := w.shared.sent + 1 }
    CounterInv ⟨s', Function.update w.acts id (some (.calling
      (.stmt w.shared.life w.shared.sent
        (.update (some cname) (w.shared.uuid cname + 1) (some cname)))
      [.incrUpdate w.shared.life cname (w.shared.uuid cname + 1)]))⟩ := by
  intro s'
  have counter : ∀ c, w.shared.uuid c ≤ s'.uuid c := by
    intro c
    by_cases same : c = cname
    · subst same
      simp only [s', Function.update_self]
      omega
    · simp [s', same]
  have returned := fun c u => inv.loaded_of_quiet alive quiet (c := c) (u := u)
  refine inv.allocate quiet rfl (.allocating (Nat.le_refl _) (.updating _))
    (fun names starting => by cases starting) inv.nodup inv.held ?_ (fun _ there => there) ?_ ?_ ?_
  · intro _ c u member
    exact Int.le_trans (returned c u member) (counter c)
  · intro c u phase flight
    cases flight
    refine ⟨by simp [s'], ?_, ?_, nofun, nofun⟩
    · intro member
      have := returned _ _ member
      omega
    · intro ticket same
      cases same
      refine ⟨Nat.lt_succ_self _, fun u member => ?_⟩
      have := returned _ u member
      omega
  · intro i a c u phase other found flight
    have ok := inv.allocations i a c u phase found flight
    refine ⟨Int.le_trans ok.counted (counter c), ok.fresh, ?_, ok.missing, ok.stored⟩
    intro ticket waits
    exact ⟨Nat.lt_succ_of_lt (ok.waiting ticket waits).1, (ok.waiting ticket waits).2⟩
  · intro i a c u u' phase phase' other found flight flight'
    cases flight
    have ok := inv.allocations i a cname u' phase' found flight'
    have below : u' < w.shared.uuid cname + 1 := by
      have := ok.counted
      omega
    refine ⟨⟨?_, ?_, fun _ _ _ => below⟩, ⟨?_, ?_, ?_⟩, fun absent => ?_⟩
    · omega
    · intro ticket ticket' same waits
      cases same
      have earlier := (ok.waiting ticket' waits).1
      exact ⟨by omega, fun later => by omega⟩
    · omega
    · intro ticket ticket' waits same
      cases same
      have earlier := (ok.waiting ticket waits).1
      exact ⟨by omega, fun _ => below⟩
    · intro ticket _ idle
      exact (idle _ rfl).elim
    · exact alone absent ⟨i, a, u', phase', found, flight'⟩

/-- The update of an allocation is carried out and finds no row. -/
theorem CounterInv.misses (inv : CounterInv w) {ticket : Nat}
    (found : w.acts id = some (.calling
      (.stmt w.shared.life ticket (.update (some cname) uuid (some cname)))
      [.incrUpdate w.shared.life cname uuid]))
    (absent : Mysql.Absent KeyRow.keyName w.shared.rows cname) :
    CounterInv ⟨w.shared, Function.update w.acts id (some (.returning (.affected 0)
      [.incrUpdate w.shared.life cname uuid]))⟩ := by
  have quiet := inv.not_loading found (.updating ticket)
  have me := inv.allocations id _ cname uuid _ found (.updating ticket)
  refine inv.allocate quiet rfl (.allocating (Nat.le_refl _) .missed)
    (fun names starting => by cases starting) inv.nodup inv.held
    (fun up c u => inv.loaded_of_quiet up quiet) (fun _ there => there) ?_
    (fun i a c u phase _ => inv.allocations i a c u phase) ?_
  · intro c u phase flight
    cases flight
    exact ⟨me.counted, me.fresh, nofun, fun _ => absent,
      nofun⟩
  · intro i a c u u' phase phase' other found' flight flight'
    cases flight
    obtain ⟨-, there⟩ := inv.pairs i id a _ cname u' uuid phase' _ other found' found flight'
      (.updating ticket)
    exact (there absent).elim

/-- The update of an allocation is carried out and finds rows. -/
theorem CounterInv.updates (inv : CounterInv w) {ticket : Nat}
    (found : w.acts id = some (.calling
      (.stmt w.shared.life ticket (.update (some cname) uuid (some cname)))
      [.incrUpdate w.shared.life cname uuid]))
    (first : ∀ id' ticket' stmt' st',
      w.acts id' = some (.calling (.stmt w.shared.life ticket' stmt') st') → ticket ≤ ticket')
    (present : ¬ Mysql.Absent KeyRow.keyName w.shared.rows cname) (rows : Nat) :
    let set := fun _ : KeyRow => (⟨cname, uuid⟩ : KeyRow)
    let s' := { w.shared with rows := Mysql.update KeyRow.keyName w.shared.rows cname set }
    CounterInv ⟨s', Function.update w.acts id (some (.returning (.affected (rows + 1))
      [.incrUpdate w.shared.life cname uuid]))⟩ := by
  intro set s'
  have quiet := inv.not_loading found (.updating ticket)
  have me := inv.allocations id _ cname uuid _ found (.updating ticket)
  refine inv.allocate quiet rfl (.allocating (Nat.le_refl _) (.updated rows))
    (fun names starting => by cases starting) inv.nodup ?_
    (fun up c u => inv.loaded_of_quiet up quiet) ?_ ?_ ?_ ?_
  · intro c u member
    apply (inv.held c u member).update
    intro same
    subst same
    exact Int.le_of_lt ((me.waiting ticket rfl).2 u member)
  · intro c there absent
    exact there ((absent_keyUpdate uuid).mp absent)
  · intro c u phase flight
    cases flight
    exact ⟨me.counted, me.fresh, nofun, nofun,
      fun _ => held_update uuid present⟩
  · intro i a c u phase other found' flight
    have ok := inv.allocations i a c u phase found' flight
    refine ⟨ok.counted, ok.fresh, ok.waiting, ?_, ?_⟩
    · intro missing
      exact (absent_keyUpdate uuid).mpr (ok.missing missing)
    · intro stored
      apply (ok.stored stored).update
      intro same
      subst same
      obtain ⟨pair, -⟩ := inv.pairs id i _ a c uuid u _ phase other.symm found found'
        (.updating ticket) flight
      refine Int.le_of_lt (pair.behind ticket rfl ?_)
      intro ticket' waits
      rw [stored] at waits
      cases waits
  · intro i a c u u' phase phase' other found' flight flight'
    cases flight
    obtain ⟨pair, -⟩ := inv.pairs id i _ a cname uuid u' _ phase' other.symm found found'
      (.updating ticket) flight'
    refine ⟨⟨pair.distinct, nofun, nofun⟩,
      ⟨pair.distinct.symm, nofun, ?_⟩,
      fun absent => present ((absent_keyUpdate uuid).mp absent)⟩
    -- it waits behind this one
    intro ticket' waits _
    subst waits
    cases flight'
    obtain ⟨apart, after⟩ := pair.ordered ticket ticket' rfl rfl
    have order := first i ticket' _ _ found'
    exact after (by omega)

/-- The insertion of an allocation is carried out. -/
theorem CounterInv.inserts (inv : CounterInv w) {ticket : Nat}
    (found : w.acts id = some (.calling (.stmt w.shared.life ticket (.insert ⟨cname, uuid⟩))
      [.incrInsert w.shared.life cname uuid])) :
    let s' := { w.shared with rows := Mysql.insert w.shared.rows ⟨cname, uuid⟩ }
    CounterInv ⟨s', Function.update w.acts id (some (.returning .done
      [.incrInsert w.shared.life cname uuid]))⟩ := by
  intro s'
  have quiet := inv.not_loading found (.inserting ticket)
  have me := inv.allocations id _ cname uuid _ found (.inserting ticket)
  have absent := me.missing rfl
  -- no other allocation of the name, and no number of it was returned
  have apart : ∀ {i a c u phase}, i ≠ id → w.acts i = some a →
      Allocating w.shared.life c u phase a → cname ≠ c := by
    intro i a c u phase other found' flight same
    subst same
    exact (inv.pairs i id a _ cname u uuid phase _ other found' found flight
      (.inserting ticket)).2 absent
  refine inv.allocate quiet rfl (.allocating (Nat.le_refl _) .inserted)
    (fun names starting => by cases starting) inv.nodup ?_
    (fun up c u => inv.loaded_of_quiet up quiet) (fun c there => not_absent_insert there) ?_ ?_ ?_
  · intro c u member
    have held := inv.held c u member
    refine held.insert fun same => ?_
    have same : cname = c := same
    subst same
    exact held.1 absent
  · intro c u phase flight
    cases flight
    exact ⟨me.counted, me.fresh, nofun, nofun,
      fun _ => held_insert uuid absent⟩
  · intro i a c u phase other found' flight
    have ok := inv.allocations i a c u phase found' flight
    have another := apart other found' flight
    exact ⟨ok.counted, ok.fresh, ok.waiting, fun missing => (ok.missing missing).insert another,
      fun stored => (ok.stored stored).insert another⟩
  · intro i a c u u' phase phase' other found' flight flight'
    cases flight
    exact (apart other found' flight' rfl).elim

/-- An allocation that found no row goes on towards its insertion. -/
theorem CounterInv.goes_on (inv : CounterInv w) {a a' : Act}
    {n : Nat} {tableDesc : Bool} (found : w.acts id = some a)
    (flight : Allocating w.shared.life cname uuid .missing a)
    (flight' : Allocating w.shared.life cname uuid .missing a') (more : w.shared.sent ≤ n) :
    CounterInv ⟨{ w.shared with tableDesc, sent := n }, Function.update w.acts id (some a')⟩ := by
  have quiet := inv.not_loading found flight
  have me := inv.allocations id _ cname uuid _ found flight
  have same : ∀ {c u phase}, Allocating w.shared.life c u phase a' →
      c = cname ∧ u = uuid ∧ phase = .missing := by
    intro c u phase other
    cases flight' <;> cases other <;> exact ⟨rfl, rfl, rfl⟩
  refine inv.allocate quiet rfl (.allocating (Nat.le_refl _) flight')
    (fun names starting => by cases flight' <;> cases starting) inv.nodup inv.held
    (fun up c u => inv.loaded_of_quiet up quiet) (fun _ there => there) ?_ ?_ ?_
  · intro c u phase other
    obtain ⟨rfl, rfl, rfl⟩ := same other
    exact ⟨me.counted, me.fresh, nofun, me.missing, me.stored⟩
  · intro i b c u phase other found' flight₂
    have ok := inv.allocations i b c u phase found' flight₂
    exact ⟨ok.counted, ok.fresh, fun ticket waits =>
      ⟨Nat.lt_of_lt_of_le (ok.waiting ticket waits).1 more, (ok.waiting ticket waits).2⟩,
      ok.missing, ok.stored⟩
  · intro i b c u u' phase phase' other found' flight₁ flight₂
    obtain ⟨rfl, rfl, rfl⟩ := same flight₁
    exact ((inv.pairs i id b a c u' u phase' _ other found' found flight₂ flight).2
      (me.missing rfl)).elim

/-- An allocation returns its number. -/
theorem CounterInv.gives (inv : CounterInv w) {a : Act}
    (found : w.acts id = some a) (flight : Allocating w.shared.life cname uuid .stored a) :
    CounterInv ⟨(give w.shared cname uuid).1, Function.update w.acts id
      (some ((give w.shared cname uuid).2.settle []))⟩ := by
  have quiet := inv.not_loading found flight
  have me := inv.allocations id _ cname uuid _ found flight
  refine inv.allocate quiet rfl (.aside (.finished _)) (fun names starting => by cases starting)
    (List.nodup_cons.mpr ⟨me.fresh, inv.nodup⟩) ?_ ?_ (fun _ there => there) ?_ ?_ ?_
  · intro c u member
    rcases List.mem_cons.mp member with same | earlier
    · cases same
      exact me.stored rfl
    · exact inv.held c u earlier
  · intro up c u member
    rcases List.mem_cons.mp member with same | earlier
    · cases same
      exact me.counted
    · exact inv.loaded_of_quiet up quiet earlier
  · intro c u phase other
    cases other
  · intro i b c u phase other found' flight'
    have ok := inv.allocations i b c u phase found' flight'
    refine ⟨ok.counted, ?_, ?_, ok.missing, ok.stored⟩
    · intro member
      rcases List.mem_cons.mp member with same | earlier
      · cases same
        exact (inv.pairs i id b a cname uuid uuid phase _ other found' found flight'
          flight).1.distinct rfl
      · exact ok.fresh earlier
    · intro ticket waits
      refine ⟨(ok.waiting ticket waits).1, fun u' member => ?_⟩
      rcases List.mem_cons.mp member with same | earlier
      · cases same
        exact (inv.pairs i id b a cname u uuid phase _ other found' found flight'
          flight).1.behind ticket waits nofun
      · exact (ok.waiting ticket waits).2 u' earlier
  · intro i b c u u' phase phase' _ _ flight'
    cases flight'

end Allocations

/-! ### The other segments -/

section Others

variable {choice : Mysql.Choice KeyRow} {w : World} {id : Nat}

/-- `event.start` goes on to the names that are left. -/
theorem CounterInv.starts (inv : CounterInv w) {a : Act} {names names' : List Cname}
    {uuid' : Cname → Int} (found : w.acts id = some a) (starting : Starting w.shared.life names a)
    (kept : ∀ cname, cname ∉ names → uuid' cname = w.shared.uuid cname)
    (read : ∀ cname, cname ∈ names → cname ∉ names' → ∀ uuid, (cname, uuid) ∈ w.shared.returned →
      uuid ≤ uuid' cname) :
    let next := startNext { w.shared with uuid := uuid' } w.shared.life names'
    CounterInv ⟨next.1, Function.update w.acts id (some (next.2.settle []))⟩ := by
  cases names' with
  | nil =>
      refine inv.start [] found starting (.aside (.finished .done)) ?_ (fun _ => rfl) nofun nofun
        kept read
      intro rest starting'
      cases starting'
  | cons cname rest =>
      refine inv.start (cname :: rest) found starting
        (.starting (Nat.le_refl _) (.reading _ cname rest)) ?_ ?_ nofun nofun kept read
      · intro names₂ starting'
        cases starting'
        rfl
      · intro finished
        exact (finished _ (.reading _ cname rest)).elim

/-- A query of `event.start` is carried out. -/
theorem CounterInv.finds (inv : CounterInv w) {ticket : Nat} {cname : Cname} {rest : List Cname}
    (found : w.acts id = some (.calling (.stmt w.shared.life ticket (.select cname))
      [.startFind w.shared.life cname rest])) :
    CounterInv ⟨w.shared, Function.update w.acts id (some (.returning
      (.row (Mysql.findOne KeyRow.keyName choice w.shared.rows cname))
      [.startFind w.shared.life cname rest]))⟩ := by
  refine inv.start (cname :: rest) found (.reading ticket cname rest)
    (.starting (Nat.le_refl _) (.read _ cname rest)) ?_ ?_ nofun ?_ (fun _ _ => rfl) ?_
  · intro names starting
    cases starting
    rfl
  · intro finished
    exact (finished _ (.read _ cname rest)).elim
  · intro ret c rest' same
    cases same
    exact found_findOne choice w.shared.rows cname
  · intro c inside left
    exact (left inside).elim

/-- `event.start` gets a row, or none. -/
theorem CounterInv.reads_row (inv : CounterInv w) {ret : Option KeyRow} {cname : Cname}
    {rest : List Cname}
    (found : w.acts id = some (.returning (.row ret) [.startFind w.shared.life cname rest])) :
    let next := resumeAlive w.shared (.startFind w.shared.life cname rest) (.row ret)
    CounterInv ⟨next.1, Function.update w.acts id (some (next.2.settle []))⟩ := by
  have stored := inv.reads id ret cname rest found
  cases ret with
  | none =>
      refine inv.starts found (.read none cname rest) (fun _ _ => rfl) ?_
      intro c inside left uuid member
      have same : c = cname := (List.mem_cons.mp inside).resolve_right left
      subst same
      exact ((inv.held c uuid member).1 stored).elim
  | some row =>
      refine inv.starts found (.read (some row) cname rest) ?_ ?_
      · intro c outside
        have other : c ≠ cname := fun same => outside (same ▸ List.mem_cons_self)
        exact Function.update_of_ne other _ _
      · intro c inside left uuid member
        have same : c = cname := (List.mem_cons.mp inside).resolve_right left
        subst same
        rw [Function.update_self]
        exact (inv.held c uuid member).2 row stored.1 stored.2

/-- An activity of the service other than `event.start` ends. -/
theorem CounterInv.finished (inv : CounterInv w) (v : Val)
    (idle : w.shared.up = true → ∀ a, w.acts id = some a →
      ∀ names, ¬ Starting w.shared.life names a) :
    CounterInv ⟨w.shared, Function.update w.acts id (some (.returning v []))⟩ :=
  inv.beside idle (.aside (.finished v)) nofun nofun

/-- `event.exit` goes on. Its statements do nothing, and then the service stops. -/
theorem CounterInv.exits (inv : CounterInv w) {a : Act} (found : w.acts id = some a)
    (names : List Cname) (idle : ∀ rest, ¬ Starting w.shared.life rest a) :
    let next := exitNext w.shared w.shared.life names
    CounterInv ⟨next.1, Function.update w.acts id (some (next.2.settle []))⟩ := by
  have before : w.shared.up = true → ∀ b, w.acts id = some b →
      ∀ names, ¬ Starting w.shared.life names b := by
    intro _ b found'
    rw [found] at found'
    cases found'
    exact idle
  cases names with
  | nil => exact (inv.finished .done before).lapse (Nat.le_refl _) nofun
  | cons cname rest =>
      have stays : w.shared.up = true → w.shared.up = true := fun lives => lives
      have sends := inv.lapse (Nat.le_succ w.shared.sent) stays
      exact sends.beside before (.aside (.exiting w.shared.life _ _ rest (Nat.le_refl _))) nofun
        nofun

theorem Shared.alive_iff {s : Shared} {life : Nat} :
    s.alive life = true ↔ s.up = true ∧ life = s.life := by
  rw [Shared.alive, Bool.and_eq_true, beq_iff_eq]
  exact and_congr_right fun _ => eq_comm

/-- A coroutine of a service that has stopped fails. -/
theorem CounterInv.fails (inv : CounterInv w) {a : Act} {life : Nat} (found : w.acts id = some a)
    (dead : ¬ w.shared.alive life) (of : ∀ names, Starting w.shared.life names a →
      life = w.shared.life) :
    CounterInv ⟨w.shared, Function.update w.acts id (some (.returning .raise []))⟩ := by
  apply inv.finished .raise
  intro up b found' names starting
  rw [found] at found'
  cases found'
  exact dead (Shared.alive_iff.mpr ⟨up, of names starting⟩)

end Others

/-! ### Steps -/

section Steps

variable {choice : Mysql.Choice KeyRow} {w : World} {id : Nat} {s' : Shared} {out : Out}
  {e : Event Unit Env} {o : Unit}

/-- A statement is carried out. -/
theorem CounterInv.carried (inv : CounterInv w) {ticket : Nat} {stmt : Stmt} {st : List Pc}
    (order : InOrder w e) (event : e = .run id o)
    (found : w.acts id = some (.calling (.stmt w.shared.life ticket stmt) st)) :
    CounterInv ⟨(exec choice w.shared stmt).1,
      Function.update w.acts id (some (.returning (exec choice w.shared stmt).2 st))⟩ := by
  cases inv.kinds id _ found with
  | allocating older flight =>
      cases flight with
      | @updating ticket =>
          rename_i cname uuid
          by_cases absent : Mysql.Absent KeyRow.keyName w.shared.rows cname
          · simp only [exec, Mysql.update_of_absent absent, Mysql.absent_iff_affectedRows.mp absent]
            exact inv.misses found absent
          · have present : ∃ rows,
                Mysql.affectedRows KeyRow.keyName w.shared.rows cname = rows + 1 :=
              Nat.exists_eq_succ_of_ne_zero
                fun none => absent (Mysql.absent_iff_affectedRows.mpr none)
            obtain ⟨rows, count⟩ := present
            simp only [exec, count]
            exact inv.updates found (order id o _ ticket _ _ event found) absent rows
      | @describing ticket =>
          exact inv.goes_on found (.describing ticket) .described (Nat.le_refl _)
      | @inserting ticket => exact inv.inserts found
  | starting older starting =>
      cases starting with
      | reading ticket cname rest => exact inv.finds found
  | aside other =>
      cases other with
      | exiting life ticket uuid rest older =>
          refine inv.beside ?_ (.aside (.exited _ .error rest older)) nofun nofun
          intro _ a found' names starting
          rw [found] at found'
          cases found'
          cases starting

/-- The first segment of a request, or a statement. -/
theorem CounterInv.serve (inv : CounterInv w) {r : Req} {st : List Pc} (order : InOrder w e)
    (late : NoneLate w e) (safe : AllocatesSafely w e) (event : e = .run id o)
    (found : w.acts id = some (.calling r st)) (ran : Counter.serve choice w.shared r = (s', out)) :
    CounterInv ⟨s', Function.update w.acts id (some (out.settle st))⟩ := by
  have bottom : (∀ life ticket stmt, r ≠ .stmt life ticket stmt) → st = [] := by
    intro request
    cases inv.kinds id _ found with
    | allocating older flight => cases flight <;> exact (request _ _ _ rfl).elim
    | starting older starting =>
        cases starting with
        | called => rfl
        | reading ticket cname rest => exact (request _ _ _ rfl).elim
    | aside other =>
        cases other with
        | asked life cname older => rfl
        | exit life older => rfl
        | exiting life ticket uuid rest older => exact (request _ _ _ rfl).elim
  cases r with
  | incr life cname =>
      obtain rfl := bottom nofun
      simp only [Counter.serve] at ran
      split at ran
      · rename_i lives
        obtain ⟨up, rfl⟩ := Shared.alive_iff.mp lives
        cases ran
        obtain ⟨quiet, alone⟩ := safe id o cname [] event found
        exact inv.begins up quiet alone
      · rename_i dead
        cases ran
        exact inv.fails found dead nofun
  | start life =>
      obtain rfl := bottom nofun
      simp only [Counter.serve] at ran
      split at ran
      · rename_i lives
        obtain ⟨-, rfl⟩ := Shared.alive_iff.mp lives
        have next := inv.starts found .called (fun _ _ => rfl)
          (fun cname inside left => (left inside).elim)
        rw [ran] at next
        exact next
      · rename_i dead
        cases ran
        apply inv.fails found dead
        intro names starting
        cases starting
        rfl
  | exit life =>
      obtain rfl := bottom nofun
      simp only [Counter.serve] at ran
      split at ran
      · rename_i lives
        obtain ⟨-, rfl⟩ := Shared.alive_iff.mp lives
        have next := inv.exits found Cname.all nofun
        rw [ran] at next
        exact next
      · rename_i dead
        cases ran
        exact inv.fails found dead nofun
  | stmt life ticket stmt =>
      obtain rfl := late id o life ticket stmt st event found
      cases ran
      exact inv.carried order event found

/-- A coroutine of the service goes on. -/
theorem CounterInv.resume (inv : CounterInv w) {pc : Pc} {st : List Pc} {v : Val}
    (found : w.acts id = some (.returning v (pc :: st)))
    (ran : Counter.resume w.shared pc v = (s', out)) :
    CounterInv ⟨s', Function.update w.acts id (some (out.settle st))⟩ := by
  have bottom : st = [] := by
    cases inv.kinds id _ found with
    | allocating older flight => cases flight <;> rfl
    | starting older starting =>
        cases starting
        rfl
    | aside other =>
        cases other
        rfl
  subst bottom
  rw [Counter.resume] at ran
  split at ran
  · rename_i lives
    obtain ⟨-, here⟩ := Shared.alive_iff.mp lives
    cases inv.kinds id _ found with
    | allocating older flight =>
        cases flight with
        | missed =>
            obtain rfl := here
            simp only [resumeAlive] at ran
            split at ran
            · cases ran
              exact inv.goes_on found .missed (.inserting _) (Nat.le_succ _)
            · cases ran
              exact inv.goes_on found .missed (.describing _) (Nat.le_succ _)
        | described =>
            obtain rfl := here
            cases ran
            exact inv.goes_on found .described (.inserting _) (Nat.le_succ _)
        | updated rows =>
            obtain rfl := here
            cases ran
            exact inv.gives found (.updated rows)
        | inserted =>
            obtain rfl := here
            cases ran
            exact inv.gives found .inserted
    | starting older starting =>
        cases starting with
        | read ret cname rest =>
            obtain rfl := here
            have next := inv.reads_row found
            rw [ran] at next
            exact next
    | aside other =>
        cases other with
        | exited life v rest older =>
            obtain rfl := here
            change exitNext w.shared w.shared.life rest = (s', out) at ran
            have next := inv.exits found rest nofun
            rw [ran] at next
            exact next
  · rename_i dead
    cases ran
    apply inv.fails found dead
    intro names starting
    cases starting
    rfl

theorem CounterInv.step {w w' : World} {e : Event Unit Env} (inv : CounterInv w)
    (guard : InOrder w e ∧ NoneLate w e ∧ AllocatesSafely w e) (stepped : (code choice).step w e = some w') :
    CounterInv w' := by
  obtain ⟨order, late, safe⟩ := guard
  rcases Code.step_cases stepped with ⟨id, o, a, s', a', event, found, moved, rfl⟩ |
    ⟨id, x, s', -, came, rfl⟩ | ⟨id, x, s', r, -, fresh, came, rfl⟩
  · rcases Code.advance_cases moved with ⟨r, st, out, rfl, ran, rfl⟩ |
      ⟨v, pc, st, out, rfl, ran, rfl⟩
    · exact inv.serve order late safe event found ran
    · exact inv.resume found ran
  · cases x with
    | crash =>
        cases came
        exact inv.lapse (Nat.le_refl _) nofun
    | restart => cases came
    | incr cname =>
        simp only [code, arrive] at came
        split at came <;> cases came
    | exit =>
        simp only [code, arrive] at came
        split at came <;> cases came
  · have before : w.shared.up = true → ∀ a, w.acts id = some a →
        ∀ names, ¬ Starting w.shared.life names a := by
      intro _ a found
      rw [fresh] at found
      cases found
    cases x with
    | crash => cases came
    | restart =>
        cases came
        exact inv.restart
    | incr cname =>
        simp only [code, arrive] at came
        split at came
        · cases came
          exact inv.beside before (.aside (.asked _ cname (Nat.le_refl _))) nofun nofun
        · cases came
    | exit =>
        simp only [code, arrive] at came
        split at came
        · cases came
          exact inv.beside before (.aside (.exit _ (Nat.le_refl _))) nofun nofun
        · cases came

end Steps

/-- **Numbers do not repeat** as long as no allocation begins beside another one while its name has
no row, none while `event.start` is reading, and no statement is carried out after a restart. -/
theorem numbers_distinct (choice : Mysql.Choice KeyRow) (rows : List KeyRow) :
    NumbersDistinct choice (fun w e => InOrder w e ∧ NoneLate w e ∧ AllocatesSafely w e) rows := by
  intro w reached
  have inv : CounterInv w := reached.invariant (CounterInv.init rows) CounterInv.step
  exact inv.nodup

/-- `InOrder` with five activities, as a check. -/
def inOrder (w : World) : Event Unit Env → Bool
  | .arrive id _ => id < 5
  | .run id _ =>
      id < 5 &&
        match w.acts id with
        | some (.calling (.stmt life ticket _) _) => (List.range 5).all fun id' =>
            match w.acts id' with
            | some (.calling (.stmt life' ticket' _) _) => life' != life || ticket ≤ ticket'
            | _ => true
        | _ => true

theorem inOrder_sound {w : World} {e : Event Unit Env} (few : ∀ id, 5 ≤ id → w.acts id = none)
    (passed : inOrder w e = true) : InOrder w e ∧ e.id < 5 := by
  cases e with
  | arrive id x =>
      have early : id < 5 := by simpa [inOrder] using passed
      exact ⟨nofun, early⟩
  | run id o =>
      simp only [inOrder, Bool.and_eq_true, decide_eq_true_eq] at passed
      obtain ⟨early, rest⟩ := passed
      refine ⟨?_, early⟩
      intro id₁ o₁ life ticket stmt st event found id' ticket' stmt' st' found'
      cases event
      simp only [found, List.all_eq_true, List.mem_range] at rest
      have near : id' < 5 := by
        by_contra far
        rw [few id' (by omega)] at found'
        cases found'
      have bound := rest id' near
      simpa [found'] using bound

/-- Two first allocations beside each other, then a restart and a third allocation. -/
def twoFirstNumbers : List (Event Unit Env) :=
  [Event.arrive 0 Env.restart] ++ List.replicate 5 (Event.run 0 ()) ++
    [Event.arrive 1 (Env.incr Cname.account), Event.arrive 2 (Env.incr Cname.account)] ++
    (List.replicate 7 [Event.run 1 (), Event.run 2 ()]).flatten ++
    [Event.arrive 3 Env.restart] ++ List.replicate 5 (Event.run 3 ()) ++
    [Event.arrive 4 (Env.incr Cname.account)] ++ List.replicate 3 (Event.run 4 ())

/-- The second and the third allocation both return 50002. -/
theorem number_repeated : ¬ ∀ rows, NumbersDistinct Mysql.topmost InOrder rows := by
  intro distinct
  have ran : ((code Mysql.topmost).runsIf inOrder (init []) twoFirstNumbers).map (fun w => w.shared.returned) =
      some [(.account, 50002), (.account, 50002), (.account, 50001)] := by decide +kernel
  obtain ⟨w, run, state⟩ := Option.map_eq_some_iff.mp ran
  have reached : (code Mysql.topmost).Reach InOrder (init []) w :=
    Code.Reach.of_runsIf inOrder_sound .refl (fun _ _ => rfl) run
  have nodup := distinct [] w reached
  rw [state] at nodup
  simp at nodup

end RillServer.Counter
