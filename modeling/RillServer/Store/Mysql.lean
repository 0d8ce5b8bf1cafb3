import Mathlib.Data.List.Basic

/-!
# Rows of a table

What the statements of `lualib/mysqldb.lua` do to a table. A table is a list of rows in the order of
its primary key, `id INT NOT NULL AUTO_INCREMENT` (`create_table`); no other column is unique.
`where` picks the rows whose value in one column is `k`.

`affected_rows` of an update counts the rows that were found, whether or not they changed:
`client_flags` of the driver has `CLIENT_FOUND_ROWS` set.
-/

namespace RillServer.Mysql

variable {α κ : Type} [DecidableEq κ] (column : α → κ)

/-- Which of the rows that match `limit 1` gives. Without an `order by` it may be any. -/
structure Choice (α : Type) where
  pick : List α → Option α
  mem : ∀ {rows row}, pick rows = some row → row ∈ rows
  missing : ∀ {rows}, pick rows = none → rows = []

/-- The row that is stored first. -/
def topmost : Choice α where
  pick := List.head?
  mem := List.mem_of_mem_head?
  missing := List.head?_eq_none_iff.mp

/-- `select * from .. where .. limit 1`. -/
def findOne (choice : Choice α) (rows : List α) (k : κ) : Option α :=
  choice.pick (rows.filter fun row => column row = k)

/-- `update .. set .. where ..`. -/
def update (rows : List α) (k : κ) (set : α → α) : List α :=
  rows.map fun row => if column row = k then set row else row

/-- `affected_rows` of the update. -/
def affectedRows (rows : List α) (k : κ) : Nat := rows.countP fun row => column row = k

/-- `insert into .. values ..`. -/
def insert (rows : List α) (new : α) : List α := rows ++ [new]

/-- No row has the value in the column. -/
def Absent (rows : List α) (k : κ) : Prop := ∀ row ∈ rows, column row ≠ k

variable {column} {choice : Choice α}

theorem Choice.pick_nil : choice.pick [] = none := by
  cases picked : choice.pick [] with
  | none => rfl
  | some row => cases choice.mem picked

theorem Choice.pick_singleton (row : α) : choice.pick [row] = some row := by
  cases picked : choice.pick [row] with
  | none => cases choice.missing picked
  | some row' => rw [List.mem_singleton.mp (choice.mem picked)]

theorem absent_iff_filter {rows : List α} {k : κ} :
    Absent column rows k ↔ (rows.filter fun row => column row = k) = [] := by
  simp [Absent]

theorem absent_iff_findOne {rows : List α} {k : κ} :
    Absent column rows k ↔ findOne column choice rows k = none := by
  rw [absent_iff_filter]
  constructor
  · intro none
    rw [findOne, none, Choice.pick_nil]
  · exact choice.missing

/-- What is found is a row that matches. -/
theorem of_findOne {rows : List α} {k : κ} {row : α}
    (found : findOne column choice rows k = some row) : row ∈ rows ∧ column row = k := by
  simpa using choice.mem found

theorem absent_iff_affectedRows {rows : List α} {k : κ} :
    Absent column rows k ↔ affectedRows column rows k = 0 := by
  simp [Absent, affectedRows]

/-- An update that finds nothing changes nothing. -/
theorem update_of_absent {rows : List α} {k : κ} (absent : Absent column rows k) (set : α → α) :
    update column rows k set = rows := by
  unfold update
  conv_rhs => rw [← List.map_id rows]
  refine List.map_congr_left fun row member => ?_
  rw [if_neg (absent row member)]
  rfl

theorem mem_update {rows : List α} {k : κ} {set : α → α} {row : α} :
    row ∈ update column rows k set ↔
      ∃ old ∈ rows, (if column old = k then set old else old) = row :=
  List.mem_map

/-- An update that keeps the column keeps the values that there are in it. -/
theorem absent_update {rows : List α} {k k' : κ} {set : α → α}
    (keeps : ∀ row, column row = k → column (set row) = k) :
    Absent column (update column rows k set) k' ↔ Absent column rows k' := by
  have value : ∀ row, column (if column row = k then set row else row) = column row := by
    intro row
    split
    · rename_i same
      rw [keeps row same, same]
    · rfl
  simp [Absent, update, value]

/-- An insertion does not concern the rows with another value. -/
theorem findOne_insert_of_ne {rows : List α} {k : κ} {new : α} (other : column new ≠ k) :
    findOne column choice (insert rows new) k = findOne column choice rows k := by
  simp [findOne, insert, List.filter_append, other]

theorem findOne_insert_of_absent {rows : List α} {new : α}
    (absent : Absent column rows (column new)) :
    findOne column choice (insert rows new) (column new) = some new := by
  rw [findOne, insert, List.filter_append, absent_iff_filter.mp absent]
  simp [Choice.pick_singleton]

omit [DecidableEq κ] in
theorem Absent.insert {rows : List α} {k : κ} (absent : Absent column rows k) {new : α}
    (other : column new ≠ k) : Absent column (insert rows new) k := by
  intro row member
  rcases List.mem_append.mp member with old | added
  · exact absent row old
  · rw [List.mem_singleton.mp added]
    exact other

end RillServer.Mysql
