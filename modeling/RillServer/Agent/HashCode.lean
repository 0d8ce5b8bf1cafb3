import RillServer.Agent.Save
import Mathlib.Data.BitVec

/-!
# When a change of the player's data is noticed

`lualib-src/lua-hash.c`, and the loop of `save_agent_info` in `mod/agent/agent_info.lua` over it. A
table is hashed to the sum, over its entries, of the hash of the key xor the hash of the value,
times the depth of the table, in 32 bits. `save_agent_info` writes a table when this number is not
the remembered one.

`hashcode_hashable` and `hashcode_raises` say what the C code computes; by `checksum_same` the order
of `lua_next` does not matter. A change is written exactly when the sums differ and nothing raises on
the way (`savesChange_iff`). They often agree: a field whose value is its own key counts for
nothing, and values may be swapped between keys (`checksum_self`, `checksum_swap`).

`int` has 32 bits and wraps, and `char` is signed. The tables are nested no deeper than the Lua stack
has room for, which `lua-hash.c` does not look at. The tables have no metatable, as none that
`cjson` or the database drivers build has one. A value of a type that cannot be hashed is known by
the name of its type.
-/

namespace RillServer.AgentHash

/-- `MAX_DEPTH`. -/
def maxDepth : Nat := 16

mutual

/-- A Lua value. -/
inductive Value where
  | integer (v : BitVec 64)
  /-- the bits of a `double` -/
  | float (value : BitVec 64)
  | boolean (v : Bool)
  | string (str : List (BitVec 8))
  | table (entries : Entries)
  | other (typename : String)

/-- The entries of a table, in the order in which `lua_next` gives them. -/
inductive Entries where
  | nil
  | cons (key value : Value) (rest : Entries)

end

/-- `(int)(value ^ (value >> 32))`. -/
def foldWord (value : BitVec 64) : BitVec 32 := (value ^^^ (value >>> 32)).truncate 32

/-- `_hash_number`, for an integer. -/
def hashInteger (v : BitVec 64) : BitVec 32 :=
  if v ≠ (v.truncate 32).signExtend 64 then foldWord v else v.truncate 32

/-- `_hash_boolean`. -/
def hashBoolean (v : Bool) : BitVec 32 := if v then 1231 else 1237

/-- `_hash_string`. -/
def hashString (str : List (BitVec 8)) : BitVec 32 :=
  str.foldl (fun h c => 31 * h + c.signExtend 32) 0

/-- The test at the head of `_hash_one`. -/
def atDepth (depth : Nat) (hash : Except String (BitVec 32)) : Except String (BitVec 32) :=
  if maxDepth < depth then .error "Can't hash too depth table" else hash

mutual

/-- `_hash_one`. -/
def hashOne (depth : Nat) : Value → Except String (BitVec 32)
  | .integer v => atDepth depth (.ok (hashInteger v))
  | .float value => atDepth depth (.ok (foldWord value))
  | .boolean v => atDepth depth (.ok (hashBoolean v))
  | .string str => atDepth depth (.ok (hashString str))
  | .table entries =>
      atDepth depth ((hashEntries (depth + 1) 0 entries).map (· * BitVec.ofNat 32 (depth + 1)))
  | .other typename =>
      atDepth depth (.error ("Wrong type " ++ typename ++ " to evaluate hash code"))

/-- The loop of `_hash_table`. -/
def hashEntries (depth : Nat) (h : BitVec 32) : Entries → Except String (BitVec 32)
  | .nil => .ok h
  | .cons key value rest =>
      match hashOne depth key with
      | .error message => .error message
      | .ok kh =>
          match hashOne depth value with
          | .error message => .error message
          | .ok vh => hashEntries depth (h + (kh ^^^ vh)) rest

end

/-- `_hash_table`. -/
def hashTable (depth : Nat) (entries : Entries) : Except String (BitVec 32) :=
  (hashEntries depth 0 entries).map (· * BitVec.ofNat 32 depth)

/-- The data of a player: a table, or nothing. -/
abbrev Data := Option Entries

/-- `hash.hashcode(v.data or {})`, which is `lhash_table`. -/
def hashcode (data : Data) : Except String (BitVec 32) := hashTable 1 (data.getD .nil)

/-! ## What is computed -/

mutual

/-- Numbers, booleans, strings and tables of these, at most `maxDepth` levels deep. -/
def Value.Hashable (depth : Nat) : Value → Prop
  | .table entries => depth ≤ maxDepth ∧ entries.Hashable (depth + 1)
  | .other _ => False
  | .integer _ | .float _ | .boolean _ | .string _ => depth ≤ maxDepth

def Entries.Hashable (depth : Nat) : Entries → Prop
  | .nil => True
  | .cons key value rest => key.Hashable depth ∧ value.Hashable depth ∧ rest.Hashable depth

end

mutual

/-- The hash of a value inside a table of this depth. -/
def Value.digest (depth : Nat) : Value → BitVec 32
  | .integer v => hashInteger v
  | .float value => foldWord value
  | .boolean v => hashBoolean v
  | .string str => hashString str
  | .table entries => entries.checksum (depth + 1) * BitVec.ofNat 32 (depth + 1)
  | .other _ => 0

/-- The sum over the entries of a table. -/
def Entries.checksum (depth : Nat) : Entries → BitVec 32
  | .nil => 0
  | .cons key value rest => (key.digest depth ^^^ value.digest depth) + rest.checksum depth

end

theorem atDepth_ok {depth : Nat} {hash : Except String (BitVec 32)} (fits : depth ≤ maxDepth) :
    atDepth depth hash = hash := if_neg (Nat.not_lt.mpr fits)

theorem atDepth_deep {depth : Nat} (deep : ¬ depth ≤ maxDepth)
    (hash : Except String (BitVec 32)) : ∃ message, atDepth depth hash = .error message :=
  ⟨_, if_pos (Nat.not_le.mp deep)⟩

mutual

theorem hashOne_hashable (depth : Nat) (v : Value) (hashable : v.Hashable depth) :
    hashOne depth v = .ok (v.digest depth) := by
  cases v with
  | integer v | float v | boolean v | string v => exact atDepth_ok hashable
  | table entries =>
      obtain ⟨fits, inside⟩ := hashable
      rw [hashOne, atDepth_ok fits, hashEntries_hashable (depth + 1) 0 entries inside]
      simp [Except.map, Value.digest]
  | other typename => exact hashable.elim

theorem hashEntries_hashable (depth : Nat) (h : BitVec 32) (entries : Entries)
    (hashable : entries.Hashable depth) :
    hashEntries depth h entries = .ok (h + entries.checksum depth) := by
  cases entries with
  | nil => simp [hashEntries, Entries.checksum]
  | cons key value rest =>
      obtain ⟨keyOk, valueOk, restOk⟩ := hashable
      simp only [hashEntries, hashOne_hashable depth key keyOk,
        hashOne_hashable depth value valueOk]
      rw [hashEntries_hashable depth _ rest restOk, Entries.checksum, BitVec.add_assoc]

end

mutual

theorem hashOne_raises (depth : Nat) (v : Value) (not : ¬ v.Hashable depth) :
    ∃ message, hashOne depth v = .error message := by
  cases v with
  | integer v | float v | boolean v | string v => exact atDepth_deep not _
  | table entries =>
      by_cases fits : depth ≤ maxDepth
      · have inside : ¬ entries.Hashable (depth + 1) := fun ok => not ⟨fits, ok⟩
        obtain ⟨message, raised⟩ := hashEntries_raises (depth + 1) 0 entries inside
        refine ⟨message, ?_⟩
        rw [hashOne, atDepth_ok fits, raised]
        rfl
      · exact atDepth_deep fits _
  | other typename =>
      by_cases fits : depth ≤ maxDepth
      · exact ⟨_, atDepth_ok fits⟩
      · exact atDepth_deep fits _

theorem hashEntries_raises (depth : Nat) (h : BitVec 32) (entries : Entries)
    (not : ¬ entries.Hashable depth) : ∃ message, hashEntries depth h entries = .error message := by
  cases entries with
  | nil => exact (not True.intro).elim
  | cons key value rest =>
      by_cases keyOk : key.Hashable depth
      · by_cases valueOk : value.Hashable depth
        · simp only [hashEntries, hashOne_hashable depth key keyOk,
            hashOne_hashable depth value valueOk]
          exact hashEntries_raises depth _ rest fun restOk => not ⟨keyOk, valueOk, restOk⟩
        · obtain ⟨message, raised⟩ := hashOne_raises depth value valueOk
          exact ⟨message, by simp only [hashEntries, hashOne_hashable depth key keyOk, raised]⟩
      · obtain ⟨message, raised⟩ := hashOne_raises depth key keyOk
        exact ⟨message, by simp only [hashEntries, raised]⟩

end

/-- The table that is hashed for the data. -/
def Data.table (data : Data) : Entries := data.getD .nil

/-- What `lhash_table` returns. -/
theorem hashcode_hashable {d : Data} (hashable : d.table.Hashable 1) :
    hashcode d = .ok (d.table.checksum 1) := by
  unfold hashcode hashTable
  rw [← Data.table, hashEntries_hashable 1 0 d.table hashable]
  simp only [Except.map, BitVec.ofNat_eq_ofNat, BitVec.mul_one, BitVec.zero_add]

/-- When it raises. -/
theorem hashcode_raises {d : Data} (not : ¬ d.table.Hashable 1) :
    ∃ message, hashcode d = .error message := by
  obtain ⟨message, raised⟩ := hashEntries_raises 1 0 d.table not
  exact ⟨message, by rw [hashcode, hashTable, ← Data.table, raised]; rfl⟩

/-- A table that was hashed could be, and the number is its sum. -/
theorem of_hashcode {d : Entries} {code : BitVec 32} (hashed : hashcode (some d) = .ok code) :
    d.Hashable 1 ∧ d.checksum 1 = code := by
  by_cases hashable : d.Hashable 1
  · rw [hashcode_hashable (d := some d) hashable] at hashed
    exact ⟨hashable, Except.ok.inj hashed⟩
  · obtain ⟨message, raised⟩ := hashcode_raises (d := some d) hashable
    rw [raised] at hashed
    cases hashed

/-! ## Tables with the same content -/

mutual

/-- The same value: tables are the same when they have the same entries in any order. -/
inductive Value.Same : Value → Value → Prop
  | refl (v : Value) : Value.Same v v
  | table {d d' : Entries} : Entries.Same d d' → Value.Same (.table d) (.table d')

inductive Entries.Same : Entries → Entries → Prop
  | nil : Entries.Same .nil .nil
  | cons (key : Value) {v v' : Value} {d d' : Entries} : Value.Same v v' → Entries.Same d d' →
    Entries.Same (.cons key v d) (.cons key v' d')
  | swap (key value key' value' : Value) (d : Entries) :
    Entries.Same (.cons key value (.cons key' value' d)) (.cons key' value' (.cons key value d))
  | trans {d d' d'' : Entries} : Entries.Same d d' → Entries.Same d' d'' → Entries.Same d d''

end

mutual

theorem digest_same : ∀ (depth : Nat) {v v' : Value}, Value.Same v v' →
    v.digest depth = v'.digest depth
  | _, _, _, .refl _ => rfl
  | depth, _, _, .table inside => by
      rw [Value.digest, Value.digest, checksum_same (depth + 1) inside]

/-- The hash does not depend on the order of the entries. -/
theorem checksum_same : ∀ (depth : Nat) {d d' : Entries}, Entries.Same d d' →
    d.checksum depth = d'.checksum depth
  | _, _, _, .nil => rfl
  | depth, _, _, .cons _ value rest => by
      rw [Entries.checksum, Entries.checksum, digest_same depth value, checksum_same depth rest]
  | _, _, _, .swap _ _ _ _ _ => by
      simp only [Entries.checksum]
      exact add_left_comm _ _ _
  | depth, _, _, .trans first second => by
      rw [checksum_same depth first, checksum_same depth second]

end

/-- The number of entries. -/
def Entries.size : Entries → Nat
  | .nil => 0
  | .cons _ _ rest => rest.size + 1

theorem size_same : ∀ {d d' : Entries}, Entries.Same d d' → d.size = d'.size
  | _, _, .nil => rfl
  | _, _, .cons _ _ rest => by rw [Entries.size, Entries.size, size_same rest]
  | _, _, .swap _ _ _ _ _ => rfl
  | _, _, .trans first second => by rw [size_same first, size_same second]

/-! ## Changes that the sum does not show -/

/-- A field whose value hashes like its key counts for nothing. -/
theorem checksum_self {depth : Nat} {key value : Value}
    (alike : value.digest depth = key.digest depth) (d : Entries) :
    (Entries.cons key value d).checksum depth = d.checksum depth := by
  rw [Entries.checksum, alike, BitVec.xor_self]
  exact zero_add _

/-- Two values may change places when no bit of either stands in the hash of a key. -/
theorem checksum_swap {depth : Nat} {key key' value value' : Value}
    (clear : key.digest depth &&& value.digest depth = 0)
    (clear' : key'.digest depth &&& value'.digest depth = 0)
    (crossed : key.digest depth &&& value'.digest depth = 0)
    (crossed' : key'.digest depth &&& value.digest depth = 0) (d : Entries) :
    (Entries.cons key value (.cons key' value' d)).checksum depth =
      (Entries.cons key value' (.cons key' value d)).checksum depth := by
  have sum : ∀ {x y : BitVec 32}, x &&& y = 0 → x ^^^ y = x + y := by
    intro x y disjoint
    rw [BitVec.add_eq_or_of_and_eq_zero x y disjoint]
    ext i inside
    have apart : (x &&& y)[i] = false := by simp [disjoint]
    rw [BitVec.getElem_and] at apart
    rw [BitVec.getElem_xor, BitVec.getElem_or]
    revert apart
    cases x[i] <;> cases y[i] <;> decide
  simp only [Entries.checksum, sum clear, sum clear', sum crossed, sum crossed']
  ac_rfl

/-! ## The loop of `save_agent_info` -/

section Pass

variable {K : Type}

/-- An entry of `other_info`. -/
abbrev Info (K : Type) := AgentSave.Entry K Data (BitVec 32)

/-- `save_agent_info`: the entries afterwards, the calls of `set_playerdata` that were made and
whether it returned. `raises` says for which keys that call raises. -/
def saveAgentInfo (raises : K → Bool) : List (Info K) → List (Info K) × List (K × Data) × Bool
  | [] => ([], [], true)
  | e :: es =>
      match hashcode e.data with
      | .error _ => (e :: es, [], false)
      | .ok nowCode =>
          if e.hashcode ≠ some nowCode then
            let e' := { e with hashcode := some nowCode }
            if raises e.key then (e' :: es, [(e.key, e.data)], false)
            else
              let (es', written, returned) := saveAgentInfo raises es
              (e' :: es', (e.key, e.data) :: written, returned)
          else
            let (es', written, returned) := saveAgentInfo raises es
            (e :: es', written, returned)

/-- The calls of `set_playerdata`. -/
def calls (raises : K → Bool) (es : List (Info K)) : List (K × Data) := (saveAgentInfo raises es).2.1

/-- As long as every table can be hashed, this is the loop with the sum for a hash. -/
theorem saveAgentInfo_eq (raises : K → Bool) {es : List (Info K)}
    (hashable : ∀ e ∈ es, e.data.table.Hashable 1) :
    saveAgentInfo raises es =
      AgentSave.saveAgentInfo (fun d : Data => d.table.checksum 1) raises es := by
  induction es with
  | nil => rfl
  | cons e es ih =>
      have later := ih fun e member => hashable e (List.mem_cons_of_mem _ member)
      rw [saveAgentInfo, hashcode_hashable (hashable e List.mem_cons_self), later]
      rfl

/-- The loop gets past an entry: its data can be hashed, and if its hash has changed the write does
not raise. -/
def GetsPast (raises : K → Bool) (e : Info K) : Prop :=
  e.data.table.Hashable 1 ∧ (e.hashcode = some (e.data.table.checksum 1) ∨ raises e.key = false)

/-- What is called behind an entry that the loop gets past. -/
theorem calls_cons_past {raises : K → Bool} {e : Info K} (past : GetsPast raises e)
    (es : List (Info K)) (call : K × Data) :
    call ∈ calls raises (e :: es) ↔
      (e.hashcode ≠ some (e.data.table.checksum 1) ∧ call = (e.key, e.data)) ∨
        call ∈ calls raises es := by
  obtain ⟨hashable, quiet⟩ := past
  simp only [calls, saveAgentInfo, hashcode_hashable hashable]
  by_cases same : e.hashcode = some (e.data.table.checksum 1)
  · simp [same]
  · have returns : raises e.key = false := quiet.resolve_left same
    simp [same, returns]

/-- An entry that stops the loop is the last that may be written. -/
theorem calls_cons_stuck {raises : K → Bool} {e : Info K} (stuck : ¬ GetsPast raises e)
    (es : List (Info K)) (call : K × Data) :
    call ∈ calls raises (e :: es) ↔
      e.data.table.Hashable 1 ∧ call = (e.key, e.data) := by
  by_cases hashable : e.data.table.Hashable 1
  · have due : e.hashcode ≠ some (e.data.table.checksum 1) :=
      fun same => stuck ⟨hashable, .inl same⟩
    have raised : raises e.key = true := by
      cases answer : raises e.key with
      | true => rfl
      | false => exact (stuck ⟨hashable, .inr answer⟩).elim
    simp [calls, saveAgentInfo, hashcode_hashable hashable, due, raised, hashable]
  · obtain ⟨message, raised⟩ := hashcode_raises hashable
    simp [calls, saveAgentInfo, raised, hashable]

theorem key_of_calls {raises : K → Bool} {es : List (Info K)} {call : K × Data}
    (member : call ∈ calls raises es) : ∃ e ∈ es, e.key = call.1 := by
  induction es with
  | nil => cases member
  | cons e es ih =>
      by_cases past : GetsPast raises e
      · rcases (calls_cons_past past es call).mp member with ⟨-, rfl⟩ | later
        · exact ⟨e, List.mem_cons_self, rfl⟩
        · obtain ⟨e', inside, same⟩ := ih later
          exact ⟨e', List.mem_cons_of_mem _ inside, same⟩
      · obtain ⟨-, rfl⟩ := (calls_cons_stuck past es call).mp member
        exact ⟨e, List.mem_cons_self, rfl⟩

/-- A table that was saved and then changed, among the other tables of the player. -/
structure Change (K : Type) where
  before : List (Info K)
  after : List (Info K)
  key : K
  /-- the data that was last saved, with the hash that was remembered then -/
  saved : Entries
  code : BitVec 32
  hashed : hashcode (some saved) = .ok code
  /-- the data now -/
  now : Entries
  alone : ∀ e ∈ before ++ after, e.key ≠ key

/-- `other_info` after the change. -/
def Change.otherInfo (c : Change K) : List (Info K) :=
  c.before ++ ⟨c.key, some c.now, some c.code⟩ :: c.after

/-- If the data has changed, the next `save_agent_info` calls `set_playerdata` with it. -/
def SavesChange (raises : K → Bool) (c : Change K) : Prop :=
  ¬ c.saved.Same c.now → (c.key, some c.now) ∈ calls raises c.otherInfo

theorem calls_change_iff (raises : K → Bool) {e : Info K} {now : Entries} {code : BitVec 32}
    (entry : e.data = some now ∧ e.hashcode = some code) {before after : List (Info K)}
    (alone : ∀ b ∈ before ++ after, b.key ≠ e.key) :
    (e.key, some now) ∈ calls raises (before ++ e :: after) ↔
      (∀ b ∈ before, GetsPast raises b) ∧ now.Hashable 1 ∧ code ≠ now.checksum 1 := by
  obtain ⟨data, remembered⟩ := entry
  induction before with
  | nil =>
      have later : (e.key, some now) ∉ calls raises after := by
        intro member
        obtain ⟨b, inside, same⟩ := key_of_calls member
        exact alone b inside same
      have table : e.data.table = now := by rw [data]; rfl
      by_cases past : GetsPast raises e
      · have hashable : now.Hashable 1 := table ▸ past.1
        rw [List.nil_append, calls_cons_past past, table, remembered, data]
        simp [later, hashable]
      · rw [List.nil_append, calls_cons_stuck past, table, data]
        have stuck : now.Hashable 1 → code ≠ now.checksum 1 := by
          intro hashable same
          refine past ⟨table.symm ▸ hashable, .inl ?_⟩
          rw [remembered, table, same]
        simp only [List.not_mem_nil, false_implies, implies_true, true_and, and_true]
        exact ⟨fun hashable => ⟨hashable, stuck hashable⟩, fun both => both.1⟩
  | cons b before ih =>
      have other : b.key ≠ e.key := alone b List.mem_cons_self
      have rest := ih fun b member => alone b (List.mem_cons_of_mem _ member)
      rw [List.cons_append]
      by_cases past : GetsPast raises b
      · rw [calls_cons_past past, rest]
        simp [past, other.symm]
      · rw [calls_cons_stuck past]
        simp [past, other.symm]

/-- **Noticing a change.** A changed table is written exactly when the loop gets past the tables in
front of it, the table can be hashed and its sum is another one. -/
theorem savesChange_iff (raises : K → Bool) (c : Change K) :
    SavesChange raises c ↔
      (¬ c.saved.Same c.now → (∀ b ∈ c.before, GetsPast raises b) ∧ c.now.Hashable 1 ∧
        c.saved.checksum 1 ≠ c.now.checksum 1) := by
  have sum : c.saved.checksum 1 = c.code := (of_hashcode c.hashed).2
  have written := calls_change_iff raises (e := ⟨c.key, some c.now, some c.code⟩) ⟨rfl, rfl⟩ c.alone
  rw [SavesChange, Change.otherInfo, written, sum]

end Pass

/-- The bytes of a string. -/
def text (s : String) : Value := .string (s.toList.map fun c => BitVec.ofNat 8 c.toNat)

/-- The player gets a field `nick` with the value `"nick"`. -/
def nickAdded : Change String where
  before := []
  after := []
  key := "baseinfo"
  saved := .cons (text "uid") (.integer 50001) .nil
  code := 67329
  hashed := by rfl
  now := .cons (text "nick") (text "nick") (.cons (text "uid") (.integer 50001) .nil)
  alone := by simp

/-- The new field is never saved. -/
theorem change_not_saved :
    ¬ ∀ (raises : String → Bool) (c : Change String), SavesChange raises c := by
  intro saves
  have differ : ¬ nickAdded.saved.Same nickAdded.now := by
    intro same
    cases size_same same
  have saved := saves (fun _ => false) nickAdded differ
  have skipped : calls (fun _ => false) nickAdded.otherInfo = [] := by rfl
  rw [skipped] at saved
  cases saved

end RillServer.AgentHash
