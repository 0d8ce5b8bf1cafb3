import RillServer.Protopack.Logging
import RillServer.Protopack.Split

/-!
# Dispatching what a client sends

`M.unpack` of `lualib/protopack_json.lua`, and `client_dispatch` of `lualib/faci/dispatch.lua` up to
the call of `local_dispatch`. Only the decoding itself is under `pcall`.

A text that is no object with a command ends in a kick, except that (`meets_iff`)
* indexing a number, a boolean or `null` raises an error;
* the line about an invalid text is used as a format again, and an undoubled percent sign in the
  text raises an error.

And an object whose `_cmd` is `false` is one with a command, but is kicked.
-/

namespace RillServer.Protopack

/-- A JSON value, where `N` are the numbers. `json.decode` makes tables of arrays and objects, and a
light userdata of `null`. -/
inductive Json (N : Type) where
  | null
  | boolean (b : Bool)
  | number (x : N)
  | string (s : Text)
  | array (items : List (Json N))
  | object (fields : List (Text × Json N))

variable {N : Type}

/-- The field of an object; the last one if there are several. -/
def field (fields : List (Text × Json N)) (key : Text) : Option (Json N) :=
  (fields.reverse.find? fun entry => entry.1 = key).map Prod.snd

/-- `t[key]`, for a key that is none of the functions of `string`. -/
def Json.index (t : Json N) (key : Text) : Except String (Option (Json N)) :=
  match t with
  | .null => .error "attempt to index a userdata value (local 't')"
  | .boolean _ => .error "attempt to index a boolean value (local 't')"
  | .number _ => .error "attempt to index a number value (local 't')"
  | .string _ | .array _ => .ok none
  | .object fields => .ok (field fields key)

/-- `not cmd`. -/
def missing : Option (Json N) → Bool
  | none | some (.boolean false) => true
  | some _ => false

/-- What `client_dispatch` does with a text. -/
inductive Outcome (N : Type) where
  /-- `skynet.send(source, "lua", "kick", fd)` -/
  | kick (fd : Nat)
  /-- `local_dispatch(cmdlist[1], cmdlist[2], fd, msg, source)` -/
  | dispatch (cmd1 cmd2 : Option Text) (fd : Nat) (msg : Json N)

section Dispatch

variable (decode : Text → Except String (Json N)) (tostring : Json N → Text) (logger : Logger)

/-- `M.unpack`: the command, the check and the table. -/
def unpackJson (str : Text) :
    Except String (Option (Json N) × Option (Json N) × Option (Json N)) := do
  match decode str with
  | .error _ =>
    -- the line is made by `string.format`, and is the format of the log again
    let _ ← logger.error (format ("unpack error, msg: ".toList ++ str))
    return (none, none, none)
  | .ok t =>
    let cmd ← t.index "_cmd".toList
    let check ← t.index "_check".toList
    return (cmd, check, some t)

/-- `tostring` of a value that is there, as `string.split` applies it. -/
def text : Json N → Text
  | .string s => s
  | .boolean b => booleanText b
  | t => tostring t

/-- `client_dispatch`. It sets `_cmd` and `_check` in the table to what they are already. -/
def clientDispatch (fd : Nat) (str : Text) : Except String (Outcome N) := do
  let (cmd, _, msg) ← unpackJson decode logger str
  match missing cmd, cmd, msg with
  | false, some cmd, some msg =>
    let cmdlist := (split (text tostring cmd) ['.']).getD []
    return .dispatch cmdlist[0]? cmdlist[1]? fd msg
  | _, _, _ => return .kick fd

/-- The text is an object with a command. -/
def HasCmd (str : Text) : Prop :=
  ∃ fields cmd, decode str = .ok (.object fields) ∧ field fields "_cmd".toList = some cmd

/-- An object with a command is dispatched, and every other text ends in a kick. -/
def Meets (fd : Nat) (str : Text) : Prop :=
  (HasCmd decode str → ∃ cmd1 cmd2 msg,
    clientDispatch decode tostring logger fd str = .ok (.dispatch cmd1 cmd2 fd msg)) ∧
  (¬ HasCmd decode str → clientDispatch decode tostring logger fd str = .ok (.kick fd))

end Dispatch

/-- A value that can be indexed, with no `false` as its command. -/
def Json.Dispatchable : Json N → Prop
  | .null | .boolean _ | .number _ => False
  | .string _ | .array _ => True
  | .object fields => field fields "_cmd".toList ≠ some (.boolean false)

section Dispatch

variable {decode : Text → Except String (Json N)} {tostring : Json N → Text} {logger : Logger}
  {fd : Nat} {str : Text}

/-- An invalid text. -/
theorem meets_invalid {e : String} (invalid : decode str = .error e) :
    Meets decode tostring logger fd str ↔ 4 < logger.level ∨ Formats str := by
  have noCmd : ¬ HasCmd decode str := by
    intro hasCmd
    obtain ⟨_, _, valid, -⟩ := hasCmd
    rw [invalid] at valid
    cases valid
  have plain : '%' ∉ "unpack error, msg: ".toList := by decide
  rw [Meets, and_iff_right fun hasCmd => (noCmd hasCmd).elim, imp_iff_right noCmd,
    ← formats_plain_append plain str, ← error_format, clientDispatch, unpackJson, invalid]
  cases logger.error (format ("unpack error, msg: ".toList ++ str)) with
  | error e => simp [bind, Except.bind]
  | ok line => simp [bind, Except.bind, pure, Except.pure, missing]

/-- A value that raises an error. -/
theorem not_meets {t : Json N} (valid : decode str = .ok t) (other : ∀ fields, t ≠ .object fields)
    {e : String} (raises : t.index "_cmd".toList = .error e) :
    ¬ Meets decode tostring logger fd str := by
  have noCmd : ¬ HasCmd decode str := by
    intro hasCmd
    obtain ⟨fields, _, valid', -⟩ := hasCmd
    rw [valid] at valid'
    exact other fields (Except.ok.inj valid')
  intro meets
  have kicked := meets.2 noCmd
  rw [clientDispatch, unpackJson, valid] at kicked
  simp only [bind, Except.bind, raises] at kicked
  cases kicked

/-- A value without a command. -/
theorem meets_kick {t : Json N} (valid : decode str = .ok t) (noCmd : ¬ HasCmd decode str)
    {check : Option (Json N)} (noField : t.index "_cmd".toList = .ok none)
    (checked : t.index "_check".toList = .ok check) : Meets decode tostring logger fd str := by
  refine ⟨fun hasCmd => (noCmd hasCmd).elim, fun _ => ?_⟩
  rw [clientDispatch, unpackJson, valid]
  simp only [bind, Except.bind, noField, checked, pure, Except.pure, missing]

/-- An object. -/
theorem meets_object {fields : List (Text × Json N)} (valid : decode str = .ok (.object fields)) :
    Meets decode tostring logger fd str ↔
      field fields "_cmd".toList ≠ some (.boolean false) := by
  have unpacked : unpackJson decode logger str = .ok (field fields "_cmd".toList,
      field fields "_check".toList, some (.object fields)) := by
    rw [unpackJson, valid]
    rfl
  have hasCmd : HasCmd decode str ↔ ∃ cmd, field fields "_cmd".toList = some cmd := by
    simp [HasCmd, valid]
  rw [Meets, hasCmd, clientDispatch, unpacked]
  cases field fields "_cmd".toList with
  | none => simp [bind, Except.bind, missing, pure, Except.pure]
  | some cmd =>
    by_cases no : cmd = .boolean false
    · subst no
      simp [bind, Except.bind, missing, pure, Except.pure]
    · have there : missing (some cmd) = false := by
        rw [missing]
        simpa using no
      simp [bind, Except.bind, there, no, pure, Except.pure]

/-- **What a client sends is dispatched or ends in a kick** if and only if it is no number, boolean
or `null` and no object with the command `false`, and, when it is invalid, the line about it is a
format or is not logged. -/
theorem meets_iff : Meets decode tostring logger fd str ↔
    (∀ e, decode str = .error e → 4 < logger.level ∨ Formats str) ∧
      ∀ t, decode str = .ok t → t.Dispatchable := by
  cases decoded : decode str with
  | error e =>
    rw [meets_invalid decoded]
    simp
  | ok t =>
    simp only [reduceCtorEq, false_imp_iff, implies_true, true_and, Except.ok.injEq, forall_eq']
    have noCmd : (∀ fields, t ≠ .object fields) → ¬ HasCmd decode str := by
      intro other hasCmd
      obtain ⟨fields, _, valid', -⟩ := hasCmd
      rw [decoded] at valid'
      exact other fields (Except.ok.inj valid')
    cases t with
    | null => exact iff_false_intro (not_meets decoded (by simp) rfl)
    | boolean b => exact iff_false_intro (not_meets decoded (by simp) rfl)
    | number x => exact iff_false_intro (not_meets decoded (by simp) rfl)
    | string s => exact iff_true_intro (meets_kick decoded (noCmd (by simp)) rfl rfl)
    | array items => exact iff_true_intro (meets_kick decoded (noCmd (by simp)) rfl rfl)
    | object fields => exact meets_object decoded

end Dispatch

/-- The text `5` raises an error. -/
theorem number_not_kicked :
    ¬ ∀ (decode : Text → Except String (Json Nat)) (tostring : Json Nat → Text) (logger : Logger)
      (fd : Nat) (str : Text), Meets decode tostring logger fd str := by
  intro meets
  let decode : Text → Except String (Json Nat) := fun str =>
    if str = ['5'] then .ok (.number 5) else .error "invalid token"
  have decoded : decode ['5'] = .ok (.number 5) := rfl
  exact not_meets decoded (by simp) rfl (meets decode (fun _ => []) ⟨1, none⟩ 1 ['5'])

end RillServer.Protopack
