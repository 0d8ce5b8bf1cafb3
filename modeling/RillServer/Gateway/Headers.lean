import RillServer.Gateway.Server
import RillServer.Lib.Patterns
import RillServer.Lib.Positions
import Mathlib.Data.List.TakeWhile

/-!
# The headers of a request

`parse_httpheader` of `lualib/faci/gateserver_ws.lua` with its positions and its pattern, which is
not anchored: `scanHttpheader`. It is the function by lines that the gate server is modelled with
(`scanHttpheader_eq`).

From the text of a request line and of headers it makes the table of the last values, provided that
no name is empty (`scanHttpheader_request`). What begins with the colon is not read with an empty
name: the pattern finds a name further behind, or none.
-/

namespace RillServer.GateServer

open Pattern Positions Occurrences

/-- `"\r\n"`. -/
def crlf : Bytes := [13, 10]

/-- `([%a-]+)%s*: (.*)`. -/
def fieldPattern : List (Item UInt8) :=
  [.opening, .plus isKey, .closing, .star isSpace, .one (· == 58), .one (· == 32), .opening,
    .star fun _ => true, .closing]

/-- `string.match(str, "([%a-]+)%s*: (.*)")`. -/
def matchKeyValue (str : Bytes) : Option (Bytes × Bytes) :=
  match search fieldPattern str with
  | some ([.captured value, .captured key], _) => some (key, value)
  | _ => none

/-- `if key ~= nil then header[key:lower()] = value end`. -/
def assign (header : Header) : Option (Bytes × Bytes) → Header
  | some (key, value) => Function.update header (lower key) (some value)
  | none => header

/-- The loop of `parse_httpheader`, behind a line that ends at `i`. -/
def scanFields (httpStr : Bytes) (header : Header) (i : Nat) : Header :=
  let start := i + 2
  match found : find httpStr crlf start with
  | some (i', _) =>
    let str := sub httpStr start (i' - 1)
    scanFields httpStr (assign header (matchKeyValue str)) i'
  | none => header
termination_by httpStr.length - i
decreasing_by
  have bounds := find_bounds (List.cons_ne_nil 13 [10]) found
  omega

/-- `parse_httpheader`, with its positions. -/
def scanHttpheader (httpStr : Bytes) : Header :=
  match find httpStr crlf 1 with
  | some (i, _) => scanFields httpStr (fun _ => none) i
  | none => fun _ => none

/-! ## The pattern -/

theorem isSpace_of_isKey {b : UInt8} (key : isKey b = true) :
    isSpace b = false ∧ (b == 58) = false := by
  have all : ∀ n : Fin 256, isKey (UInt8.ofNat n) = true →
      isSpace (UInt8.ofNat n) = false ∧ (UInt8.ofNat n == 58) = false := by decide +kernel
  have found := all ⟨b.toNat, b.toNat_lt⟩
  rw [UInt8.ofNat_toNat] at found
  exact found key

theorem not_colon_of_isSpace {b : UInt8} (space : isSpace b = true) : (b == 58) = false := by
  rw [beq_eq_false_iff_ne]
  intro colon
  rw [colon] at space
  cases space

/-- What stands behind a colon and a space. -/
def behindColon : Bytes → Option Bytes
  | 58 :: 32 :: value => some value
  | _ => none

theorem behindColon_cons {b : UInt8} (other : (b == 58) = false) (t : Bytes) :
    behindColon (b :: t) = none := by
  rw [behindColon]
  intro value same
  cases same
  cases other

theorem matchHere_colon (items : List (Item UInt8)) (caps : List (Capture UInt8)) (t : Bytes) :
    matchHere (.one (· == 58) :: .one (· == 32) :: items) caps t =
      (behindColon t).bind (matchHere items caps) := by
  cases t with
  | nil => rfl
  | cons b t =>
    cases first : b == 58 with
    | false =>
      rw [behindColon_cons first, matchHere, first]
      rfl
    | true =>
      obtain rfl : b = 58 := eq_of_beq first
      cases t with
      | nil => rfl
      | cons c t =>
        cases second : c == 32 with
        | false =>
          have other : behindColon (58 :: c :: t) = none := by
            rw [behindColon]
            intro value same
            cases same
            cases second
          rw [other, matchHere, if_pos first, matchHere, second]
          rfl
        | true =>
          obtain rfl : c = 32 := eq_of_beq second
          rfl

/-- The value is all that is left. -/
theorem matchHere_value (caps : List (Capture UInt8)) (t : Bytes) :
    matchHere [.opening, .star fun _ => true, .closing] caps t =
      some (.captured t :: caps, []) := by
  have taken : t.takeWhile (fun _ => true) = t := List.takeWhile_eq_self_iff.mpr fun _ _ => rfl
  have left : t.dropWhile (fun _ => true) = [] := List.dropWhile_eq_nil_iff.mpr fun _ _ => rfl
  rw [matchHere_capture_star, taken, left]
  · rfl
  · rfl

/-- A field at the beginning of a text: the name, and the value. -/
def fieldHere (s : Bytes) : Option (Bytes × Bytes) :=
  if s.takeWhile isKey = [] then none
  else (behindColon ((s.dropWhile isKey).dropWhile isSpace)).map (s.takeWhile isKey, ·)

theorem matchHere_gap (caps : List (Capture UInt8)) (t : Bytes) :
    matchHere (fieldPattern.drop 3) caps t =
      (behindColon (t.dropWhile isSpace)).map fun value => (.captured value :: caps, []) := by
  have items : fieldPattern.drop 3 = .star isSpace :: .one (· == 58) :: .one (· == 32) ::
      [.opening, .star fun _ => true, .closing] := rfl
  rw [items, matchHere, expand_eq_of_fails, matchHere_colon]
  · cases behindColon (t.dropWhile isSpace) with
    | none => rfl
    | some value => exact matchHere_value caps value
  · intro b t space
    rw [matchHere_colon, behindColon_cons (not_colon_of_isSpace space)]
    rfl

theorem matchHere_field (s : Bytes) :
    matchHere fieldPattern [] s =
      (fieldHere s).map fun field => ([.captured field.2, .captured field.1], []) := by
  have items : fieldPattern =
      .opening :: .plus isKey :: .closing :: fieldPattern.drop 3 := rfl
  rw [items, fieldHere]
  split
  · rename_i none'
    rw [matchHere_capture_plus_none]
    · rfl
    · intro b head
      cases s with
      | nil => cases head
      | cons c s =>
        cases head
        rw [List.takeWhile_cons] at none'
        split at none'
        · cases none'
        · rename_i outside
          exact Bool.eq_false_iff.mpr outside
  · rename_i some'
    rw [matchHere_capture_plus_of_fails, matchHere_gap]
    · rw [Option.map_map]
      rfl
    · cases s with
      | nil => exact (some' rfl).elim
      | cons c s =>
        refine ⟨c, s, rfl, ?_⟩
        by_contra outside
        rw [List.takeWhile_cons_of_neg outside] at some'
        exact some' rfl
    · intro caps b t key
      obtain ⟨notSpace, notColon⟩ := isSpace_of_isKey key
      rw [matchHere_gap, List.dropWhile_cons_of_neg (by simp [notSpace]), behindColon_cons notColon]
      rfl

theorem matchField_cons (b : UInt8) (rest : Bytes) :
    matchField (b :: rest) = (fieldHere (b :: rest)).or (matchField rest) := by
  rw [matchField, fieldHere]
  split
  · rename_i key
    have some' : (b :: rest).takeWhile isKey ≠ [] := by
      rw [List.takeWhile_cons_of_pos key]
      exact List.cons_ne_nil _ _
    rw [if_neg some']
    generalize ((b :: rest).dropWhile isKey).dropWhile isSpace = t
    split
    · rfl
    · rename_i other
      rw [behindColon]
      · rfl
      · exact other
  · rename_i outside
    rw [List.takeWhile_cons_of_neg outside, if_pos rfl, Option.none_or]

theorem search_fieldPattern : ∀ s : Bytes, search fieldPattern s =
    (matchField s).map fun field => ([.captured field.2, .captured field.1], [])
  | [] => by
    rw [search, matchHere_field]
    rfl
  | b :: s => by
    rw [search, matchHere_field, search_fieldPattern s, matchField_cons]
    cases fieldHere (b :: s) <;> rfl

/-- The pattern is the scan that the gate server is modelled with. -/
theorem matchKeyValue_eq (str : Bytes) : matchKeyValue str = matchField str := by
  rw [matchKeyValue, search_fieldPattern]
  cases matchField str <;> rfl

/-! ## The lines -/

theorem splitLines_cons {b : UInt8} {s : Bytes} (other : ¬ crlf <+: b :: s) (line : Bytes) :
    splitLines line (b :: s) = splitLines (line ++ [b]) s := by
  rw [splitLines]
  intro rest first second
  subst first second
  exact other (List.prefix_append crlf rest)

/-- A line ends where `"\r\n"` occurs first. -/
theorem splitLines_eq : ∀ s line : Bytes, splitLines line s =
    match firstAt crlf s with
    | some i => (line ++ s.take i) :: splitLines [] (s.drop (i + 2))
    | none => []
  | [], line => by
    rw [splitLines]
    rfl
  | b :: s, line => by
    by_cases here : crlf <+: b :: s
    · obtain ⟨rest, split⟩ := here
      have first : firstAt crlf (crlf ++ rest) = some 0 :=
        firstAt_of_begins (List.prefix_append crlf rest)
      rw [← split, first, crlf]
      simp [splitLines]
    · rw [splitLines_cons here, splitLines_eq s, firstAt_cons here]
      cases firstAt crlf s with
      | none => rfl
      | some i => simp

theorem splitLines_of_some {s : Bytes} {i : Nat} (found : firstAt crlf s = some i) :
    splitLines [] s = s.take i :: splitLines [] (s.drop (i + 2)) := by
  rw [splitLines_eq, found]
  rfl

theorem splitLines_of_none {s : Bytes} (missing : firstAt crlf s = none) :
    splitLines [] s = [] := by
  rw [splitLines_eq, missing]

theorem splitLines_line {line : Bytes} (single : ¬ crlf <:+: line) (rest : Bytes) :
    splitLines [] (line ++ crlf ++ rest) = line :: splitLines [] rest := by
  have found : firstAt crlf (line ++ crlf ++ rest) = some line.length :=
    firstAt_pair (by decide) rest single
  have length : line.length + 2 = (line ++ crlf).length := by
    rw [List.length_append]
    rfl
  rw [splitLines_of_some found, length, List.drop_left, List.append_assoc, List.take_left]

theorem assign_matchKeyValue (header : Header) (line : Bytes) :
    assign header (matchKeyValue line) = setField header line := by
  rw [matchKeyValue_eq, setField]
  cases matchField line <;> rfl

/-- The loop goes over the lines behind a position. -/
theorem scanFields_eq : ∀ (rest : Nat) {httpStr : Bytes} (header : Header) {i : Nat},
    httpStr.length - i ≤ rest → i + 1 ≤ httpStr.length →
      scanFields httpStr header i =
        (splitLines [] (httpStr.drop (i + 1))).foldl setField header
  | rest, httpStr, header, i, enough, inside => by
    have start : max (i + 2) 1 = i + 2 := by omega
    have here := find_eq (p := crlf) (show i + 2 ≤ httpStr.length + 1 by omega)
    have after : i + 2 - 1 = i + 1 := rfl
    rw [start, after] at here
    cases first : firstAt crlf (httpStr.drop (i + 1)) with
    | none =>
      rw [first] at here
      rw [splitLines_of_none first, scanFields]
      split
      · rename_i found
        rw [here] at found
        cases found
      · rfl
    | some j =>
      rw [first] at here
      have ends := firstAt_add_length_le first (List.cons_ne_nil 13 [10])
      rw [List.length_drop] at ends
      have two : crlf.length = 2 := rfl
      obtain ⟨rest', rfl⟩ : ∃ rest', rest = rest' + 1 := ⟨rest - 1, by omega⟩
      have line : sub httpStr (i + 2) (i + 2 + j - 1) = (httpStr.drop (i + 1)).take j := by
        have taken := sub_add httpStr (i + 2) j (by omega)
        rw [start, after] at taken
        exact taken
      have later : (httpStr.drop (i + 1)).drop (j + 2) = httpStr.drop (i + 2 + j + 1) := by
        rw [List.drop_drop]
        congr 1
        omega
      rw [splitLines_of_some first, List.foldl_cons, later, scanFields]
      split
      · rename_i found
        rw [here] at found
        cases found
        rw [line]
        simp only [assign_matchKeyValue]
        exact scanFields_eq rest' _ (by omega) (by omega)
      · rename_i found
        rw [here] at found
        cases found

/-- **The scan by positions is the function by lines.** -/
theorem scanHttpheader_eq (httpStr : Bytes) : scanHttpheader httpStr = parseHttpheader httpStr := by
  have here := find_eq (p := crlf) (show 1 ≤ httpStr.length + 1 by omega)
  rw [Nat.sub_self, List.drop_zero] at here
  rw [scanHttpheader, parseHttpheader]
  cases first : firstAt crlf httpStr with
  | none =>
    rw [here, first, splitLines_of_none first]
    rfl
  | some i =>
    have ends := firstAt_add_length_le first (List.cons_ne_nil 13 [10])
    have two : crlf.length = 2 := rfl
    have length : max 1 1 + i + 1 = i + 2 := by omega
    rw [here, first, splitLines_of_some first, List.tail_cons, Option.map_some]
    have loop := scanFields_eq _ (fun _ => none) le_rfl
      (show max 1 1 + i + 1 ≤ httpStr.length by omega)
    rw [length] at loop
    exact loop

/-! ## Requests -/

/-- `Name: value`. -/
def fieldLine (field : Bytes × Bytes) : Bytes := field.1 ++ ([58, 32] ++ field.2)

/-- A request line, the lines of the fields, and an empty line. -/
def requestText (requestLine : Bytes) (fields : List (Bytes × Bytes)) : Bytes :=
  requestLine ++ crlf ++ (fields.flatMap (fun field => fieldLine field ++ crlf) ++ crlf)

/-- A name over letters and `-`, and a value without CR and LF. -/
def Legal (field : Bytes × Bytes) : Prop :=
  (∀ b ∈ field.1, isKey b = true) ∧ 13 ∉ field.2 ∧ 10 ∉ field.2

theorem legal_iff (field : Bytes × Bytes) :
    (field.1.all isKey = true ∧ 13 ∉ field.2 ∧ 10 ∉ field.2) ↔ Legal field := by
  rw [List.all_eq_true]
  rfl

instance (field : Bytes × Bytes) : Decidable (Legal field) :=
  decidable_of_iff _ (legal_iff field)

/-- The table of the last values. -/
def lastValues (fields : List (Bytes × Bytes)) : Header := fun key =>
  (fields.reverse.find? fun field => lower field.1 = key).map Prod.snd

section Requests

variable {field : Bytes × Bytes} {fields : List (Bytes × Bytes)}

theorem fieldHere_fieldLine (legal : Legal field) (nonempty : field.1 ≠ []) :
    fieldHere (fieldLine field) = some field := by
  obtain ⟨name, value⟩ := field
  have key : (name ++ ([58, 32] ++ value)).takeWhile isKey = name := by
    rw [List.takeWhile_append_of_pos legal.1]
    exact List.append_nil name
  have behind : (name ++ ([58, 32] ++ value)).dropWhile isKey = [58, 32] ++ value := by
    rw [List.dropWhile_append_of_pos legal.1]
    rfl
  rw [fieldHere, fieldLine, key, behind, if_neg nonempty]
  rfl

theorem setField_fieldLine (legal : Legal field) (nonempty : field.1 ≠ []) (header : Header) :
    setField header (fieldLine field) = Function.update header (lower field.1) (some field.2) := by
  have read : matchField (fieldLine field) = some field := by
    have here := fieldHere_fieldLine legal nonempty
    cases text : fieldLine field with
    | nil =>
      rw [text] at here
      cases here
    | cons b rest =>
      rw [text] at here
      rw [matchField_cons, here, Option.some_or]
  rw [setField, read]

theorem single_fieldLine (legal : Legal field) : ¬ crlf <:+: fieldLine field := by
  intro found
  obtain ⟨front, rest, split⟩ := found
  have inside : 13 ∈ fieldLine field := by
    rw [← split]
    simp [crlf]
  rw [fieldLine, List.mem_append, List.mem_append] at inside
  rcases inside with name | colon | value
  · cases legal.1 13 name
  · revert colon
    decide
  · exact legal.2.1 value

theorem splitLines_fields : ∀ {fields : List (Bytes × Bytes)}, (∀ field ∈ fields, Legal field) →
    ∀ rest, splitLines [] (fields.flatMap (fun field => fieldLine field ++ crlf) ++ rest) =
      fields.map fieldLine ++ splitLines [] rest
  | [], _, rest => rfl
  | field :: fields, legal, rest => by
    obtain ⟨here, later⟩ := List.forall_mem_cons.mp legal
    have single := single_fieldLine here
    rw [List.flatMap_cons, List.append_assoc, splitLines_line single, splitLines_fields later]
    rfl

/-- The lines of a request behind its request line. -/
theorem parseHttpheader_requestText {requestLine : Bytes} (single : ¬ crlf <:+: requestLine)
    (legal : ∀ field ∈ fields, Legal field) :
    parseHttpheader (requestText requestLine fields) =
      (fields.map fieldLine).foldl setField fun _ => none := by
  have last : splitLines [] crlf = [[]] := by decide
  have noField : ∀ header : Header, setField header [] = header := fun _ => rfl
  rw [parseHttpheader, requestText, splitLines_line single, List.tail_cons, splitLines_fields legal,
    last, List.foldl_append, List.foldl_cons, List.foldl_nil, noField]

/-- Each field is assigned, so that the last one of a name stays. -/
theorem foldl_setField : ∀ {fields : List (Bytes × Bytes)},
    (∀ field ∈ fields, Legal field ∧ field.1 ≠ []) → ∀ header : Header,
      (fields.map fieldLine).foldl setField header =
        fun key => ((fields.reverse.find? fun field => lower field.1 = key).map
          fun field => some field.2).getD (header key)
  | [], _, header => rfl
  | field :: fields, legal, header => by
    obtain ⟨⟨here, nonempty⟩, later⟩ := List.forall_mem_cons.mp legal
    rw [List.map_cons, List.foldl_cons, setField_fieldLine here nonempty, foldl_setField later]
    funext key
    rw [List.reverse_cons, List.find?_append]
    cases fields.reverse.find? fun field => lower field.1 = key with
    | some found => rfl
    | none =>
      by_cases same : lower field.1 = key
      · simp [same]
      · simp [same, Function.update_of_ne (Ne.symm same)]

/-- **The headers of a request are recovered**: the table has the lower-cased names, each with the
last of its values. -/
theorem scanHttpheader_request {requestLine : Bytes} (single : ¬ crlf <:+: requestLine)
    (legal : ∀ field ∈ fields, Legal field ∧ field.1 ≠ []) :
    scanHttpheader (requestText requestLine fields) = lastValues fields := by
  have legal' : ∀ field ∈ fields, Legal field := fun field member => (legal field member).1
  rw [scanHttpheader_eq, parseHttpheader_requestText single legal', foldl_setField legal]
  funext key
  rw [lastValues]
  cases fields.reverse.find? fun field => lower field.1 = key <;> rfl

/-- A name twice, and a value that looks like a field. -/
theorem scanHttpheader_twice :
    scanHttpheader (requestText (ascii "GET / HTTP/1.1")
        [(ascii "Host", ascii "a: b"), (ascii "HOST", [])]) =
      lastValues [(ascii "Host", ascii "a: b"), (ascii "HOST", [])] := by
  apply scanHttpheader_request
  · decide
  · rw [List.forall_mem_cons, List.forall_mem_singleton]
    decide

end Requests

/-- A line without a name is not read with an empty one. -/
theorem empty_name_not_read :
    ¬ ∀ (requestLine : Bytes) (fields : List (Bytes × Bytes)), ¬ crlf <:+: requestLine →
      (∀ field ∈ fields, Legal field) →
        scanHttpheader (requestText requestLine fields) = lastValues fields := by
  intro recovers
  have legal : ∀ field ∈ [([], ascii "a: b")], Legal field := by
    rw [List.forall_mem_singleton]
    decide
  have table := congrFun (recovers [] [([], ascii "a: b")] (by decide) legal) []
  rw [scanHttpheader_eq, parseHttpheader_requestText (by decide) legal] at table
  revert table
  decide

end RillServer.GateServer
