import Mathlib.Data.List.Basic

/-!
# Patterns with captures

The matcher of Lua's string library, for patterns of character classes, of which as many as possible
are taken (`expand`), and of captures. A pattern is a list of items; a match is what was captured
and what is left of the text.

A repetition stops at the end of its class when what follows cannot begin with a character of the
class (`expand_eq_of_fails`), or when what follows matches there (`expand_eq_of_isSome`).
-/

namespace Pattern

variable {α β : Type}

/-- The items of a pattern. -/
inductive Item (α : Type) where
  | one (p : α → Bool)
  /-- a class with `*` -/
  | star (p : α → Bool)
  /-- a class with `+` -/
  | plus (p : α → Bool)
  | opening
  | closing
  /-- `$` -/
  | atEnd

/-- A capture, or the text from its beginning on. -/
inductive Capture (α : Type) where
  | pending (from' : List α)
  | captured (text : List α)

/-- The last capture that is pending ends where `s` is left. -/
def close (s : List α) : List (Capture α) → Option (List (Capture α))
  | [] => none
  | .pending from' :: caps => some (.captured (from'.take (from'.length - s.length)) :: caps)
  | .captured text :: caps => (close s caps).map (.captured text :: ·)

/-- As many characters of a class as possible, so that what follows matches. -/
def expand (p : α → Bool) (follow : List α → Option β) : List α → Option β
  | [] => follow []
  | c :: s => if p c then (expand p follow s).or (follow (c :: s)) else follow (c :: s)

/-- Matching at the beginning of a text. The captures are those so far, the last one first. -/
def matchHere : List (Item α) → List (Capture α) → List α → Option (List (Capture α) × List α)
  | [], caps, s => some (caps, s)
  | .one _ :: _, _, [] => none
  | .one p :: items, caps, c :: s => if p c then matchHere items caps s else none
  | .star p :: items, caps, s => expand p (matchHere items caps) s
  | .plus _ :: _, _, [] => none
  | .plus p :: items, caps, c :: s =>
    if p c then expand p (matchHere items caps) s else none
  | .opening :: items, caps, s => matchHere items (.pending s :: caps) s
  | .closing :: items, caps, s => (close s caps).bind fun caps => matchHere items caps s
  | .atEnd :: items, caps, s => if s.isEmpty then matchHere items caps s else none

/-- Matching at the first place of a text at which it is possible. -/
def search (items : List (Item α)) : List α → Option (List (Capture α) × List α)
  | [] => matchHere items [] []
  | c :: s => (matchHere items [] (c :: s)).or (search items s)

/-- A text as a pattern. -/
def literal [BEq α] (text : List α) : List (Item α) := text.map fun c => .one (· == c)

section Expand

variable {p : α → Bool} {follow : List α → Option β}

theorem expand_eq_of_fails (fails : ∀ c s, p c = true → follow (c :: s) = none) :
    ∀ s, expand p follow s = follow (s.dropWhile p)
  | [] => rfl
  | c :: s => by
    rw [expand, List.dropWhile_cons]
    split
    · rename_i inside
      rw [expand_eq_of_fails fails s, fails c s inside, Option.or_none]
    · rfl

theorem expand_eq_of_isSome : ∀ {s : List α}, (follow (s.dropWhile p)).isSome = true →
    expand p follow s = follow (s.dropWhile p)
  | [], _ => rfl
  | c :: s, follows => by
    rw [List.dropWhile_cons] at follows ⊢
    rw [expand]
    split at follows
    · rename_i inside
      rw [if_pos inside, if_pos inside, expand_eq_of_isSome follows]
      obtain ⟨result, found⟩ := Option.isSome_iff_exists.mp follows
      rw [found]
      rfl
    · rename_i outside
      rw [if_neg outside, if_neg outside]

end Expand

section Match

variable {p : α → Bool} {items : List (Item α)} {caps : List (Capture α)} {s : List α}

theorem matchHere_literal [BEq α] (items : List (Item α)) (caps : List (Capture α)) :
    ∀ text s : List α, matchHere (literal text ++ items) caps s =
      (s.dropPrefix? text).bind (matchHere items caps)
  | [], s => by simp [literal]
  | c :: text, [] => rfl
  | c :: text, d :: s => by
    rw [literal, List.map_cons, List.cons_append, matchHere, List.dropPrefix?]
    split
    · exact matchHere_literal items caps text s
    · rfl

theorem take_length_sub (p : α → Bool) (s : List α) :
    s.take (s.length - (s.dropWhile p).length) = s.takeWhile p := by
  have split : s.takeWhile p ++ s.dropWhile p = s := List.takeWhile_append_dropWhile
  have lengths : s.length = (s.takeWhile p).length + (s.dropWhile p).length := by
    rw [← List.length_append, split]
  have front : s.length - (s.dropWhile p).length = (s.takeWhile p).length := by omega
  calc s.take (s.length - (s.dropWhile p).length)
      = (s.takeWhile p ++ s.dropWhile p).take (s.takeWhile p).length := by rw [front, split]
    _ = s.takeWhile p := List.take_left

/-- A repetition that is captured takes all that it can if the rest matches then. -/
theorem matchHere_capture_star
    (follows :
      (matchHere items (.captured (s.takeWhile p) :: caps) (s.dropWhile p)).isSome = true) :
    matchHere (.opening :: .star p :: .closing :: items) caps s =
      matchHere items (.captured (s.takeWhile p) :: caps) (s.dropWhile p) := by
  have closed : matchHere (.closing :: items) (.pending s :: caps) (s.dropWhile p) =
      matchHere items (.captured (s.takeWhile p) :: caps) (s.dropWhile p) := by
    rw [matchHere, close, take_length_sub]
    rfl
  rw [matchHere, matchHere, expand_eq_of_isSome, closed]
  rw [closed]
  exact follows

theorem matchHere_closing {c : α} {rest : List α} (inside : p c = true) :
    matchHere (.closing :: items) (.pending (c :: rest) :: caps) (rest.dropWhile p) =
      matchHere items (.captured ((c :: rest).takeWhile p) :: caps)
        ((c :: rest).dropWhile p) := by
  rw [matchHere, close, ← List.dropWhile_cons_of_pos inside, take_length_sub]
  rfl

theorem matchHere_capture_plus (begins : ∃ c rest, s = c :: rest ∧ p c = true)
    (follows :
      (matchHere items (.captured (s.takeWhile p) :: caps) (s.dropWhile p)).isSome = true) :
    matchHere (.opening :: .plus p :: .closing :: items) caps s =
      matchHere items (.captured (s.takeWhile p) :: caps) (s.dropWhile p) := by
  obtain ⟨c, rest, rfl, inside⟩ := begins
  rw [matchHere, matchHere, if_pos inside, expand_eq_of_isSome, matchHere_closing inside]
  rw [matchHere_closing inside]
  exact follows

/-- So it does if the rest cannot begin with a character of its class. -/
theorem matchHere_capture_plus_of_fails (begins : ∃ c rest, s = c :: rest ∧ p c = true)
    (fails : ∀ caps c t, p c = true → matchHere items caps (c :: t) = none) :
    matchHere (.opening :: .plus p :: .closing :: items) caps s =
      matchHere items (.captured (s.takeWhile p) :: caps) (s.dropWhile p) := by
  obtain ⟨c, rest, rfl, inside⟩ := begins
  rw [matchHere, matchHere, if_pos inside, expand_eq_of_fails, matchHere_closing inside]
  intro d t inside'
  rw [matchHere]
  cases close (d :: t) (.pending (c :: rest) :: caps) with
  | none => rfl
  | some caps' => exact fails caps' d t inside'

/-- A repetition of a class that does not begin here. -/
theorem matchHere_capture_plus_none (outside : ∀ c ∈ s.head?, p c = false) :
    matchHere (.opening :: .plus p :: items) caps s = none := by
  cases s with
  | nil => rfl
  | cons c s =>
    have no : p c = false := outside c rfl
    rw [matchHere, matchHere, no]
    rfl

end Match

end Pattern
