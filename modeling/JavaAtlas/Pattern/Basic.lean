import JavaAtlas.Text.CharClass

/-! Patterns over text and their prioritised matching. A pattern may match at a place in several
ways; the order of preference is part of its meaning, and a later part of the pattern that fails
calls for the next way of an earlier one. -/
namespace JavaAtlas

structure Capture where
  start : Nat
  stop : Nat
  text : List Char
  deriving DecidableEq, Repr

/-- A place in a text, with the captures made on the way to it, the latest first. -/
structure Cursor where
  position : Nat
  before : Option Char
  rest : List Char
  captures : List (Nat × Capture)
  deriving DecidableEq, Repr

def Cursor.advance? (accepts : Char → Bool) (cursor : Cursor) : Option Cursor :=
  match cursor.rest with
  | [] => none
  | c :: rest =>
    if accepts c then
      some {cursor with position := cursor.position + 1, before := some c, rest := rest}
    else none

def Cursor.atBorder (cursor : Cursor) : Bool :=
  cursor.before.any Text.isWord != cursor.rest.head?.any Text.isWord

inductive Pattern where
  | nothing
  | one (accepts : Char → Bool)
  | seq (first second : Pattern)
  /-- The first pattern by preference. -/
  | either (first second : Pattern)
  /-- At most `limit` rounds of the body, by preference many; a round may be matched in any of
  its ways. -/
  | upTo (limit : Nat) (body : Pattern)
  /-- Any number of rounds, by preference many; a round may be matched in any of its ways. -/
  | many (body : Pattern)
  /-- Any number of rounds, by preference many, each matched in the preferred way. -/
  | longest (body : Pattern)
  /-- Any number of rounds, by preference few, each matched in the preferred way. -/
  | shortest (body : Pattern)
  | border
  /-- The empty text where the body does not match. -/
  | notAhead (body : Pattern)
  | capture (index : Nat) (body : Pattern)

namespace Pattern

/-- Rounds of `step`, as many as possible up to the limit, before going on. -/
def rounds {α : Type} (step : Cursor → (Cursor → Option α) → Option α) (go : Cursor → Option α) :
    Nat → Cursor → Option α
  | 0, cursor => go cursor
  | limit + 1, cursor =>
    match step cursor (rounds step go limit) with
    | some result => some result
    | none => go cursor

/-- The places reached after each number of rounds, the farthest first. A round takes at least
one character, so the characters left bound the number of rounds. -/
def places (step : Cursor → Option Cursor) : List Char → Cursor → List Cursor → List Cursor
  | [], cursor, done => cursor :: done
  | _ :: left, cursor, done =>
    match step cursor with
    | none => cursor :: done
    | some next => places step left next (cursor :: done)

/-- Goes on from the nearest place reached by rounds of `step` from which that succeeds. -/
def nearest {α : Type} (step : Cursor → Option Cursor) (go : Cursor → Option α) :
    List Char → Cursor → Option α
  | [], cursor => go cursor
  | _ :: left, cursor =>
    match go cursor with
    | some result => some result
    | none =>
      match step cursor with
      | none => none
      | some next => nearest step go left next

/-- Matches at the cursor and goes on from the end of the match, in the first of all ways in
which going on succeeds. -/
def run {α : Type} : Pattern → Cursor → (Cursor → Option α) → Option α
  | nothing, cursor, go => go cursor
  | one accepts, cursor, go => (cursor.advance? accepts).bind go
  | seq first second, cursor, go => first.run cursor fun middle => second.run middle go
  | either first second, cursor, go =>
    match first.run cursor go with
    | some result => some result
    | none => second.run cursor go
  | upTo limit body, cursor, go => rounds (fun place more => body.run place more) go limit cursor
  | many body, cursor, go =>
    rounds (fun place more => body.run place more) go cursor.rest.length cursor
  | longest body, cursor, go =>
    (places (fun place => body.run place some) cursor.rest cursor []).findSome? go
  | shortest body, cursor, go =>
    nearest (fun place => body.run place some) go cursor.rest cursor
  | border, cursor, go => if cursor.atBorder then go cursor else none
  | notAhead body, cursor, go =>
    if (body.run cursor fun _ => some ()).isSome then none else go cursor
  | capture index body, cursor, go =>
    body.run cursor fun stop =>
      let text := cursor.rest.take (stop.position - cursor.position)
      go {stop with captures := (index,⟨cursor.position,stop.position,text⟩) :: stop.captures}

def sequence : List Pattern → Pattern
  | [] => nothing
  | [pattern] => pattern
  | pattern :: patterns => seq pattern (sequence patterns)

def choice : List Pattern → Pattern
  | [] => notAhead nothing
  | [pattern] => pattern
  | pattern :: patterns => either pattern (choice patterns)

def char (c : Char) : Pattern :=
  one (· == c)

def literal (text : List Char) : Pattern :=
  sequence (text.map char)

def word (text : String) : Pattern :=
  literal text.toList

def optional (body : Pattern) : Pattern :=
  either body nothing

def longest1 (body : Pattern) : Pattern :=
  seq body (longest body)

def blanks : Pattern :=
  longest (one Text.isBlank)

def blanks1 : Pattern :=
  longest1 (one Text.isBlank)

end Pattern

end JavaAtlas
