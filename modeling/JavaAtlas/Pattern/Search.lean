import JavaAtlas.Pattern.Basic

/-! Matches of a pattern in a text: the leftmost one, and the division of the text by all of
them. -/
namespace JavaAtlas

structure Match where
  start : Nat
  stop : Nat
  text : List Char
  captures : List (Nat × Capture)
  deriving DecidableEq, Repr

def Match.capture? (found : Match) (index : Nat) : Option Capture :=
  (found.captures.find? fun entry => entry.1 == index).map (·.2)

def Match.captured (found : Match) (index : Nat) : List Char :=
  ((found.capture? index).map (·.text)).getD []

namespace Pattern

def matchAt (pattern : Pattern) (before : Option Char) (position : Nat) (rest : List Char) :
    Option Match :=
  (pattern.run ⟨position,before,rest,[]⟩ some).map fun stop =>
    ⟨position,stop.position,rest.take (stop.position - position),stop.captures⟩

def matchStart (pattern : Pattern) (text : List Char) : Option Match :=
  pattern.matchAt none 0 text

def searchFrom (pattern : Pattern) : Option Char → Nat → List Char → Option Match
  | before, position, [] => pattern.matchAt before position []
  | before, position, c :: rest =>
    match pattern.matchAt before position (c :: rest) with
    | some found => some found
    | none => searchFrom pattern (some c) (position + 1) rest

def search (pattern : Pattern) (text : List Char) : Option Match :=
  pattern.searchFrom none 0 text

inductive Piece where
  | kept (c : Char)
  | matched (found : Match)

/-- Pieces of the text after its first `skip` characters, which belong to a match already in
`done`. An empty match is passed over. -/
def piecesFrom (pattern : Pattern) :
    Nat → Option Char → Nat → List Char → List Piece → List Piece
  | _, _, _, [], done => done.reverse
  | skip + 1, _, position, c :: rest, done =>
    piecesFrom pattern skip (some c) (position + 1) rest done
  | 0, before, position, c :: rest, done =>
    match pattern.matchAt before position (c :: rest) with
    | some found =>
      if found.stop ≤ position then
        piecesFrom pattern 0 (some c) (position + 1) rest (.kept c :: done)
      else
        piecesFrom pattern (found.stop - position - 1) (some c) (position + 1) rest
          (.matched found :: done)
    | none => piecesFrom pattern 0 (some c) (position + 1) rest (.kept c :: done)

def pieces (pattern : Pattern) (text : List Char) : List Piece :=
  pattern.piecesFrom 0 none 0 text []

def Piece.match? : Piece → Option Match
  | .kept _ => none
  | .matched found => some found

def findAll (pattern : Pattern) (text : List Char) : List Match :=
  (pattern.pieces text).filterMap Piece.match?

def replaceAll (pattern : Pattern) (replacement : Match → List Char) (text : List Char) :
    List Char :=
  (pattern.pieces text).flatMap fun
    | .kept c => [c]
    | .matched found => replacement found

end Pattern

end JavaAtlas
