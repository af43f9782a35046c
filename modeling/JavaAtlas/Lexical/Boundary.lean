import JavaAtlas.Lexical.Token

/-! Structure found by brackets alone: the start of a declaration, and the parts between
separators that no bracket or literal encloses. -/
namespace JavaAtlas.Lexical

def isBoundary (c : Char) : Bool :=
  c == ';' || c == '\x7b' || c == '\x7d'

theorem isBoundary_iff {c : Char} : isBoundary c = true ↔ c = ';' ∨ c = '\x7b' ∨ c = '\x7d' := by
  rw [isBoundary,Bool.or_eq_true,Bool.or_eq_true,beq_iff_eq,beq_iff_eq,beq_iff_eq,or_assoc]

/-- Walks back through the text before a place, nearest character first, to the end of the last
boundary outside parentheses. `depth` counts closing parentheses still to be met by their
opening ones; an opening one without partner is passed over. -/
def startBefore : Nat → List Char → Nat
  | _, [] => 0
  | depth, c :: before =>
    if c == ')' then startBefore (depth + 1) before
    else if c == '(' then startBefore (depth - 1) before
    else if depth == 0 && isBoundary c then before.length + 1
    else startBefore depth before

def declarationStart (text : List Char) (stop : Nat) : Nat :=
  startBefore 0 (text.take stop).reverse

/-- `declarationStart` for an index that may lie outside the text: before it there is nothing to
walk through, and past its end there is no answer. -/
def declarationStart? (text : List Char) (stop : Int) : Option Nat :=
  if stop ≤ text.length then some (declarationStart text stop.toNat) else none

def opening? (c : Char) : Option Char :=
  if c == ')' then some '('
  else if c == ']' then some '['
  else if c == '\x7d' then some '\x7b'
  else none

def isOpening (c : Char) : Bool :=
  c == '(' || c == '[' || c == '\x7b'

/-- A division in progress: the open brackets, the innermost first, the part being read and the
parts already cut off, both in reverse. -/
structure Division where
  stack : List Char
  part : List Char
  parts : List (List Char)

/-- A closing bracket counts only if it answers the innermost open one; otherwise it is an
ordinary character, and may be the separator. -/
def Division.step (separator : Char) (division : Division) : Token → Division
  | .code c =>
    let longer := {division with part := c :: division.part}
    if isOpening c then {longer with stack := c :: division.stack}
    else if division.stack.head?.isSome && division.stack.head? == opening? c then
      {longer with stack := division.stack.tail}
    else if c == separator && division.stack.isEmpty then
      {division with part := [], parts := division.part.reverse :: division.parts}
    else longer
  | token => {division with part := token.text.reverse ++ division.part}

def Division.finish (division : Division) : List (List Char) :=
  (division.part.reverse :: division.parts).reverse

def splitTopLevel (separator : Char) (text : List Char) : List (List Char) :=
  ((literalTokens text).foldl (Division.step separator) ⟨[],[],[]⟩).finish

/-- `splitTopLevel` at a separator given as text; one that is not a single character occurs
nowhere. -/
def splitTopLevelAt (separator text : List Char) : List (List Char) :=
  match separator with
  | [c] => splitTopLevel c text
  | _ => [text]

end JavaAtlas.Lexical
