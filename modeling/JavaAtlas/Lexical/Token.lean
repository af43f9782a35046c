import JavaAtlas.Lexical.Literal

/-! Division of a text into tokens. Only comments and literals are kept whole; every other
character is a token of its own, so the tokens put together are the text. -/
namespace JavaAtlas.Lexical

inductive Token where
  | code (c : Char)
  | literal (text : List Char)
  | comment (text : List Char)
  deriving DecidableEq, Repr

def Token.text : Token → List Char
  | .code c => [c]
  | .literal text => text
  | .comment text => text

def closedAt : List Char → Nat → Nat
  | [], position => position
  | c :: rest, position =>
    if ['*','/'].isPrefixOf (c :: rest) then position + 2 else closedAt rest (position + 1)

/-- Length of the comment at the start of the text. A line comment stops before its line break,
and a block comment left open runs to the end. -/
def commentLength? : List Char → Option Nat
  | '/' :: '/' :: rest => some ((rest.takeWhile (· != '\n')).length + 2)
  | '/' :: '*' :: rest => some (closedAt rest 2)
  | _ => none

/-- The token at the start of `c :: rest`. Comments count as code unless they are asked for. -/
def Token.first (comments : Bool) (c : Char) (rest : List Char) : Token :=
  if isQuote c then .literal ((c :: rest).take (literalLength (c :: rest)))
  else if comments then
    match commentLength? (c :: rest) with
    | some length => .comment ((c :: rest).take length)
    | none => .code c
  else .code c

/-- Tokens of the text after its first `skip` characters, which belong to a token already in
`done`. -/
def tokensFrom (comments : Bool) : Nat → List Char → List Token → List Token
  | _, [], done => done.reverse
  | skip + 1, _ :: rest, done => tokensFrom comments skip rest done
  | 0, c :: rest, done =>
    let token := Token.first comments c rest
    tokensFrom comments (token.text.length - 1) rest (token :: done)

def tokens (text : List Char) : List Token :=
  tokensFrom true 0 text []

/-- Literals and single characters of the text, in order; comment marks have no meaning. -/
def literalTokens (text : List Char) : List Token :=
  tokensFrom false 0 text []

end JavaAtlas.Lexical
