/-! Extents of literals. A literal opens at a quote and ends with the closing delimiter, with the
line when it is left open there, or with the text. -/
namespace JavaAtlas.Lexical

def isQuote (c : Char) : Bool :=
  c == '"' || c == '\''

def tripleQuote : List Char := ['"','"','"']

/-- Where a string or character literal ends, with `position` the index of the first of the
given characters. A backslash takes the next character with it; the quote and a line break end
the literal and belong to it. -/
def plainEnd (quote : Char) : List Char → Nat → Nat
  | [], position => position
  | c :: rest, position =>
    if c == '\\' then
      match rest with
      | [] => position + 1
      | _ :: rest => plainEnd quote rest (position + 2)
    else if c == quote || c == '\n' then position + 1
    else plainEnd quote rest (position + 1)

/-- Where a text block ends, with `position` the index of the first of the given characters. The
next three quotes close it; backslashes mean nothing inside. -/
def blockEnd : List Char → Nat → Nat
  | [], position => position
  | c :: rest, position =>
    if tripleQuote.isPrefixOf (c :: rest) then position + 3 else blockEnd rest (position + 1)

def literalLength : List Char → Nat
  | [] => 0
  | quote :: rest =>
    if tripleQuote.isPrefixOf (quote :: rest) then blockEnd (rest.drop 2) 3
    else plainEnd quote rest 1

/-- Contents of the first double-quoted literal, without its first and last character. A literal
that does not end in a double quote has none. -/
def firstStringLiteral (text : List Char) : Option (List Char) :=
  match text.dropWhile (· != '"') with
  | [] => none
  | quote :: rest =>
    let inside := rest.take (literalLength (quote :: rest) - 1)
    if inside.getLast? == some '"' then some inside.dropLast else none

end JavaAtlas.Lexical
