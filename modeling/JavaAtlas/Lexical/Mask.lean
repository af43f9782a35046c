import JavaAtlas.Lexical.Token

/-! Masks: comments, or the interiors of literals, become blanks. Line breaks stay, and so does
every offset, which lets a place found in a mask be used in the text. -/
namespace JavaAtlas.Lexical

def blanked (text : List Char) : List Char :=
  text.map fun c => if c == '\n' then c else ' '

def Token.withoutComment : Token → List Char
  | .comment text => blanked text
  | token => token.text

def maskComments (text : List Char) : List Char :=
  (tokens text).flatMap Token.withoutComment

/-- The first and the last character of a literal stay. -/
def hollow : List Char → List Char
  | [] => []
  | quote :: inside => quote :: (blanked inside.dropLast ++ inside.getLast?.toList)

def Token.withoutInterior : Token → List Char
  | .literal text => hollow text
  | token => token.text

/-- Literals keep their first and last character only. -/
def maskLiterals (text : List Char) : List Char :=
  (literalTokens text).flatMap Token.withoutInterior

end JavaAtlas.Lexical
