import JavaAtlas.Java.Unit
import JavaAtlas.Lexical.Boundary
import JavaAtlas.Lexical.Mask
import JavaAtlas.Pattern.Search

/-! Enums and the names of their constants. A body ends at the first closing brace. -/
namespace JavaAtlas.Enums
open Pattern

def pattern : Pattern :=
  sequence [border,word "enum",blanks1,capture 1 (longest1 (one Text.isWord)),
    optional (sequence [blanks1,word "implements",blanks1,longest1 (one fun c =>
      Text.isWord c || c == '.' || c == ',' || Text.isBlank c || c == '<' || c == '>')]),
    blanks,char '{',capture 2 (longest (one (· != '}'))),char '}']

def leadingMark : Pattern :=
  sequence [char '@',longest1 (one fun c => Text.isWord c || c == '.'),
    optional (sequence [char '(',longest (one (· != ')')),char ')']),blanks]

def constantPattern : Pattern :=
  seq (many leadingMark) (capture 1 (longest1 (one Text.isWord)))

/-- Constant names of a body. They are separated by commas, and a semicolon ends them. -/
def constants (body : List Char) : List String :=
  let listed := (Lexical.splitTopLevel ';' body).headD []
  (Lexical.splitTopLevel ',' listed).filterMap fun part =>
    (constantPattern.matchStart (Text.trim part)).map fun found =>
      String.ofList (found.captured 1)

def readAll (content : List Char) (package : String) : Enums :=
  .ofList ((pattern.findAll (Lexical.maskComments content)).map fun found =>
    (qualify package (String.ofList (found.captured 1)),constants (found.captured 2)))

end JavaAtlas.Enums
