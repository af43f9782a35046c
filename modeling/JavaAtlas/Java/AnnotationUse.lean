import JavaAtlas.Java.Unit
import JavaAtlas.Lexical.Mask
import JavaAtlas.Pattern.Search

/-! Annotations in a text and the value that one carries. -/
namespace JavaAtlas.AnnotationUse
open Pattern

def pattern : Pattern :=
  sequence [char '@',capture 1 (longest1 (one fun c => Text.isWord c || c == '.')),
    optional (sequence [char '(',capture 2 (longest (one (· != ')'))),char ')'])]

/-- Annotations of the text in order. Their extents are found with the interiors of literals
blank, so that a parenthesis in a string does not close the arguments. -/
def readAll (text : List Char) : List AnnotationUse :=
  (pattern.findAll (Lexical.maskLiterals text)).map fun found =>
    { name := String.ofList (found.captured 1)
      arguments := (found.capture? 2).map fun part =>
        String.ofList (Text.slice text part.start part.stop) }

def simpleName (mark : AnnotationUse) : String := JavaAtlas.simpleName mark.name

def value (mark : AnnotationUse) : Option String :=
  mark.arguments.bind fun arguments =>
    match Lexical.firstStringLiteral arguments.toList with
    | some contents => some (String.ofList contents)
    | none =>
      let bare := Text.trim (Text.trimWhile (fun c => c == '{' || c == '}')
        (Text.trim arguments.toList))
      if bare.isEmpty then none else some (String.ofList bare)

end JavaAtlas.AnnotationUse
