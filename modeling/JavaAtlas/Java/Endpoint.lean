import JavaAtlas.Java.Header
import JavaAtlas.Java.Method

/-! REST operations, from annotations on the methods and on the type that declares them. -/
namespace JavaAtlas.Endpoint
open Pattern

def typePattern (name : Pattern) : Pattern :=
  sequence [border,choice [word "class",word "interface",word "enum"],blanks1,name,border]

/-- Annotations and modifiers before the declaration of the named type or, if it is not declared,
of the first type that is. -/
def typePreamble (content name : List Char) : List Char :=
  let masked := Lexical.maskComments content
  let declared := ((typePattern (literal name)).search masked).or
    ((typePattern (longest1 (one Text.isWord))).search masked)
  match declared with
  | some found =>
    let start := Lexical.declarationStart (Lexical.maskLiterals masked) found.start
    Text.slice masked start found.start
  | none => []

def collapseSlashes : List Char → List Char
  | [] => []
  | [c] => [c]
  | c :: next :: rest =>
    if c == '/' && next == '/' then collapseSlashes (next :: rest)
    else c :: collapseSlashes (next :: rest)

def joinPaths (classPath methodPath : List Char) : List Char :=
  collapseSlashes (if methodPath.isEmpty then classPath else classPath ++ '/' :: methodPath)

def verbs : List String := ["GET","POST","PUT","DELETE"]

def firstValue (marks : List AnnotationUse) (name : String) : Option String :=
  (marks.find? fun mark => mark.simpleName == name).bind AnnotationUse.value

def anyValue (marks : List AnnotationUse) (name : String) : Option String :=
  (marks.filter fun mark => mark.simpleName == name).findSome? AnnotationUse.value

def firstVerb (marks : List AnnotationUse) : Option String :=
  (marks.map AnnotationUse.simpleName).find? fun name => verbs.contains name

/-- A media type that is missing or empty gives way to that of the class. -/
def mediaType (own fallback : Option String) : Option String :=
  match own with
  | some own => if own.isEmpty then fallback else some own
  | none => fallback

def ofMethod (unit : CompilationUnit) (onClass : List AnnotationUse) (method : Method) :
    Option Endpoint :=
  (firstVerb method.annotations).map fun verb =>
    { httpMethod := verb
      path := String.ofList (joinPaths ((firstValue onClass "Path").getD "").toList
        ((anyValue method.annotations "Path").getD "").toList)
      methodName := method.name
      className := unit.name
      package := unit.package
      consumes := mediaType (anyValue method.annotations "Consumes")
        (firstValue onClass "Consumes")
      produces := mediaType (anyValue method.annotations "Produces")
        (firstValue onClass "Produces") }

/-- Operations of a unit in the order of its methods; none unless the text has a REST marker. -/
def readAll (content : List Char) (unit : CompilationUnit) : List Endpoint :=
  if Header.hasRestMarker (Lexical.maskComments content) then
    unit.methods.filterMap
      (ofMethod unit (AnnotationUse.readAll (typePreamble content unit.name.toList)))
  else []

end JavaAtlas.Endpoint
