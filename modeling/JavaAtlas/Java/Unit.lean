import JavaAtlas.OrderedMap
import JavaAtlas.Text.Words

/-! What is recorded about one source file: its unit with methods and annotations, the REST
operations it serves and the enums it declares. -/
namespace JavaAtlas

def defaultPackage : String := "default"

def qualify (package name : String) : String := package ++ "." ++ name

def simpleName (name : String) : String := String.ofList (Text.afterLast '.' name.toList)

/-- An annotation as written; `arguments` is the text in its parentheses, if it has any. -/
structure AnnotationUse where
  name : String
  arguments : Option String
  deriving DecidableEq, Repr, Inhabited

def AnnotationUse.text (mark : AnnotationUse) : String :=
  match mark.arguments with
  | none => "@" ++ mark.name
  | some arguments => "@" ++ mark.name ++ "(" ++ arguments ++ ")"

structure Method where
  name : String
  signature : String
  javadoc : String := ""
  annotations : List AnnotationUse := []
  summary : String := ""
  deriving DecidableEq, Repr, Inhabited

/-- The type declared by one source file. The superclass is kept as written until references are
resolved; the qualified names of subclasses are known only then. -/
structure CompilationUnit where
  name : String
  package : String
  file : String
  superclass : Option String := none
  interfaces : List String := []
  methods : List Method := []
  isInterface : Bool := false
  isAbstract : Bool := false
  isRestResource : Bool := false
  subclasses : List String := []
  deriving DecidableEq, Repr, Inhabited

def CompilationUnit.qualifiedName (unit : CompilationUnit) : String :=
  qualify unit.package unit.name

structure Endpoint where
  httpMethod : String
  path : String
  methodName : String
  className : String
  package : String
  consumes : Option String := none
  produces : Option String := none
  deriving DecidableEq, Repr, Inhabited

def Endpoint.qualifiedClass (endpoint : Endpoint) : String :=
  qualify endpoint.package endpoint.className

abbrev Enums := OrderedMap String (List String)

structure Extraction where
  unit : CompilationUnit
  endpoints : List Endpoint := []
  enums : Enums := .empty
  deriving DecidableEq

end JavaAtlas
