import JavaAtlas.Java.Unit
import JavaAtlas.Lexical.Mask
import JavaAtlas.Pattern.Search

/-! The head of a source file: package, supertypes and kind. Each fact is found by its own
pattern, and one that is not found keeps its default. -/
namespace JavaAtlas

structure Header where
  package : String
  superclass : Option String
  interfaces : List String
  isInterface : Bool
  isAbstract : Bool
  isRestResource : Bool
  deriving DecidableEq, Repr

namespace Header
open Pattern

def isNameChar (c : Char) : Bool := Text.isWord c || c == '.'

def packagePattern : Pattern :=
  sequence [border,word "package",blanks1,capture 1 (longest1 (one isNameChar)),blanks,char ';']

/-- A class with an `extends` clause, type parameters in between or not; the superclass is
captured. -/
def superclassPattern : Pattern :=
  sequence [border,word "class",blanks1,longest1 (one Text.isWord),
    optional (sequence [blanks,char '<',shortest (one (· != '{')),char '>']),
    blanks1,word "extends",blanks1,capture 1 (longest1 (one isNameChar))]

def clauseWord : Pattern := choice [word "implements",word "extends"]

/-- A character of a list of names, where no further clause begins. -/
def listChar : Pattern :=
  seq (notAhead (sequence [border,clauseWord,border]))
    (one fun c => Text.isWord c || c == '.' || c == ',' || Text.isBlank c)

/-- A clause that reaches to the body without another clause in between; its list is captured. -/
def interfacePattern : Pattern :=
  sequence [border,clauseWord,blanks1,capture 1 (longest1 listChar),char '{']

def declares (keywords : List String) (name : List Char) : Pattern :=
  sequence [border,sequence (keywords.map fun keyword => seq (word keyword) blanks1),
    literal name,border]

def packageOf (masked : List Char) : String :=
  match packagePattern.search masked with
  | some found => String.ofList (found.captured 1)
  | none => defaultPackage

def superclassOf (masked : List Char) : Option String :=
  (superclassPattern.search masked).map fun found => String.ofList (found.captured 1)

def interfacesOf (masked : List Char) : List String :=
  match interfacePattern.search masked with
  | some found =>
    (((found.captured 1).splitOn ',').map Text.trim).filterMap fun name =>
      if name.isEmpty then none else some (String.ofList name)
  | none => []

def restMarkers : List String := ["@Path","@Consumes","@Produces"]

def hasRestMarker (masked : List Char) : Bool :=
  restMarkers.any fun marker => Text.occursIn marker.toList masked

def ofMasked (masked name : List Char) : Header where
  package := packageOf masked
  superclass := superclassOf masked
  interfaces := interfacesOf masked
  isInterface := ((declares ["interface"] name).search masked).isSome
  isAbstract := ((declares ["abstract","class"] name).search masked).isSome
  isRestResource := hasRestMarker masked

def read (content name : List Char) : Header :=
  ofMasked (Lexical.maskComments content) name

end Header

end JavaAtlas
