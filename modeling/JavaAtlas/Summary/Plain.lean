import JavaAtlas.Model.Basic

/-! Summaries that need no help: the first sentence of the documentation, or the signature. -/
namespace JavaAtlas.Summary

def limit : Nat := 120

/-- A line of documentation without its margin of blanks and asterisks. -/
def prose (line : List Char) : List Char :=
  Text.trim ((Text.trim line).dropWhile (· == '*'))

def sentence (line : List Char) : List Char :=
  if line.contains '.' then line.takeWhile (· != '.') ++ ['.'] else line

/-- First sentence of the first line with text; nothing if that line is a tag. -/
def ofJavadoc (javadoc : String) : String :=
  match ((Text.lines (Text.trim javadoc.toList)).map prose).find? fun line => !line.isEmpty with
  | some line =>
    if line.head? == some '@' then "" else String.ofList ((sentence line).take limit)
  | none => ""

def fallback (method : Method) : String :=
  if method.signature.isEmpty then "method " ++ method.name else Text.clip limit method.signature

def give (summary : String) (method : Method) : Method :=
  if method.summary.isEmpty then {method with summary} else method

def fromJavadoc (method : Method) : Method :=
  if method.javadoc.isEmpty then method else give (ofJavadoc method.javadoc) method

def fromSignature (method : Method) : Method := give (fallback method) method

def plain (methods : List Method) : List Method :=
  methods.map fun method => fromSignature (fromJavadoc method)

end JavaAtlas.Summary

namespace JavaAtlas.Model

/-- The units with the given methods in place of theirs, taken in order. -/
def refill : List (String × CompilationUnit) → List Method → List (String × CompilationUnit)
  | [], _ => []
  | (name,unit) :: rest, methods =>
    (name,{unit with methods := methods.take unit.methods.length}) ::
      refill rest (methods.drop unit.methods.length)

theorem keys_refill (entries : List (String × CompilationUnit)) (methods : List Method) :
    (refill entries methods).map Prod.fst = entries.map Prod.fst := by
  induction entries generalizing methods with
  | nil => rfl
  | cons entry rest ih => simp [refill,ih]

def withMethods (model : Model) (methods : List Method) : Model :=
  {model with units := ⟨refill model.units.entries methods,by
    rw [keys_refill]; exact model.units.distinct⟩}

end JavaAtlas.Model
