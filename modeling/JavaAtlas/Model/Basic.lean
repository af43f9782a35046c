import JavaAtlas.Java.Unit

/-! The model of a source tree: units under their qualified names, an index of packages, and what
the files declare beside them. It grows file by file until its references are resolved. -/
namespace JavaAtlas

structure Model where
  units : OrderedMap String CompilationUnit := .empty
  packages : OrderedMap String (List String) := .empty
  endpoints : List Endpoint := []
  enums : Enums := .empty
  warnings : List String := []
  /-- Candidates for the superclass of a unit, under its qualified name, where there were several. -/
  ambiguities : OrderedMap String (List String) := .empty
  resolved : Bool := false
  deriving DecidableEq

namespace Model

inductive Refusal where
  | closed
  | alreadyResolved
  deriving DecidableEq, Repr

def Refusal.message : Refusal → String
  | .closed => "Cannot add units after relationships are resolved"
  | .alreadyResolved => "Relationships already resolved for this context"

def enlist (packages : OrderedMap String (List String)) (unit : CompilationUnit) :
    OrderedMap String (List String) :=
  packages.insert unit.package ((packages.get? unit.package).getD [] ++ [unit.name])

def warn (model : Model) (warning : String) : Model :=
  {model with warnings := model.warnings ++ [warning]}

def duplicateWarning (unit known : CompilationUnit) : String :=
  "Duplicate class " ++ unit.qualifiedName ++ " in " ++ unit.file ++ "; keeping " ++ known.file

def enter (model : Model) (unit : CompilationUnit) : Model :=
  {model with
    units := model.units.insert unit.qualifiedName unit
    packages := enlist model.packages unit}

/-- A change of a model in place: what it did before it is refused stays done. -/
abbrev Change (α : Type) := ExceptT Refusal (StateM Model) α

def Change.outcome {α : Type} (change : Change α) (model : Model) : Except Refusal (Model × α) :=
  match change.run.run model with
  | (.ok answer,next) => .ok (next,answer)
  | (.error refusal,_) => .error refusal

/-- Merges what one file holds. Of two units with the same qualified name the first stays, and
the answer tells whether the unit was taken. -/
def Change.add (extraction : Extraction) : Change Bool := do
  let model ← get
  let unit := extraction.unit
  if model.resolved then throw .closed
  match model.units.get? unit.qualifiedName with
  | some known =>
    set (model.warn (duplicateWarning unit known))
    return false
  | none =>
    modify fun model => model.enter unit
    modify fun model => {model with
      endpoints := model.endpoints ++ extraction.endpoints
      enums := model.enums.insertAll extraction.enums.entries}
    return true

def add (model : Model) (extraction : Extraction) : Except Refusal (Model × Bool) :=
  (Change.add extraction).outcome model

/-- The unit of a qualified name or, failing that, the units of a simple name. -/
def find (model : Model) (name : String) : List CompilationUnit :=
  match model.units.get? name with
  | some unit => [unit]
  | none => model.units.values.filter fun unit => unit.name == name

/-- Whether the superclass of the unit is missing or lies outside the model. -/
def isRoot (model : Model) (unit : CompilationUnit) : Bool :=
  match unit.superclass with
  | none => true
  | some name => !model.units.contains name

def roots (model : Model) : List CompilationUnit :=
  model.units.values.filter model.isRoot

def endpointsOf (model : Model) (unit : CompilationUnit) : List Endpoint :=
  model.endpoints.filter fun endpoint =>
    endpoint.className == unit.name && endpoint.package == unit.package

def methods (model : Model) : List Method :=
  model.units.values.flatMap CompilationUnit.methods

structure Stats where
  packageCount : Nat
  classCount : Nat
  methodCount : Nat
  endpointCount : Nat
  enumCount : Nat
  deriving DecidableEq, Repr

def stats (model : Model) : Stats where
  packageCount := model.packages.size
  classCount := model.units.size
  methodCount := model.methods.length
  endpointCount := model.endpoints.length
  enumCount := model.enums.size

end Model

end JavaAtlas
