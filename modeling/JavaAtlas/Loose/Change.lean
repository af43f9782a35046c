import JavaAtlas.Loose.Model

/-! Changes to a model whose records may hold any values. A change breaks off where it needs a text
that is not there, and what it changed before stays changed. -/
namespace JavaAtlas.Loose

inductive Obstacle where
  | refusal (refusal : JavaAtlas.Model.Refusal)
  | mismatch (mismatch : Json.Mismatch)

def Obstacle.message : Obstacle → String
  | .refusal cause => cause.message
  | .mismatch cause => cause.message

abbrev Change (α : Type) := ExceptT Obstacle (StateM Model) α

namespace Change

def ofShape {α : Type} (result : Except Json.Mismatch α) : Change α :=
  match result with
  | .ok value => return value
  | .error mismatch => throw (.mismatch mismatch)

def warn (warning : String) : Change Unit :=
  modify fun model => {model with warnings := model.warnings ++ [.str warning]}

def put (name : String) (unit : CompilationUnit) : Change Unit :=
  modify fun model => {model with units := model.units.insert name unit}

end Change

structure Extraction where
  unit : CompilationUnit
  endpoints : List Endpoint := []
  enums : OrderedMap String (List Json) := .empty

def Extraction.ofExtraction (extraction : JavaAtlas.Extraction) : Extraction where
  unit := .ofUnit extraction.unit
  endpoints := extraction.endpoints.map .ofEndpoint
  enums := extraction.enums.mapValues fun _ constants => constants.map .str

namespace Model

/-- Lists the unit in its package, which has to be a key, and takes what else the file holds. -/
def takeRest (extraction : Extraction) : Change Unit := do
  let package ← Change.ofShape extraction.unit.package.asKey
  modify fun model => {model with
    packages := enlist package extraction.unit.name model.packages
    endpoints := model.endpoints ++ extraction.endpoints
    enums := model.enums.insertAll extraction.enums.entries}

/-- Merges what one file holds. Of two units with the same qualified name the first stays, and
the answer tells whether the unit was taken. -/
def add (extraction : Extraction) : Change Bool := do
  let model ← get
  let unit := extraction.unit
  if model.resolved.isGiven then throw (.refusal .closed)
  match model.units.get? unit.qualifiedName with
  | some known =>
    Change.warn ("Duplicate class " ++ unit.qualifiedName ++ " in " ++ unit.file.text ++
      "; keeping " ++ known.file.text)
    return false
  | none =>
    Change.put unit.qualifiedName unit
    takeRest extraction
    return true

end Model

end JavaAtlas.Loose
