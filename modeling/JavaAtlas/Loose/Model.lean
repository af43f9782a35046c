import JavaAtlas.Loose.Unit

/-! Models of such units. A model can be questioned like any other, and a question fails only if
it needs a text that is not there. -/
namespace JavaAtlas.Loose

structure Model where
  units : OrderedMap String CompilationUnit := .empty
  /-- Names of the units of each package; of packages that match the first is the key. -/
  packages : List (Json × List Json) := []
  endpoints : List Endpoint := []
  enums : OrderedMap String (List Json) := .empty
  warnings : List Json := []
  ambiguities : OrderedMap String (List Json) := .empty
  resolved : Json := .bool false

namespace Model

def enlist (package name : Json) : List (Json × List Json) → List (Json × List Json)
  | [] => [(package,[name])]
  | (known,names) :: rest =>
    if known.isMatch package then (known,names ++ [name]) :: rest
    else (known,names) :: enlist package name rest

def ofModel (model : JavaAtlas.Model) : Model where
  units := model.units.mapValues fun _ unit => .ofUnit unit
  packages := model.packages.entries.map fun entry => (.str entry.1,entry.2.map .str)
  endpoints := model.endpoints.map .ofEndpoint
  enums := model.enums.mapValues fun _ constants => constants.map .str
  warnings := model.warnings.map .str
  ambiguities := model.ambiguities.mapValues fun _ names => names.map .str
  resolved := .bool model.resolved

def lists (map : OrderedMap String (List Json)) : Json :=
  .obj (map.entries.map fun entry => (entry.1,.arr entry.2))

def toJson (model : Model) : Json :=
  .obj [("units",.arr (model.units.values.map CompilationUnit.toJson)),
    ("endpoints",.arr (model.endpoints.map Endpoint.toJson)),("enums",lists model.enums),
    ("warnings",.arr model.warnings),("ambiguous_references",lists model.ambiguities),
    ("resolved",model.resolved)]

def enter (model : Model) (value : Json) : Except Json.Mismatch Model := do
  let unit ← CompilationUnit.ofJson value
  let package ← unit.package.asKey
  return {model with
    units := model.units.insert unit.qualifiedName unit
    packages := enlist package unit.name model.packages}

def ofJson (value : Json) : Except Json.Mismatch Model := do
  let model ← (← (← value.getOr "units" (.arr [])).members).foldlM enter {}
  let endpoints ← (← (← value.getOr "endpoints" (.arr [])).members).mapM Endpoint.ofJson
  let enums ← (← value.getOr "enums" (.obj [])).asLists
  let warnings ← (← value.getOr "warnings" (.arr [])).members
  let ambiguities ← (← value.getOr "ambiguous_references" (.obj [])).asLists
  let resolved ← value.getOr "resolved" (.bool false)
  return {model with endpoints,enums,warnings,ambiguities,resolved}

def package? (model : Model) (key : Json) : Option (Json × List Json) :=
  model.packages.find? fun package => package.1.isMatch key

def find (model : Model) (name : Json) : Except Json.Mismatch (List CompilationUnit) := do
  let named := model.units.values.filter fun unit => unit.name.same name
  match ← name.asKey with
  | .str name => return (model.units.get? name).elim named fun unit => [unit]
  | _ => return named

def knows (model : Model) (name : Json) : Except Json.Mismatch Bool := do
  match ← name.asKey with
  | .str name => return model.units.contains name
  | _ => return false

def stats (model : Model) : JavaAtlas.Model.Stats where
  packageCount := model.packages.length
  classCount := model.units.size
  methodCount := (model.units.values.flatMap CompilationUnit.methods).length
  endpointCount := model.endpoints.length
  enumCount := model.enums.size

def endpointsOf (model : Model) (unit : CompilationUnit) : List Endpoint :=
  model.endpoints.filter fun endpoint =>
    endpoint.className.same unit.name && endpoint.package.same unit.package

end Model

end JavaAtlas.Loose
