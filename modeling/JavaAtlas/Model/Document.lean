import JavaAtlas.Json.Shape
import JavaAtlas.Model.Basic

/-! The model as a document and back. The package index is not stored: it follows from the units,
and is built again as they are read. Reading is strict: every text and every flag has to be one. -/
namespace JavaAtlas

namespace AnnotationUse

def toJson (mark : AnnotationUse) : Json :=
  .obj [("name",.str mark.name),("arguments",.ofOption mark.arguments)]

def ofJson (value : Json) : Except Json.Mismatch AnnotationUse := do
  let name ← (← value.need "name").asText
  let arguments ← (← value.getOr "arguments" .null).asTextOrNull
  return ⟨name,arguments⟩

end AnnotationUse

namespace Method

def toJson (method : Method) : Json :=
  .obj [("name",.str method.name),("signature",.str method.signature),
    ("javadoc",.str method.javadoc),
    ("annotations",.arr (method.annotations.map AnnotationUse.toJson)),
    ("summary",.str method.summary)]

def ofJson (value : Json) : Except Json.Mismatch Method := do
  let name ← (← value.need "name").asText
  let signature ← (← value.need "signature").asText
  let javadoc ← (← value.getOr "javadoc" (.str "")).asText
  let annotations ← (← (← value.getOr "annotations" (.arr [])).members).mapM AnnotationUse.ofJson
  let summary ← (← value.getOr "summary" (.str "")).asText
  return ⟨name,signature,javadoc,annotations,summary⟩

end Method

namespace CompilationUnit

def toJson (unit : CompilationUnit) : Json :=
  .obj [("name",.str unit.name),("package",.str unit.package),("file",.str unit.file),
    ("superclass",.ofOption unit.superclass),("interfaces",.strings unit.interfaces),
    ("methods",.arr (unit.methods.map Method.toJson)),("is_interface",.bool unit.isInterface),
    ("is_abstract",.bool unit.isAbstract),("is_rest_resource",.bool unit.isRestResource),
    ("subclasses",.strings unit.subclasses)]

def ofJson (value : Json) : Except Json.Mismatch CompilationUnit := do
  let name ← (← value.need "name").asText
  let package ← (← value.need "package").asText
  let file ← (← value.need "file").asText
  let superclass ← (← value.getOr "superclass" .null).asTextOrNull
  let interfaces ← (← value.getOr "interfaces" (.arr [])).asTexts
  let methods ← (← (← value.getOr "methods" (.arr [])).members).mapM Method.ofJson
  let isInterface ← (← value.getOr "is_interface" (.bool false)).asFlag
  let isAbstract ← (← value.getOr "is_abstract" (.bool false)).asFlag
  let isRestResource ← (← value.getOr "is_rest_resource" (.bool false)).asFlag
  let subclasses ← (← value.getOr "subclasses" (.arr [])).asTexts
  return ⟨name,package,file,superclass,interfaces,methods,isInterface,isAbstract,isRestResource,
    subclasses⟩

end CompilationUnit

namespace Endpoint

def toJson (endpoint : Endpoint) : Json :=
  .obj [("http_method",.str endpoint.httpMethod),("path",.str endpoint.path),
    ("method_name",.str endpoint.methodName),("class_name",.str endpoint.className),
    ("package",.str endpoint.package),("consumes",.ofOption endpoint.consumes),
    ("produces",.ofOption endpoint.produces)]

def requiredFields : List String := ["http_method","path","method_name","class_name","package"]

def optionalFields : List String := ["consumes","produces"]

/-- The name of the record itself, which no field may have. -/
def ownName : String := "self"

def refuseField (name : String) : Json.Mismatch :=
  if name == ownName then .repeatedField "Endpoint" name else .unknownField "Endpoint" name

def checkFields (value : Json) : Except Json.Mismatch Unit :=
  match value with
  | .obj fields =>
    let unknown := fields.find? fun field => !(requiredFields ++ optionalFields).contains field.1
    let missing := requiredFields.filter fun name => (fields.lookup name).isNone
    match unknown, missing with
    | some field, _ => .error (refuseField field.1)
    | none, [] => .ok ()
    | none, names => .error (.missingFields "Endpoint" names)
  | other => .error (.notRecord "Endpoint" other)

def ofJson (value : Json) : Except Json.Mismatch Endpoint := do
  checkFields value
  let httpMethod ← (← value.need "http_method").asText
  let path ← (← value.need "path").asText
  let methodName ← (← value.need "method_name").asText
  let className ← (← value.need "class_name").asText
  let package ← (← value.need "package").asText
  let consumes ← (← value.getOr "consumes" .null).asTextOrNull
  let produces ← (← value.getOr "produces" .null).asTextOrNull
  return ⟨httpMethod,path,methodName,className,package,consumes,produces⟩

end Endpoint

namespace Model

def toJson (model : Model) : Json :=
  .obj [("units",.arr (model.units.values.map CompilationUnit.toJson)),
    ("endpoints",.arr (model.endpoints.map Endpoint.toJson)),
    ("enums",.stringLists model.enums),("warnings",.strings model.warnings),
    ("ambiguous_references",.stringLists model.ambiguities),("resolved",.bool model.resolved)]

def ofJson (value : Json) : Except Json.Mismatch Model := do
  let units ← (← (← value.getOr "units" (.arr [])).members).mapM CompilationUnit.ofJson
  let endpoints ← (← (← value.getOr "endpoints" (.arr [])).members).mapM Endpoint.ofJson
  let enums ← (← value.getOr "enums" (.obj [])).asTextLists
  let warnings ← (← value.getOr "warnings" (.arr [])).asTexts
  let ambiguities ← (← value.getOr "ambiguous_references" (.obj [])).asTextLists
  let resolved ← (← value.getOr "resolved" (.bool false)).asFlag
  return {units.foldl enter {} with endpoints,enums,warnings,ambiguities,resolved}

end Model

namespace Model.Stats

def fields (stats : Stats) : List (String × Json) :=
  [("package_count",.ofNat stats.packageCount),("class_count",.ofNat stats.classCount),
    ("method_count",.ofNat stats.methodCount),("endpoint_count",.ofNat stats.endpointCount),
    ("enum_count",.ofNat stats.enumCount)]

end Model.Stats

end JavaAtlas
