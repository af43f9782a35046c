import JavaAtlas.Loose.Forest
import JavaAtlas.Query.Basic

/-! The inheritance forest and the outline of one class. Both hand on the values of the stored
model as they are. -/
namespace JavaAtlas.Query

def kindOf (unit : Loose.CompilationUnit) : String :=
  if unit.isInterface.isGiven then "interface"
  else if unit.isAbstract.isGiven then "abstract"
  else "class"

mutual
def treeJson : ClassTree Loose.CompilationUnit → Json
  | .node unit children =>
    .obj ([("name",.str unit.qualifiedName),("kind",.str (kindOf unit)),
      ("superclass",unit.superclass),("interfaces",.arr unit.interfaces)] ++
      if children.isEmpty then [] else [("children",.arr (treesJson children))])

def treesJson : List (ClassTree Loose.CompilationUnit) → List Json
  | [] => []
  | tree :: rest => treeJson tree :: treesJson rest
end

def liesIn (package : Json) (unit : Loose.CompilationUnit) : Except Json.Mismatch Bool := do
  if unit.package.same package then return true
  else return (package.text ++ ".").toList.isPrefixOf (← unit.package.textFor "startswith").toList

def treesIn (package : Json) (model : Loose.Model) :
    Except Json.Mismatch (List (ClassTree Loose.CompilationUnit)) := do
  let trees ← model.forest
  if package.isGiven then trees.filterM fun tree => liesIn package tree.unit else return trees

def hierarchyAnswer (package : Json) (label : String) (document : Json) :
    Except Json.Mismatch Json := do
  let trees ← treesIn package (← Loose.Model.ofJson document)
  return .obj [("repo",.str label),("package",package),("root_count",.ofNat trees.length),
    ("tree",.arr (treesJson trees))]

def hierarchy (storagePath : Option String) (repo package : Json) : Action Json :=
  ask storagePath repo (hierarchyAnswer package)

def methodJson (method : Loose.Method) : Json :=
  .obj [("name",method.name),("signature",method.signature),("summary",method.summary),
    ("annotations",.strings (method.annotations.map fun mark => mark.shown.text))]

def unitJson (label : String) (model : Loose.Model) (unit : Loose.CompilationUnit) :
    Except Json.Mismatch Json := do
  let known ← if unit.superclass.isGiven then model.knows unit.superclass else pure false
  return .obj [("repo",.str label),("name",.str unit.qualifiedName),("file",unit.file),
    ("superclass",unit.superclass),("superclass_known",.bool known),
    ("interfaces",.arr unit.interfaces),("subclasses",.arr unit.subclasses),
    ("is_interface",unit.isInterface),("is_abstract",unit.isAbstract),
    ("is_rest_resource",unit.isRestResource),("methods",.arr (unit.methods.map methodJson)),
    ("endpoints",.arr ((model.endpointsOf unit).map Loose.Endpoint.toJson))]

def candidatesJson (names : List String) : Json := .strings (Text.sorted names)

def outlineAnswer (className : Json) (label : String) (document : Json) :
    Except Json.Mismatch Json := do
  let model ← Loose.Model.ofJson document
  match ← model.find className with
  | [] => return refusal ("Class not found: " ++ className.text)
  | [unit] => unitJson label model unit
  | units =>
    return .obj [("error",.str ("Class name is ambiguous: " ++ className.text)),
      ("candidates",candidatesJson (units.map Loose.CompilationUnit.qualifiedName))]

def outline (storagePath : Option String) (repo className : Json) : Action Json :=
  ask storagePath repo (outlineAnswer className)

end JavaAtlas.Query
