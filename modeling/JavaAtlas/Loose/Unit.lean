import JavaAtlas.Json.Literal
import JavaAtlas.Json.Order
import JavaAtlas.Model.Document

/-! Units and endpoints as documents may hold them: where a text or a flag is expected there can be
any value. They can be shown and searched like any other, which fails only if it needs a text that
is not there. -/
namespace JavaAtlas.Loose

structure Annotation where
  name : Json
  arguments : Json

def Annotation.toJson (mark : Annotation) : Json :=
  .obj [("name",mark.name),("arguments",mark.arguments)]

def Annotation.ofUse (mark : AnnotationUse) : Annotation :=
  ⟨.str mark.name,.ofOption mark.arguments⟩

def Annotation.ofJson (value : Json) : Except Json.Mismatch Annotation := do
  return ⟨← value.need "name",← value.getOr "arguments" .null⟩

def Annotation.shown (mark : Annotation) : AnnotationUse where
  name := mark.name.text
  arguments :=
    match mark.arguments with
    | .null => none
    | arguments => some arguments.text

structure Method where
  name : Json
  signature : Json
  javadoc : Json
  annotations : List Annotation
  summary : Json

namespace Method

def toJson (method : Method) : Json :=
  .obj [("name",method.name),("signature",method.signature),("javadoc",method.javadoc),
    ("annotations",.arr (method.annotations.map Annotation.toJson)),("summary",method.summary)]

def ofMethod (method : JavaAtlas.Method) : Method :=
  ⟨.str method.name,.str method.signature,.str method.javadoc,
    method.annotations.map Annotation.ofUse,.str method.summary⟩

def ofJson (value : Json) : Except Json.Mismatch Method := do
  let name ← value.need "name"
  let signature ← value.need "signature"
  let javadoc ← value.getOr "javadoc" (.str "")
  let annotations ←
    (← (← value.getOr "annotations" (.arr [])).members).mapM Annotation.ofJson
  return ⟨name,signature,javadoc,annotations,← value.getOr "summary" (.str "")⟩

def shown (method : Method) : Except Json.Mismatch JavaAtlas.Method := do
  let javadoc ← if method.javadoc.isGiven then method.javadoc.textFor "strip" else pure ""
  return ⟨method.name.text,method.signature.text,javadoc,method.annotations.map Annotation.shown,
    method.summary.givenText?.getD ""⟩

end Method

structure CompilationUnit where
  name : Json
  package : Json
  file : Json
  superclass : Json
  interfaces : List Json
  methods : List Method
  isInterface : Json
  isAbstract : Json
  isRestResource : Json
  subclasses : List Json

namespace CompilationUnit

def toJson (unit : CompilationUnit) : Json :=
  .obj [("name",unit.name),("package",unit.package),("file",unit.file),
    ("superclass",unit.superclass),("interfaces",.arr unit.interfaces),
    ("methods",.arr (unit.methods.map Method.toJson)),("is_interface",unit.isInterface),
    ("is_abstract",unit.isAbstract),("is_rest_resource",unit.isRestResource),
    ("subclasses",.arr unit.subclasses)]

def ofUnit (unit : JavaAtlas.CompilationUnit) : CompilationUnit where
  name := .str unit.name
  package := .str unit.package
  file := .str unit.file
  superclass := .ofOption unit.superclass
  interfaces := unit.interfaces.map .str
  methods := unit.methods.map Method.ofMethod
  isInterface := .bool unit.isInterface
  isAbstract := .bool unit.isAbstract
  isRestResource := .bool unit.isRestResource
  subclasses := unit.subclasses.map .str

def ofJson (value : Json) : Except Json.Mismatch CompilationUnit := do
  let name ← value.need "name"
  let package ← value.need "package"
  let file ← value.need "file"
  let superclass ← value.getOr "superclass" .null
  let interfaces ← (← value.getOr "interfaces" (.arr [])).members
  let methods ← (← (← value.getOr "methods" (.arr [])).members).mapM Method.ofJson
  return ⟨name,package,file,superclass,interfaces,methods,
    ← value.getOr "is_interface" (.bool false),← value.getOr "is_abstract" (.bool false),
    ← value.getOr "is_rest_resource" (.bool false),
    ← (← value.getOr "subclasses" (.arr [])).members⟩

def qualifiedName (unit : CompilationUnit) : String := qualify unit.package.text unit.name.text

def shownWith (unit : CompilationUnit) (interfaces : List String)
    (methods : List JavaAtlas.Method) : JavaAtlas.CompilationUnit where
  name := unit.name.text
  package := unit.package.text
  file := unit.file.text
  superclass := unit.superclass.givenText?
  interfaces
  methods
  isInterface := unit.isInterface.isGiven
  isAbstract := unit.isAbstract.isGiven
  isRestResource := unit.isRestResource.isGiven

def shown (unit : CompilationUnit) : Except Json.Mismatch JavaAtlas.CompilationUnit := do
  return unit.shownWith (unit.interfaces.map Json.text) (← unit.methods.mapM Method.shown)

/-- The unit as an entry of a tree, where the names of its interfaces are cut to their last part. -/
def inTree (unit : CompilationUnit) : Except Json.Mismatch JavaAtlas.CompilationUnit := do
  return unit.shownWith (← unit.interfaces.mapM (Json.textFor "rsplit")) []

def inPackage (unit : CompilationUnit) : Except Json.Mismatch JavaAtlas.CompilationUnit := do
  if unit.superclass.isGiven then discard (unit.superclass.textFor "rsplit")
  unit.inTree

end CompilationUnit

structure Endpoint where
  httpMethod : Json
  path : Json
  methodName : Json
  className : Json
  package : Json
  consumes : Json
  produces : Json

namespace Endpoint

def ofJson (value : Json) : Except Json.Mismatch Endpoint := do
  JavaAtlas.Endpoint.checkFields value
  return ⟨← value.need "http_method",← value.need "path",← value.need "method_name",
    ← value.need "class_name",← value.need "package",← value.getOr "consumes" .null,
    ← value.getOr "produces" .null⟩

def ofEndpoint (endpoint : JavaAtlas.Endpoint) : Endpoint where
  httpMethod := .str endpoint.httpMethod
  path := .str endpoint.path
  methodName := .str endpoint.methodName
  className := .str endpoint.className
  package := .str endpoint.package
  consumes := .ofOption endpoint.consumes
  produces := .ofOption endpoint.produces

def toJson (endpoint : Endpoint) : Json :=
  .obj [("http_method",endpoint.httpMethod),("path",endpoint.path),
    ("method_name",endpoint.methodName),("class_name",endpoint.className),
    ("package",endpoint.package),("consumes",endpoint.consumes),("produces",endpoint.produces)]

def qualifiedClass (endpoint : Endpoint) : String :=
  qualify endpoint.package.text endpoint.className.text

def shown (endpoint : Endpoint) : JavaAtlas.Endpoint where
  httpMethod := endpoint.httpMethod.text
  path := endpoint.path.text
  methodName := endpoint.methodName.text
  className := endpoint.className.text
  package := endpoint.package.text
  consumes := endpoint.consumes.givenText?
  produces := endpoint.produces.givenText?

def searched (endpoint : Endpoint) : Except Json.Mismatch JavaAtlas.Endpoint := do
  discard (endpoint.path.textFor "lower")
  discard (endpoint.methodName.textFor "lower")
  return endpoint.shown

end Endpoint

end JavaAtlas.Loose
